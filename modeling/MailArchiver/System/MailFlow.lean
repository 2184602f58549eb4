import MailArchiver.Common.Queue
import MailArchiver.Lib.Slots
import MailArchiver.Lib.Transition

/-!
# System — MailFlow

The path of a mail from the SMTP gateway to a handler that accepted it:
any number of gateway sessions (`handle_DATA`), the raw queue and its
dead-letter queue, any number of consumers (`consume_raw_mail`), and
replays of the dead-letter queue (`dlq_replay`), with crashes at any
point.

Of RabbitMQ the steps assume that a publication is confirmed once it is
stored, that a message not acknowledged returns to its queue when its
channel closes, and that a rejection without requeue moves the message to
the dead-letter queue.
-/

namespace MailArchiver.MailFlow

open Transition

/-- A `handle_DATA` call that is publishing. -/
structure Publishing where
  mail : Mail
  /-- The broker has the message; the session does not know yet. -/
  stored : Bool
  deriving DecidableEq, Repr

/-- How far a consumer is with a delivery. -/
inductive Progress where
  | delivered
  | settling (answer : Settlement)
  deriving DecidableEq, Repr

/-- A message of the raw queue at a consumer, not settled. -/
structure Delivery where
  consumer : Nat
  msg : Queued
  progress : Progress
  deriving DecidableEq, Repr

/-- A message a replay took from the dead-letter queue, not acknowledged. -/
structure Held where
  request : Nat
  msg : Queued
  /-- Its copy is in the raw queue. -/
  stored : Bool
  /-- The publication was confirmed. -/
  confirmed : Bool
  deriving DecidableEq, Repr

structure State where
  nextTag : Nat
  publishing : List Publishing
  /-- What `handle_DATA` answered, newest first. -/
  answers : List (Mail × String)
  raw : List Queued
  deliveries : List Delivery
  dead : List Queued
  held : List Held
  /-- The mails a handler call returned normally on. -/
  handled : List Mail
  deriving DecidableEq, Repr

def init : State := ⟨0, [], [], [], [], [], [], []⟩

inductive Event where
  /-- A session enters `handle_DATA`. -/
  | data (payload : Bytes)
  /-- The broker stores the message of a publishing session. -/
  | store (i : Nat)
  /-- The session gets the confirmation and answers. -/
  | confirm (i : Nat)
  /-- `publish_raw_mail` raises, before or after the message was stored. -/
  | publishFails (i : Nat)
  /-- The gateway dies in `handle_DATA`. -/
  | sessionDies (i : Nat)
  | deliver (consumer : Nat)
  | handlerEnds (i : Nat) (how : HandlerEnd)
  /-- `ack` raises on an open channel: the `except` branch settles. -/
  | ackFails (i : Nat)
  /-- The broker carries out the answer of the consumer. -/
  | settled (i : Nat)
  /-- A consumer dies or loses its channel. -/
  | consumerDies (consumer : Nat)
  /-- A replay takes a message from the dead-letter queue. -/
  | get (request : Nat)
  | replayStore (i : Nat)
  | replayConfirm (i : Nat)
  | replayAck (i : Nat)
  /-- A replay ends, in any way: its connection closes. -/
  | replayEnds (request : Nat)
  deriving DecidableEq, Repr

/-- The answer of `handle_DATA` to a message over the size limit. -/
def tooLarge : String := "552 Message size exceeds maximum permitted"

/-- The answer of `handle_DATA` when the publication raised. -/
def retryLater : String := "451 Temporary failure, please retry"

/-- The answer of `handle_DATA` after the publication. -/
def acceptedAnswer : String := "250 Message accepted for archival"

/-- A message that comes back to a queue. -/
def Queued.returned (q : Queued) : Queued := { q with redelivered := true }

/-- No earlier delivery of the same consumer is left: its loop takes the
messages one at a time. -/
def isFirst (ds : List Delivery) (i consumer : Nat) : Bool :=
  (ds.take i).all fun d => d.consumer ≠ consumer

/-- One step, for gateways that accept up to `maxBytes`. -/
def step (maxBytes : Nat) (s : State) : Event → Option State
  | .data payload =>
      let mail : Mail := ⟨s.nextTag, payload⟩
      if maxBytes < payload.length then
        some { s with nextTag := s.nextTag + 1, answers := (mail, tooLarge) :: s.answers }
      else
        some { s with
          nextTag := s.nextTag + 1
          publishing := s.publishing ++ [⟨mail, false⟩] }
  | .store i =>
      match s.publishing[i]? with
      | some ⟨mail, false⟩ =>
          some { s with
            publishing := s.publishing.set i ⟨mail, true⟩
            raw := s.raw ++ [⟨mail, false⟩] }
      | _ => none
  | .confirm i =>
      match s.publishing[i]? with
      | some ⟨mail, true⟩ =>
          some { s with
            publishing := s.publishing.eraseIdx i
            answers := (mail, acceptedAnswer) :: s.answers }
      | _ => none
  | .publishFails i =>
      match s.publishing[i]? with
      | some p =>
          some { s with
            publishing := s.publishing.eraseIdx i
            answers := (p.mail, retryLater) :: s.answers }
      | none => none
  | .sessionDies i =>
      match s.publishing[i]? with
      | some _ => some { s with publishing := s.publishing.eraseIdx i }
      | none => none
  | .deliver consumer =>
      match s.raw with
      | [] => none
      | q :: raw =>
          if s.deliveries.countP (fun d => d.consumer = consumer) < prefetch then
            some { s with
              raw := raw
              deliveries := s.deliveries ++ [⟨consumer, q, .delivered⟩] }
          else none
  | .handlerEnds i how =>
      match s.deliveries[i]? with
      | some ⟨consumer, q, .delivered⟩ =>
          if isFirst s.deliveries i consumer then
            some { s with
              deliveries :=
                s.deliveries.set i ⟨consumer, q, .settling (settle q.redelivered how)⟩
              handled := if how = .returns then q.mail :: s.handled else s.handled }
          else none
      | _ => none
  | .ackFails i =>
      match s.deliveries[i]? with
      | some ⟨consumer, q, .settling .ack⟩ =>
          some { s with
            deliveries :=
              s.deliveries.set i ⟨consumer, q, .settling (settle q.redelivered .raises)⟩ }
      | _ => none
  | .settled i =>
      match s.deliveries[i]? with
      | some ⟨_, _, .settling .ack⟩ => some { s with deliveries := s.deliveries.eraseIdx i }
      | some ⟨_, q, .settling .rejectRequeue⟩ =>
          some { s with
            deliveries := s.deliveries.eraseIdx i
            raw := Queued.returned q :: s.raw }
      | some ⟨_, q, .settling .rejectDead⟩ =>
          some { s with
            deliveries := s.deliveries.eraseIdx i
            dead := s.dead ++ [⟨q.mail, false⟩] }
      | _ => none
  | .consumerDies consumer =>
      let (back, rest) := s.deliveries.partition fun d => d.consumer = consumer
      some { s with deliveries := rest, raw := back.map (Queued.returned ·.msg) ++ s.raw }
  | .get request =>
      match s.dead with
      | [] => none
      | q :: dead => some { s with dead := dead, held := s.held ++ [⟨request, q, false, false⟩] }
  | .replayStore i =>
      match s.held[i]? with
      | some ⟨request, q, false, _⟩ =>
          some { s with
            held := s.held.set i ⟨request, q, true, false⟩
            raw := s.raw ++ [⟨q.mail, false⟩] }
      | _ => none
  | .replayConfirm i =>
      match s.held[i]? with
      | some ⟨request, q, true, false⟩ =>
          some { s with held := s.held.set i ⟨request, q, true, true⟩ }
      | _ => none
  | .replayAck i =>
      match s.held[i]? with
      | some ⟨_, _, true, true⟩ => some { s with held := s.held.eraseIdx i }
      | _ => none
  | .replayEnds request =>
      let (back, rest) := s.held.partition fun h => h.request = request
      some { s with held := rest, dead := back.map (Queued.returned ·.msg) ++ s.dead }

/-- What a step does, for the queues and the messages outside them: the
first moves are a gateway session's, the next ones a consumer's, the last
ones a replay's. -/
inductive Moves (s : State) : State → Prop where
  | refused (mail : Mail) :
      Moves s { s with nextTag := s.nextTag + 1, answers := (mail, tooLarge) :: s.answers }
  | publishing (mail : Mail) :
      Moves s { s with
        nextTag := s.nextTag + 1
        publishing := s.publishing ++ [⟨mail, false⟩] }
  | stored {i : Nat} {mail : Mail} (hi : s.publishing[i]? = some ⟨mail, false⟩) :
      Moves s { s with
        publishing := s.publishing.set i ⟨mail, true⟩
        raw := s.raw ++ [⟨mail, false⟩] }
  | confirmed {i : Nat} {mail : Mail} (hi : s.publishing[i]? = some ⟨mail, true⟩) :
      Moves s { s with
        publishing := s.publishing.eraseIdx i
        answers := (mail, acceptedAnswer) :: s.answers }
  | publishFailed (i : Nat) (mail : Mail) :
      Moves s { s with
        publishing := s.publishing.eraseIdx i
        answers := (mail, retryLater) :: s.answers }
  | sessionDied (i : Nat) : Moves s { s with publishing := s.publishing.eraseIdx i }
  | delivered (consumer : Nat) {q : Queued} {raw : List Queued} (hq : s.raw = q :: raw) :
      Moves s { s with
        raw := raw
        deliveries := s.deliveries ++ [⟨consumer, q, .delivered⟩] }
  | handlerEnded {i consumer : Nat} {q : Queued} (how : HandlerEnd)
      (hi : s.deliveries[i]? = some ⟨consumer, q, .delivered⟩) :
      Moves s { s with
        deliveries := s.deliveries.set i ⟨consumer, q, .settling (settle q.redelivered how)⟩
        handled := if how = .returns then q.mail :: s.handled else s.handled }
  | ackFailed {i consumer : Nat} {q : Queued}
      (hi : s.deliveries[i]? = some ⟨consumer, q, .settling .ack⟩) :
      Moves s { s with
        deliveries :=
          s.deliveries.set i ⟨consumer, q, .settling (settle q.redelivered .raises)⟩ }
  | acked {i consumer : Nat} {q : Queued}
      (hi : s.deliveries[i]? = some ⟨consumer, q, .settling .ack⟩) :
      Moves s { s with deliveries := s.deliveries.eraseIdx i }
  | requeued {i consumer : Nat} {q : Queued}
      (hi : s.deliveries[i]? = some ⟨consumer, q, .settling .rejectRequeue⟩) :
      Moves s { s with
        deliveries := s.deliveries.eraseIdx i
        raw := Queued.returned q :: s.raw }
  | buried {i consumer : Nat} {q : Queued}
      (hi : s.deliveries[i]? = some ⟨consumer, q, .settling .rejectDead⟩) :
      Moves s { s with
        deliveries := s.deliveries.eraseIdx i
        dead := s.dead ++ [⟨q.mail, false⟩] }
  | consumerDied (consumer : Nat) :
      Moves s { s with
        deliveries := s.deliveries.filter fun d => !decide (d.consumer = consumer)
        raw := (s.deliveries.filter fun d => d.consumer = consumer).map (Queued.returned ·.msg)
          ++ s.raw }
  | got (request : Nat) {q : Queued} {dead : List Queued} (hq : s.dead = q :: dead) :
      Moves s { s with dead := dead, held := s.held ++ [⟨request, q, false, false⟩] }
  | replayStored {i request : Nat} {q : Queued} {confirmed : Bool}
      (hi : s.held[i]? = some ⟨request, q, false, confirmed⟩) :
      Moves s { s with
        held := s.held.set i ⟨request, q, true, false⟩
        raw := s.raw ++ [⟨q.mail, false⟩] }
  | replayConfirmed {i request : Nat} {q : Queued}
      (hi : s.held[i]? = some ⟨request, q, true, false⟩) :
      Moves s { s with held := s.held.set i ⟨request, q, true, true⟩ }
  | replayAcked {i request : Nat} {q : Queued}
      (hi : s.held[i]? = some ⟨request, q, true, true⟩) :
      Moves s { s with held := s.held.eraseIdx i }
  | replayEnded (request : Nat) :
      Moves s { s with
        held := s.held.filter fun h => !decide (h.request = request)
        dead := (s.held.filter fun h => h.request = request).map (Queued.returned ·.msg)
          ++ s.dead }

theorem moves_of_step {maxBytes : Nat} {s s' : State} {e : Event}
    (hs : step maxBytes s e = some s') : Moves s s' := by
  cases e with
  | data payload =>
      simp only [step] at hs
      split at hs <;> cases hs
      · exact .refused _
      · exact .publishing _
  | store i =>
      simp only [step] at hs
      split at hs <;> cases hs
      exact .stored ‹_›
  | confirm i =>
      simp only [step] at hs
      split at hs <;> cases hs
      exact .confirmed ‹_›
  | publishFails i =>
      simp only [step] at hs
      split at hs <;> cases hs
      exact .publishFailed i _
  | sessionDies i =>
      simp only [step] at hs
      split at hs <;> cases hs
      exact .sessionDied i
  | deliver consumer =>
      simp only [step] at hs
      split at hs
      · cases hs
      · split at hs <;> cases hs
        exact .delivered consumer ‹_›
  | handlerEnds i how =>
      simp only [step] at hs
      split at hs
      · split at hs <;> cases hs
        exact .handlerEnded how ‹_›
      · cases hs
  | ackFails i =>
      simp only [step] at hs
      split at hs <;> cases hs
      exact .ackFailed ‹_›
  | settled i =>
      simp only [step] at hs
      split at hs <;> cases hs
      · exact .acked ‹_›
      · exact .requeued ‹_›
      · exact .buried ‹_›
  | consumerDies consumer =>
      simp only [step, List.partition_eq_filter_filter] at hs
      cases hs
      exact .consumerDied consumer
  | get request =>
      simp only [step] at hs
      split at hs <;> cases hs
      exact .got request ‹_›
  | replayStore i =>
      simp only [step] at hs
      split at hs <;> cases hs
      exact .replayStored ‹_›
  | replayConfirm i =>
      simp only [step] at hs
      split at hs <;> cases hs
      exact .replayConfirmed ‹_›
  | replayAck i =>
      simp only [step] at hs
      split at hs <;> cases hs
      exact .replayAcked ‹_›
  | replayEnds request =>
      simp only [step, List.partition_eq_filter_filter] at hs
      cases hs
      exact .replayEnded request

/-! ## Where a mail can be -/

/-- The mail is in a queue, at a consumer, in the hands of a replay that
has not put a copy back yet, or was handled. A replay that has stored its
copy does not count: what it holds is about to be dropped. -/
inductive Kept (s : State) (m : Mail) : Prop where
  | raw {q : Queued} (h : q ∈ s.raw) (hm : q.mail = m)
  | delivered {d : Delivery} (h : d ∈ s.deliveries) (hm : d.msg.mail = m)
  | dead {q : Queued} (h : q ∈ s.dead) (hm : q.mail = m)
  | held {x : Held} (h : x ∈ s.held) (hm : x.msg.mail = m) (hs : x.stored = false)
  | handled (h : m ∈ s.handled)

/-- What the protocol maintains. -/
structure Inv (s : State) : Prop where
  /-- A stored publication is kept, whether or not its session knows. -/
  publishing : ∀ p ∈ s.publishing, p.stored = true → Kept s p.mail
  /-- A delivery the consumer acknowledges was handled. -/
  acked : ∀ d ∈ s.deliveries, d.progress = .settling .ack → d.msg.mail ∈ s.handled
  accepted : ∀ m, (m, acceptedAnswer) ∈ s.answers → Kept s m

theorem Kept.mono {s s' : State} (hraw : ∀ q ∈ s.raw, Kept s' q.mail)
    (hdel : ∀ d ∈ s.deliveries, Kept s' d.msg.mail) (hdead : ∀ q ∈ s.dead, Kept s' q.mail)
    (hheld : ∀ x ∈ s.held, x.stored = false → Kept s' x.msg.mail)
    (hhandled : ∀ m ∈ s.handled, m ∈ s'.handled) {m : Mail} (h : Kept s m) : Kept s' m := by
  cases h with
  | raw h hm => exact hm ▸ hraw _ h
  | delivered h hm => exact hm ▸ hdel _ h
  | dead h hm => exact hm ▸ hdead _ h
  | held h hm hs => exact hm ▸ hheld _ h hs
  | handled h => exact .handled (hhandled m h)

/-- A step that only adds to the queues, or leaves them. -/
theorem Kept.of_subset {s s' : State} (hraw : s.raw ⊆ s'.raw)
    (hdel : s.deliveries ⊆ s'.deliveries) (hdead : s.dead ⊆ s'.dead) (hheld : s.held ⊆ s'.held)
    (hhandled : s.handled ⊆ s'.handled) {m : Mail} (h : Kept s m) : Kept s' m :=
  h.mono (fun _ hq => .raw (hraw hq) rfl) (fun _ hd => .delivered (hdel hd) rfl)
    (fun _ hq => .dead (hdead hq) rfl) (fun _ hx hs => .held (hheld hx) rfl hs)
    (fun _ hm => hhandled hm)

/-- A step that moves one delivery, or drops it: what matters is where its
mail is now. -/
theorem Kept.of_delivery {s s' : State} {i : Nat} {d : Delivery} {m : Mail} (h : Kept s m)
    (hi : s.deliveries[i]? = some d)
    (hdel : ∀ x ∈ s.deliveries, x ∈ s'.deliveries ∨ s.deliveries[i]? = some x)
    (hd : Kept s' d.msg.mail) (hraw : s.raw ⊆ s'.raw) (hdead : s.dead ⊆ s'.dead)
    (hheld : s.held ⊆ s'.held) (hhandled : s.handled ⊆ s'.handled) : Kept s' m := by
  refine h.mono (fun _ hq => .raw (hraw hq) rfl) ?_ (fun _ hq => .dead (hdead hq) rfl)
    (fun _ hx hst => .held (hheld hx) rfl hst) (fun _ hm => hhandled hm)
  intro x hx
  rcases hdel x hx with hx | hx
  · exact .delivered hx rfl
  · obtain rfl := Option.some.inj (hi.symm.trans hx)
    exact hd

/-- The same for a message that a replay holds. -/
theorem Kept.of_held {s s' : State} {i : Nat} {x : Held} {m : Mail} (h : Kept s m)
    (hi : s.held[i]? = some x) (hheld : ∀ y ∈ s.held, y ∈ s'.held ∨ s.held[i]? = some y)
    (hx : x.stored = false → Kept s' x.msg.mail) (hraw : s.raw ⊆ s'.raw)
    (hdel : s.deliveries ⊆ s'.deliveries) (hdead : s.dead ⊆ s'.dead)
    (hhandled : s.handled ⊆ s'.handled) : Kept s' m := by
  refine h.mono (fun _ hq => .raw (hraw hq) rfl) (fun _ hd => .delivered (hdel hd) rfl)
    (fun _ hq => .dead (hdead hq) rfl) ?_ (fun _ hm => hhandled hm)
  intro y hy hst
  rcases hheld y hy with hy | hy
  · exact .held hy rfl hst
  · obtain rfl := Option.some.inj (hi.symm.trans hy)
    exact hx hst

/-- **No step loses a mail that is somewhere**, provided that what is
being acknowledged was handled. -/
theorem kept_step {s s' : State} (hs : Moves s s')
    (hack : ∀ d ∈ s.deliveries, d.progress = .settling .ack → d.msg.mail ∈ s.handled)
    {m : Mail} (h : Kept s m) : Kept s' m := by
  cases hs with
  | refused mail | publishing mail | stored hi | confirmed hi | publishFailed i mail
  | sessionDied i =>
      -- a session adds to the raw queue at most
      exact h.of_subset (by simp) (by simp) (by simp) (by simp) (by simp)
  | delivered consumer hq =>
      refine h.mono ?_ (fun d hd => ?_) (fun _ hq' => ?_) (fun _ hx hst => ?_) (fun _ hm => ?_)
      · intro q' hq'
        rw [hq] at hq'
        rcases List.mem_cons.mp hq' with rfl | hq'
        · exact .delivered (List.mem_append_right _ (List.mem_singleton_self _)) rfl
        · exact .raw hq' rfl
      · exact .delivered (List.mem_append_left _ hd) rfl
      · exact .dead hq' rfl
      · exact .held hx rfl hst
      · exact hm
  | @handlerEnded i consumer q how hi =>
      have hhandled : s.handled ⊆ if how = .returns then q.mail :: s.handled else s.handled := by
        split
        · exact List.subset_cons_self _ _
        · exact List.Subset.refl _
      exact h.of_delivery hi (fun _ hd => Slots.mem_set_or hd i _)
        (.delivered (Slots.mem_set_self hi _) rfl) (by simp) (by simp) (by simp) hhandled
  | @ackFailed i consumer q hi =>
      exact h.of_delivery hi (fun _ hd => Slots.mem_set_or hd i _)
        (.delivered (Slots.mem_set_self hi _) rfl) (by simp) (by simp) (by simp) (by simp)
  | @acked i consumer q hi =>
      -- the one move that drops a message: its mail was handled
      exact h.of_delivery hi (fun _ hd => Slots.mem_eraseIdx_or hd i)
        (.handled (hack _ (List.mem_of_getElem? hi) rfl)) (by simp) (by simp) (by simp) (by simp)
  | @requeued i consumer q hi =>
      exact h.of_delivery hi (fun _ hd => Slots.mem_eraseIdx_or hd i)
        (.raw List.mem_cons_self rfl) (by simp) (by simp) (by simp) (by simp)
  | @buried i consumer q hi =>
      exact h.of_delivery hi (fun _ hd => Slots.mem_eraseIdx_or hd i)
        (.dead (List.mem_append_right _ (List.mem_singleton_self _)) rfl)
        (by simp) (by simp) (by simp) (by simp)
  | consumerDied consumer =>
      refine h.mono (fun _ hq => ?_) ?_ (fun _ hq => ?_) (fun _ hx hst => ?_) (fun _ hm => ?_)
      · exact .raw (List.mem_append_right _ hq) rfl
      · intro d hd
        by_cases hc : d.consumer = consumer
        · have hback : d ∈ s.deliveries.filter (fun d => d.consumer = consumer) :=
            List.mem_filter.mpr ⟨hd, decide_eq_true hc⟩
          exact .raw (List.mem_append_left _ (List.mem_map_of_mem hback)) rfl
        · exact .delivered (List.mem_filter.mpr ⟨hd, by simp [hc]⟩) rfl
      · exact .dead hq rfl
      · exact .held hx rfl hst
      · exact hm
  | got request hq =>
      refine h.mono (fun _ hq' => ?_) (fun _ hd => ?_) ?_ (fun _ hx hst => ?_) (fun _ hm => ?_)
      · exact .raw hq' rfl
      · exact .delivered hd rfl
      · intro q' hq'
        rw [hq] at hq'
        rcases List.mem_cons.mp hq' with rfl | hq'
        · exact .held (List.mem_append_right _ (List.mem_singleton_self _)) rfl rfl
        · exact .dead hq' rfl
      · exact .held (List.mem_append_left _ hx) rfl hst
      · exact hm
  | @replayStored i request q confirmed hi =>
      exact h.of_held hi (fun _ hx => Slots.mem_set_or hx i _)
        (fun _ => .raw (List.mem_append_right _ (List.mem_singleton_self _)) rfl)
        (by simp) (by simp) (by simp) (by simp)
  | @replayConfirmed i request q hi =>
      exact h.of_held hi (fun _ hx => Slots.mem_set_or hx i _) (fun hst => by cases hst)
        (by simp) (by simp) (by simp) (by simp)
  | @replayAcked i request q hi =>
      exact h.of_held hi (fun _ hx => Slots.mem_eraseIdx_or hx i) (fun hst => by cases hst)
        (by simp) (by simp) (by simp) (by simp)
  | replayEnded request =>
      refine h.mono (fun _ hq => ?_) (fun _ hd => ?_) (fun _ hq => ?_) ?_ (fun _ hm => ?_)
      · exact .raw hq rfl
      · exact .delivered hd rfl
      · exact .dead (List.mem_append_right _ hq) rfl
      · intro x hx hst
        by_cases hc : x.request = request
        · have hback : x ∈ s.held.filter (fun h => h.request = request) :=
            List.mem_filter.mpr ⟨hx, decide_eq_true hc⟩
          exact .dead (List.mem_append_left _ (List.mem_map_of_mem hback)) rfl
        · exact .held (List.mem_filter.mpr ⟨hx, by simp [hc]⟩) rfl hst
      · exact hm

/-- A stored publication after a step was one before it, or is in the raw
queue now. -/
theorem publishing_step {s s' : State} (hs : Moves s s') {p : Publishing}
    (hp : p ∈ s'.publishing) (hst : p.stored = true) :
    p ∈ s.publishing ∨ ⟨p.mail, false⟩ ∈ s'.raw := by
  cases hs with
  | publishing mail =>
      rcases List.mem_append.mp hp with hp | hp
      · exact .inl hp
      · -- a new publication is not stored yet
        rw [List.mem_singleton.mp hp] at hst
        cases hst
  | stored hi =>
      rcases List.mem_or_eq_of_mem_set hp with hp | rfl
      · exact .inl hp
      · exact .inr (List.mem_append_right _ (List.mem_singleton_self _))
  | confirmed hi | publishFailed i mail | sessionDied i =>
      exact .inl (List.mem_of_mem_eraseIdx hp)
  | _ => exact .inl hp

/-- Only a handler that returned is acknowledged. -/
theorem returns_of_settle {redelivered : Bool} {how : HandlerEnd}
    (h : settle redelivered how = .ack) : how = .returns := by
  cases how with
  | returns => rfl
  | raisesTransient => cases h
  | raises =>
      rw [settle] at h
      split at h <;> cases h

theorem handled_subset {s s' : State} (hs : Moves s s') : s.handled ⊆ s'.handled := by
  cases hs with
  | @handlerEnded i consumer q how hi =>
      show s.handled ⊆ if how = .returns then q.mail :: s.handled else s.handled
      split
      · exact List.subset_cons_self _ _
      · exact List.Subset.refl _
  | _ => exact List.Subset.refl _

/-- A delivery to acknowledge after a step was one before it or has just
been handled. -/
theorem handled_step {s s' : State} (hs : Moves s s') {d : Delivery} (hd : d ∈ s'.deliveries)
    (hack : d.progress = .settling .ack) : d ∈ s.deliveries ∨ d.msg.mail ∈ s'.handled := by
  cases hs with
  | delivered consumer hq =>
      rcases List.mem_append.mp hd with hd | hd
      · exact .inl hd
      · rw [List.mem_singleton.mp hd] at hack
        cases hack
  | handlerEnded how hi =>
      rcases List.mem_or_eq_of_mem_set hd with hd | rfl
      · exact .inl hd
      · have hret := returns_of_settle (Progress.settling.inj hack)
        exact .inr (by simp [hret])
  | ackFailed hi =>
      rcases List.mem_or_eq_of_mem_set hd with hd | rfl
      · exact .inl hd
      · cases returns_of_settle (Progress.settling.inj hack)
  | acked hi | requeued hi | buried hi => exact .inl (List.mem_of_mem_eraseIdx hd)
  | consumerDied consumer => exact .inl (List.mem_filter.mp hd).1
  | _ => exact .inl hd

/-- Only a stored publication is answered 250. -/
theorem accepted_step {s s' : State} (hs : Moves s s') {m : Mail}
    (hm : (m, acceptedAnswer) ∈ s'.answers) :
    (m, acceptedAnswer) ∈ s.answers ∨ ⟨m, true⟩ ∈ s.publishing := by
  have hne : acceptedAnswer ≠ tooLarge ∧ acceptedAnswer ≠ retryLater := by decide
  cases hs with
  | refused mail =>
      rcases List.mem_cons.mp hm with heq | hm
      · exact absurd (congrArg Prod.snd heq) hne.1
      · exact .inl hm
  | confirmed hi =>
      rcases List.mem_cons.mp hm with heq | hm
      · cases heq
        exact .inr (List.mem_of_getElem? hi)
      · exact .inl hm
  | publishFailed i mail =>
      rcases List.mem_cons.mp hm with heq | hm
      · exact absurd (congrArg Prod.snd heq) hne.2
      · exact .inl hm
  | _ => exact .inl hm

theorem inv_init : Inv init where
  publishing := nofun
  acked := nofun
  accepted := nofun

theorem inv_step {maxBytes : Nat} {s s' : State} {e : Event} (h : Inv s)
    (hs : step maxBytes s e = some s') : Inv s' := by
  have hmove := moves_of_step hs
  constructor
  · intro p hp hst
    rcases publishing_step hmove hp hst with hp | hraw
    · exact kept_step hmove h.acked (h.publishing p hp hst)
    · exact .raw hraw rfl
  · intro d hd hack
    rcases handled_step hmove hd hack with hd | hd
    · exact handled_subset hmove (h.acked d hd hack)
    · exact hd
  · intro m hm
    rcases accepted_step hmove hm with hm | hp
    · exact kept_step hmove h.acked (h.accepted m hm)
    · exact kept_step hmove h.acked (h.publishing _ hp rfl)

/-- **No accepted mail is lost**: in every reachable state, a mail the
gateway answered 250 for is in the raw queue, delivered or taken by a
replay and not acknowledged, in the dead-letter queue, or was handed to a
handler call that returned normally. -/
theorem no_accepted_mail_lost {maxBytes : Nat} {s : State}
    (h : Reachable (step maxBytes) init s) {m : Mail} (hm : (m, acceptedAnswer) ∈ s.answers) :
    (∃ q ∈ s.raw, q.mail = m) ∨ (∃ d ∈ s.deliveries, d.msg.mail = m)
      ∨ (∃ x ∈ s.held, x.msg.mail = m) ∨ (∃ q ∈ s.dead, q.mail = m) ∨ m ∈ s.handled := by
  have hinv : Inv s := h.invariant inv_init fun s e s' hI hs => inv_step hI hs
  cases hinv.accepted m hm with
  | raw h hm => exact .inl ⟨_, h, hm⟩
  | delivered h hm => exact .inr (.inl ⟨_, h, hm⟩)
  | held h hm hs => exact .inr (.inr (.inl ⟨_, h, hm⟩))
  | dead h hm => exact .inr (.inr (.inr (.inl ⟨_, h, hm⟩)))
  | handled h => exact .inr (.inr (.inr (.inr h)))

/-- A mail that failed twice, with its replay about to acknowledge. -/
def sampleEvents : List Event :=
  [.data [1], .store 0, .confirm 0, .deliver 0, .handlerEnds 0 .raises, .settled 0, .deliver 1,
    .handlerEnds 0 .raises, .settled 0, .get 0, .replayStore 0, .replayConfirm 0, .replayAck 0]

theorem no_accepted_mail_lost_sample :
    ∃ s, Reachable (step 10) init s ∧ s.raw = [⟨⟨0, [1]⟩, false⟩]
      ∧ ((∃ q ∈ s.raw, q.mail = ⟨0, [1]⟩) ∨ (∃ d ∈ s.deliveries, d.msg.mail = ⟨0, [1]⟩)
        ∨ (∃ x ∈ s.held, x.msg.mail = ⟨0, [1]⟩) ∨ (∃ q ∈ s.dead, q.mail = ⟨0, [1]⟩)
        ∨ ⟨0, [1]⟩ ∈ s.handled) := by
  have hrun : ∃ s, run (step 10) init sampleEvents = some s
      ∧ (⟨0, [1]⟩, acceptedAnswer) ∈ s.answers ∧ s.raw = [⟨⟨0, [1]⟩, false⟩] :=
    ⟨_, rfl, by decide, by decide⟩
  obtain ⟨s, hs, hm, hraw⟩ := hrun
  exact ⟨s, ⟨sampleEvents, hs⟩, hraw, no_accepted_mail_lost ⟨sampleEvents, hs⟩ hm⟩

end MailArchiver.MailFlow

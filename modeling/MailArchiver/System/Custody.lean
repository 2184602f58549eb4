import MailArchiver.System.ExactlyOnce
import MailArchiver.System.MailFlow

/-!
# System — Custody

A mail from the gateway's answer to its row. The queue protocol and the
archive are joined where a consumer calls `process` on the message it was
delivered: the call decides how the handler ends, and a consumer that dies
takes its call with it. The collector and the import route publish beside
the gateway; retention runs and holds go on as they do.

What a `process` call that returned stands for outlasts the call: there is
a row under the hash of its mail, until a retention run finds that row
expired.
-/

namespace MailArchiver

open Transition

variable {env : Env}

/-! ## What becomes of a processed mail -/

namespace Pc

/-- The call has met a row of its mail, or committed one. -/
def found : Pc → Bool
  | .reindex _ | .recheck | .indexMessage _ | .publish _ | .returned => true
  | _ => false

/-- How the handler ends whose call stands there. -/
def endsAs : Pc → HandlerEnd → Bool
  | .returned, .returns | .raised, .raisesTransient | .raised, .raises => true
  | _, _ => false

theorem eq_returned {pc : Pc} (h : pc.endsAs .returns = true) : pc = .returned := by
  cases pc with
  | returned => rfl
  | _ => cases h

end Pc

section Selected

variable (selected : DateTime → List Message → Prop)

/-- A retention run has found the row expired. -/
def Message.Retired (m : Message) : Prop :=
  ∃ cutoff batch, selected cutoff batch ∧ m ∈ batch ∧ isExpired cutoff m = true

/-- There is a row under the hash, or there was one until a retention run
found it expired. -/
def World.Accounts (w : World env) (hash : String) : Prop :=
  (∃ m ∈ w.db.messages, m.archiveHash = hash) ∨ ∃ m : Message, m.Retired selected ∧ m.archiveHash = hash

/-- A purge takes off what a retention run found expired. -/
def Purge.TakesRetired : Purge → Prop
  | .idle => True
  | .loading expired _ rest =>
      (∀ x ∈ expired, x.1.Retired selected) ∧ ∀ m ∈ rest, m.Retired selected
  | .running done todo =>
      ∀ msg ids, .deleteMessage msg ids ∈ done ++ todo → msg.Retired selected

variable {selected}

/-- A run only makes the selections that are counted. -/
def Event.Selects (selected : DateTime → List Message → Prop) (e : Event) : Prop :=
  ∀ cutoff batch, e = .purge (.select cutoff batch) → selected cutoff batch

theorem Purge.TakesRetired.step {w : World env} {e : PurgeEvent} {s : Stores} {p : Purge}
    (hsound : w.Sound) (h : w.purge.TakesRetired selected)
    (hselects : (Event.purge e).Selects selected) (hmove : Purge.Move w.stores w.purge e s p) :
    p.TakesRetired selected := by
  have hpurge := hsound.tables.purge
  change w.purge.Sound w.db w.stores.locks at hpurge
  generalize w.purge = q at h hpurge hmove
  cases hmove with
  | @select cutoff batch hbatch =>
      refine ⟨fun x hx => absurd hx List.not_mem_nil, fun m hm => ?_⟩
      exact ⟨cutoff, batch, hselects cutoff batch rfl, hm, (hbatch.2.1 m hm).2⟩
  | @load expired mem msg rest =>
      refine ⟨fun x hx => ?_, fun m hm => h.2 m (List.mem_cons_of_mem _ hm)⟩
      rcases List.mem_append.mp hx with hx | hx
      · exact h.1 x hx
      · rw [List.mem_singleton.mp hx]
        exact h.2 msg List.mem_cons_self
  | @begin expired mem =>
      rintro msg ids hst
      obtain ⟨x, hx, h' | h' | h'⟩ := (Loaded.mem_message hpurge rfl).mp hst
      · cases h'
      · cases h'
      · cases h'
        exact h.1 x hx
  | @execute done todo st =>
      intro msg ids hst
      exact h msg ids (by simpa using hst)
  | commit | crash => trivial

/-- A row that a purge takes off was found expired. -/
theorem World.removed_retired {w : World env} (hsound : w.Sound)
    (h : w.purge.TakesRetired selected) {done : List Statement} (hp : w.purge = .running done [])
    {m : Message} (hm : m ∈ w.db.messages)
    (hgone : m ∉ (done.foldl Statement.onDb w.db).messages) :
    ∃ m' : Message, m'.Retired selected ∧ m'.archiveHash = m.archiveHash := by
  obtain ⟨expired, mem, hloaded, hplan⟩ := hsound.running hp
  rw [hp] at h
  simp only [Purge.TakesRetired, hplan] at h
  rw [List.append_nil] at hplan
  rw [hplan, Statement.foldl_onDb_messages, List.mem_filter, not_and, Bool.not_eq_true',
    ← Bool.not_eq_true, not_not, List.any_eq_true] at hgone
  have hin := (hloaded.removesMessage_iff hsound.tables.rows.ids hm).mp (hgone hm)
  obtain ⟨x, hx, hid⟩ := mem_batchIds.mp hin
  have hsame := hloaded.row_eq hsound.tables.rows.ids hm hx hid
  refine ⟨x.1, h x.1 x.2 ?_, hsame.archiveHash.symm⟩
  exact (hloaded.mem_message rfl).mpr ⟨x, hx, .inr (.inr rfl)⟩

/-- What is accounted for stays so. -/
theorem World.Accounts.step {w w' : World env} {e : Event} {hash : String}
    (h : w.Accounts selected hash) (hsound : w.Sound) (htakes : w.purge.TakesRetired selected)
    (hs : w.step e = some w') : w'.Accounts selected hash := by
  rcases h with ⟨m, hm, rfl⟩ | hretired
  · by_cases he : e.isPurge = false
    · obtain ⟨m', hm', hsame⟩ := (grows_of_step hs he).messages m hm
      exact .inl ⟨m', hm', hsame.archiveHash⟩
    · cases Move.of_step hs with
      | refused => exact .inl ⟨m, hm, rfl⟩
      | start | advance | fail => exact absurd rfl he
      | hold _ hnone => exact absurd hnone.2 he
      | @purge e s p hmove =>
          generalize hq : w.purge = q at hmove
          cases hmove with
          | select | load | begin | execute | crash => exact .inl ⟨m, hm, rfl⟩
          | @commit done =>
              by_cases hstays : m ∈ (done.foldl Statement.onDb w.db).messages
              · exact .inl ⟨m, hstays, rfl⟩
              · exact .inr (removed_retired hsound htakes hq hm hstays)
  · exact .inr hretired

variable (selected) in
/-- Every call that has met a row of its mail is accounted for. -/
structure World.Recorded (w : World env) : Prop where
  sound : w.Sound
  takes : w.purge.TakesRetired selected
  found : ∀ c call, w.calls c = some call → call.pc.found = true →
    w.Accounts selected call.job.archiveHash

theorem World.Recorded.init (env : Env) : (World.init env).Recorded selected where
  sound := .init env
  takes := trivial
  found := by
    intro c call hcall
    cases hcall

/-- A dedup row stands for a row of `messages`. -/
theorem World.Sound.accounts {w : World env} (h : w.Sound) {hash : String} {dup : MessageDedup}
    (hdup : w.db.findDedup hash = some dup) : w.Accounts selected hash := by
  obtain ⟨hmem, rfl⟩ := mem_dedup_of_find hdup
  rw [h.mirror] at hmem
  obtain ⟨m, hm, rfl⟩ := List.mem_map.mp hmem
  exact .inl ⟨m, hm, rfl⟩

theorem World.Recorded.step {w w' : World env} {e : Event} (h : w.Recorded selected)
    (hselects : e.Selects selected) (hs : w.step e = some w') : w'.Recorded selected := by
  have hkeep : ∀ hash, w.Accounts selected hash → w'.Accounts selected hash :=
    fun hash hacc => hacc.step h.sound h.takes hs
  refine ⟨h.sound.step hs, ?_, ?_⟩
  · cases Move.of_step hs with
    | refused | start | advance | fail | hold => exact h.takes
    | purge hmove => exact h.takes.step h.sound hselects hmove
  · intro c call hcall hfound
    cases Move.of_step hs with
    | refused => exact h.found c call hcall hfound
    | purge | hold => exact hkeep _ (h.found c call hcall hfound)
    | start =>
        rcases setCall_calls_cases hcall with ⟨-, rfl⟩ | ⟨-, hold⟩
        · cases hfound
        · exact hkeep _ (h.found c call hold hfound)
    | fail =>
        rcases setCall_calls_cases hcall with ⟨-, rfl⟩ | ⟨-, hold⟩
        · cases hfound
        · exact hkeep _ (h.found c call hold hfound)
    | @advance c₀ draw published call₀ call' s hcall₀ hmove =>
        rcases setCall_calls_cases hcall with ⟨rfl, rfl⟩ | ⟨-, hold⟩
        · -- where it was before, unless it comes to the row just now
          have hbefore : call₀.pc.found = true →
              (w.setCall c s call).Accounts selected call₀.job.archiveHash :=
            fun hf => hkeep _ (h.found c call₀ hcall₀ hf)
          cases hmove with
          | duplicate hpc hdup | conflicted hpc hdup => exact hkeep _ (h.sound.accounts hdup)
          | gone hpc | reindexed hpc | indexed hpc | published hpc => exact hbefore (by rw [hpc]; rfl)
          | committed hpc =>
              exact .inl ⟨_, List.mem_append_right _ (List.mem_singleton_self _), rfl⟩
          | unknown | bodyPut | attachmentPut | upserted | flushed | reserved | raised =>
              cases hfound
        · exact hkeep _ (h.found _ call hold hfound)

end Selected

/-- A call that returned makes no step. -/
theorem Move.pc_ne_returned {s s' : Stores} {c : Nat} {call call' : Call env}
    (h : Move s c call s' call') : call.pc ≠ .returned := by
  cases h with
  | duplicate hpc =>
      rcases hpc with hpc | hpc
      · simp [hpc]
      · simp [hpc]
  | unknown hpc | gone hpc | reindexed hpc | bodyPut hpc | attachmentPut hpc | upserted hpc
  | flushed hpc | conflicted hpc | reserved hpc | committed hpc | indexed hpc | published hpc =>
      simp [hpc]
  | raised hpc => exact hpc

/-- A call keeps its job; one that returned stays as it is. -/
theorem World.call_kept {w w' : World env} {e : Event} (hs : w.step e = some w') {c : Nat}
    {call : Call env} (hcall : w.calls c = some call) :
    ∃ call', w'.calls c = some call' ∧ call'.job = call.job
      ∧ (call.pc = .returned → call' = call) := by
  cases Move.of_step hs with
  | refused | purge | hold => exact ⟨call, hcall, rfl, fun _ => rfl⟩
  | @start c₀ raw now signedAt job hfree hjob =>
      have hne : c ≠ c₀ := by
        rintro rfl
        rw [hfree] at hcall
        cases hcall
      exact ⟨call, (setCall_calls_ne w _ _ hne).trans hcall, rfl, fun _ => rfl⟩
  | @advance c₀ draw published call₀ call' s hcall₀ hmove =>
      by_cases hc : c = c₀
      · subst hc
        obtain rfl : call = call₀ := Option.some.inj (hcall.symm.trans hcall₀)
        exact ⟨call', setCall_calls_self .., hmove.job, fun hret => absurd hret hmove.pc_ne_returned⟩
      · exact ⟨call, (setCall_calls_ne w _ _ hc).trans hcall, rfl, fun _ => rfl⟩
  | @fail c₀ call₀ hcall₀ hpc =>
      by_cases hc : c = c₀
      · subst hc
        obtain rfl : call = call₀ := Option.some.inj (hcall.symm.trans hcall₀)
        exact ⟨_, setCall_calls_self .., rfl, fun hret => absurd hret hpc⟩
      · exact ⟨call, (setCall_calls_ne w _ _ hc).trans hcall, rfl, fun _ => rfl⟩

/-- A call was there, or has just been started. -/
theorem World.call_before {w w' : World env} {e : Event} (hs : w.step e = some w') {c : Nat}
    {call : Call env} (hcall : w'.calls c = some call) :
    (∃ call₀, w.calls c = some call₀ ∧ call₀.job = call.job)
      ∨ ∃ raw now signedAt, e = .start c raw now signedAt ∧ call.job.mail.raw = raw := by
  cases Move.of_step hs with
  | refused | purge | hold => exact .inl ⟨call, hcall, rfl⟩
  | start hfree hjob =>
      rcases setCall_calls_cases hcall with ⟨rfl, rfl⟩ | ⟨-, hold⟩
      · exact .inr ⟨_, _, _, rfl, (prepare_ok hjob).2.2⟩
      · exact .inl ⟨call, hold, rfl⟩
  | advance hcall₀ hmove =>
      rcases setCall_calls_cases hcall with ⟨rfl, rfl⟩ | ⟨-, hold⟩
      · exact .inl ⟨_, hcall₀, hmove.job.symm⟩
      · exact .inl ⟨call, hold, rfl⟩
  | fail hcall₀ hpc =>
      rcases setCall_calls_cases hcall with ⟨rfl, rfl⟩ | ⟨-, hold⟩
      · exact .inl ⟨_, hcall₀, rfl⟩
      · exact .inl ⟨call, hold, rfl⟩

/-! ## The consumers' deliveries -/

namespace MailFlow

/-- The delivery a consumer is with. -/
def firstOf (ds : List Delivery) (consumer : Nat) : Option Delivery :=
  ds.find? fun d => decide (d.consumer = consumer)

theorem firstOf_of_isFirst {ds : List Delivery} {i consumer : Nat} {q : Queued} {p : Progress}
    (hi : ds[i]? = some ⟨consumer, q, p⟩) (h : isFirst ds i consumer = true) :
    firstOf ds consumer = some ⟨consumer, q, p⟩ := by
  refine Slots.find?_of_take hi (decide_eq_true rfl) ?_
  rw [← h, isFirst]
  exact congrArg (List.all _) (funext fun d => (decide_not ..).symm)

/-- The events a handler call decides, or its consumer's death. -/
def Event.ofHandler : Event → Bool
  | .handlerEnds .. | .consumerDies _ => true
  | _ => false

/-- Any other event leaves a consumer with the delivery it is handling. -/
theorem firstOf_step {maxBytes : Nat} {s s' : State} {e : Event} (hs : step maxBytes s e = some s')
    (he : e.ofHandler = false) {consumer : Nat} {d : Delivery}
    (hfirst : firstOf s.deliveries consumer = some d) (hd : d.progress = .delivered) :
    firstOf s'.deliveries consumer = some d := by
  have hother : ∀ {i : Nat} {k : Nat} {q : Queued} {a : Settlement},
      s.deliveries[i]? = some ⟨k, q, .settling a⟩ → (⟨k, q, .settling a⟩ : Delivery) ≠ d := by
    rintro i k q a - rfl
    cases hd
  cases e with
  | data payload =>
      simp only [step] at hs
      split at hs <;> cases hs
      · exact hfirst
      · exact hfirst
  | store i | confirm i | publishFails i | sessionDies i | get request | replayStore i
  | replayConfirm i | replayAck i =>
      simp only [step] at hs
      split at hs <;> cases hs
      exact hfirst
  | replayEnds request =>
      simp only [step, List.partition_eq_filter_filter] at hs
      cases hs
      exact hfirst
  | deliver k =>
      simp only [step] at hs
      split at hs
      · cases hs
      · split at hs <;> cases hs
        show List.find? _ (_ ++ _) = _
        rw [List.find?_append]
        exact congrArg (Option.or · _) hfirst
  | ackFails i =>
      simp only [step] at hs
      split at hs <;> cases hs
      rename_i hi
      exact Slots.find?_set hfirst hi (hother hi) fun hk => hk
  | settled i =>
      simp only [step] at hs
      split at hs <;> cases hs
      · rename_i hi
        exact Slots.find?_eraseIdx hfirst hi (hother hi)
      · rename_i hi
        exact Slots.find?_eraseIdx hfirst hi (hother hi)
      · rename_i hi
        exact Slots.find?_eraseIdx hfirst hi (hother hi)
  | handlerEnds | consumerDies => cases he

/-- The end of a handler call moves no other consumer on. -/
theorem firstOf_handlerEnds {maxBytes : Nat} {s s' : State} {i : Nat} {how : HandlerEnd}
    (hs : step maxBytes s (.handlerEnds i how) = some s') {k consumer : Nat} {q : Queued}
    {p : Progress} (hi : s.deliveries[i]? = some ⟨k, q, p⟩) (hne : consumer ≠ k) {d : Delivery}
    (hfirst : firstOf s.deliveries consumer = some d) :
    firstOf s'.deliveries consumer = some d := by
  simp only [step, hi] at hs
  split at hs
  · rename_i heq
    cases heq
    split at hs <;> cases hs
    have hconsumer : d.consumer = consumer := by simpa using List.find?_some hfirst
    refine Slots.find?_set hfirst hi ?_ fun hk => hk
    rintro rfl
    exact hne hconsumer.symm
  · cases hs

/-- Nor does the death of one. -/
theorem firstOf_consumerDies {maxBytes : Nat} {s s' : State} {k : Nat}
    (hs : step maxBytes s (.consumerDies k) = some s') {consumer : Nat} (hne : consumer ≠ k)
    {d : Delivery} (hfirst : firstOf s.deliveries consumer = some d) :
    firstOf s'.deliveries consumer = some d := by
  simp only [step, List.partition_eq_filter_filter] at hs
  cases hs
  show List.find? _ (List.filter _ _) = _
  rw [List.find?_filter, ← hfirst, firstOf]
  refine congrArg (List.find? · _) (funext fun d' => ?_)
  by_cases hd' : d'.consumer = consumer
  · simp [hd', hne]
  · simp [hd']

/-- A mail is handled by the handler call that returns on it. -/
theorem handled_of_step {maxBytes : Nat} {s s' : State} {e : Event}
    (hs : step maxBytes s e = some s') {m : Mail} (hm : m ∈ s'.handled) :
    m ∈ s.handled ∨ ∃ i consumer q, e = .handlerEnds i .returns ∧ q.mail = m
      ∧ s.deliveries[i]? = some ⟨consumer, q, .delivered⟩
      ∧ isFirst s.deliveries i consumer = true := by
  cases e with
  | handlerEnds i how =>
      simp only [step] at hs
      split at hs
      · rename_i consumer q hi
        split at hs <;> cases hs
        rename_i hfirst
        by_cases hret : how = .returns
        · subst hret
          rcases List.mem_cons.mp hm with rfl | hm
          · exact .inr ⟨i, consumer, q, rfl, rfl, hi, hfirst⟩
          · exact .inl hm
        · exact .inl (by simpa [hret] using hm)
      · cases hs
  | deliver k =>
      simp only [step] at hs
      split at hs
      · cases hs
      · split at hs <;> cases hs
        exact .inl hm
  | settled i =>
      simp only [step] at hs
      split at hs <;> cases hs
      · exact .inl hm
      · exact .inl hm
      · exact .inl hm
  | data payload =>
      simp only [step] at hs
      split at hs <;> cases hs
      · exact .inl hm
      · exact .inl hm
  | store i | confirm i | publishFails i | sessionDies i | ackFails i | get request
  | replayStore i | replayConfirm i | replayAck i =>
      simp only [step] at hs
      split at hs <;> cases hs
      exact .inl hm
  | consumerDies k | replayEnds request =>
      simp only [step, List.partition_eq_filter_filter] at hs
      cases hs
      exact .inl hm

/-- The mails of the protocol: with a session, in a queue, at a consumer
or with a replay. -/
inductive InFlow (s : State) (m : Mail) : Prop where
  | publishing {p : Publishing} (h : p ∈ s.publishing) (hm : p.mail = m)
  | raw {q : Queued} (h : q ∈ s.raw) (hm : q.mail = m)
  | delivered {d : Delivery} (h : d ∈ s.deliveries) (hm : d.msg.mail = m)
  | dead {q : Queued} (h : q ∈ s.dead) (hm : q.mail = m)
  | held {x : Held} (h : x ∈ s.held) (hm : x.msg.mail = m)

theorem InFlow.mono {s s' : State} {m : Mail} (h : InFlow s m)
    (hpublishing : ∀ p ∈ s.publishing, InFlow s' p.mail) (hraw : ∀ q ∈ s.raw, InFlow s' q.mail)
    (hdel : ∀ d ∈ s.deliveries, InFlow s' d.msg.mail)
    (hdead : ∀ q ∈ s.dead, InFlow s' q.mail) (hheld : ∀ x ∈ s.held, InFlow s' x.msg.mail) :
    InFlow s' m := by
  cases h with
  | publishing h hm => exact hm ▸ hpublishing _ h
  | raw h hm => exact hm ▸ hraw _ h
  | delivered h hm => exact hm ▸ hdel _ h
  | dead h hm => exact hm ▸ hdead _ h
  | held h hm => exact hm ▸ hheld _ h

/-- A step brings in the mail of a new session, and no other. -/
theorem inFlow_of_step {maxBytes : Nat} {s s' : State} {e : Event}
    (hs : step maxBytes s e = some s') {m : Mail} (hm : InFlow s' m) :
    InFlow s m ∨ ∃ payload, e = .data payload ∧ m = ⟨s.nextTag, payload⟩ := by
  cases e with
  | data payload =>
      simp only [step] at hs
      split at hs <;> cases hs
      · refine .inl (hm.mono ?_ ?_ ?_ ?_ ?_)
        · exact fun p hp => .publishing hp rfl
        · exact fun q hq => .raw hq rfl
        · exact fun d hd => .delivered hd rfl
        · exact fun q hq => .dead hq rfl
        · exact fun x hx => .held hx rfl
      · cases hm with
        | publishing h hm =>
            rcases List.mem_append.mp h with h | h
            · exact .inl (.publishing h hm)
            · rw [List.mem_singleton.mp h] at hm
              exact .inr ⟨payload, rfl, hm.symm⟩
        | raw h hm => exact .inl (.raw h hm)
        | delivered h hm => exact .inl (.delivered h hm)
        | dead h hm => exact .inl (.dead h hm)
        | held h hm => exact .inl (.held h hm)
  | store i =>
      simp only [step] at hs
      split at hs <;> cases hs
      rename_i mail hi
      have hold : InFlow s mail := .publishing (List.mem_of_getElem? hi) rfl
      refine .inl (hm.mono ?_ ?_ (fun d hd => .delivered hd rfl) (fun q hq => .dead hq rfl)
        fun x hx => .held hx rfl)
      · intro p hp
        rcases List.mem_or_eq_of_mem_set hp with hp | rfl
        · exact .publishing hp rfl
        · exact hold
      · intro q hq
        rcases List.mem_append.mp hq with hq | hq
        · exact .raw hq rfl
        · rw [List.mem_singleton.mp hq]
          exact hold
  | confirm i | publishFails i | sessionDies i =>
      simp only [step] at hs
      split at hs <;> cases hs
      exact .inl (hm.mono (fun p hp => .publishing (List.mem_of_mem_eraseIdx hp) rfl)
        (fun q hq => .raw hq rfl) (fun d hd => .delivered hd rfl) (fun q hq => .dead hq rfl)
        fun x hx => .held hx rfl)
  | deliver k =>
      simp only [step] at hs
      split at hs
      · cases hs
      · rename_i q raw hraw
        split at hs <;> cases hs
        refine .inl (hm.mono (fun p hp => .publishing hp rfl) (fun q' hq => ?_) ?_
          (fun q hq => .dead hq rfl) fun x hx => .held hx rfl)
        · exact .raw (hraw ▸ List.mem_cons_of_mem _ hq) rfl
        · intro d hd
          rcases List.mem_append.mp hd with hd | hd
          · exact .delivered hd rfl
          · rw [List.mem_singleton.mp hd]
            exact .raw (hraw ▸ List.mem_cons_self) rfl
  | handlerEnds i how =>
      simp only [step] at hs
      split at hs
      · rename_i k q hi
        split at hs <;> cases hs
        refine .inl (hm.mono (fun p hp => .publishing hp rfl) (fun q hq => .raw hq rfl) ?_
          (fun q hq => .dead hq rfl) fun x hx => .held hx rfl)
        intro d hd
        rcases List.mem_or_eq_of_mem_set hd with hd | rfl
        · exact .delivered hd rfl
        · exact .delivered (List.mem_of_getElem? hi) rfl
      · cases hs
  | ackFails i =>
      simp only [step] at hs
      split at hs <;> cases hs
      rename_i k q hi
      refine .inl (hm.mono (fun p hp => .publishing hp rfl) (fun q hq => .raw hq rfl) ?_
        (fun q hq => .dead hq rfl) fun x hx => .held hx rfl)
      intro d hd
      rcases List.mem_or_eq_of_mem_set hd with hd | rfl
      · exact .delivered hd rfl
      · exact .delivered (List.mem_of_getElem? hi) rfl
  | settled i =>
      have hleft : ∀ d ∈ s.deliveries.eraseIdx i, InFlow s d.msg.mail :=
        fun d hd => .delivered (List.mem_of_mem_eraseIdx hd) rfl
      simp only [step] at hs
      split at hs <;> cases hs
      · exact .inl (hm.mono (fun p hp => .publishing hp rfl) (fun q hq => .raw hq rfl) hleft
          (fun q hq => .dead hq rfl) fun x hx => .held hx rfl)
      · rename_i k q hi
        refine .inl (hm.mono (fun p hp => .publishing hp rfl) ?_ hleft
          (fun q hq => .dead hq rfl) fun x hx => .held hx rfl)
        intro q' hq
        rcases List.mem_cons.mp hq with rfl | hq
        · exact .delivered (List.mem_of_getElem? hi) rfl
        · exact .raw hq rfl
      · rename_i k q hi
        refine .inl (hm.mono (fun p hp => .publishing hp rfl) (fun q hq => .raw hq rfl) hleft ?_
          fun x hx => .held hx rfl)
        intro q' hq
        rcases List.mem_append.mp hq with hq | hq
        · exact .dead hq rfl
        · rw [List.mem_singleton.mp hq]
          exact .delivered (List.mem_of_getElem? hi) rfl
  | consumerDies k =>
      simp only [step, List.partition_eq_filter_filter] at hs
      cases hs
      refine .inl (hm.mono (fun p hp => .publishing hp rfl) ?_
        (fun d hd => .delivered (List.mem_of_mem_filter hd) rfl) (fun q hq => .dead hq rfl)
        fun x hx => .held hx rfl)
      intro q hq
      rcases List.mem_append.mp hq with hq | hq
      · obtain ⟨d, hd, rfl⟩ := List.mem_map.mp hq
        exact .delivered (List.mem_of_mem_filter hd) rfl
      · exact .raw hq rfl
  | get request =>
      simp only [step] at hs
      split at hs <;> cases hs
      rename_i q dead hdead
      refine .inl (hm.mono (fun p hp => .publishing hp rfl) (fun q hq => .raw hq rfl)
        (fun d hd => .delivered hd rfl) (fun q' hq => ?_) ?_)
      · exact .dead (hdead ▸ List.mem_cons_of_mem _ hq) rfl
      · intro x hx
        rcases List.mem_append.mp hx with hx | hx
        · exact .held hx rfl
        · rw [List.mem_singleton.mp hx]
          exact .dead (hdead ▸ List.mem_cons_self) rfl
  | replayStore i =>
      simp only [step] at hs
      split at hs <;> cases hs
      rename_i request q confirmed hi
      have hold : InFlow s q.mail := .held (List.mem_of_getElem? hi) rfl
      refine .inl (hm.mono (fun p hp => .publishing hp rfl) ?_ (fun d hd => .delivered hd rfl)
        (fun q hq => .dead hq rfl) ?_)
      · intro q' hq
        rcases List.mem_append.mp hq with hq | hq
        · exact .raw hq rfl
        · rw [List.mem_singleton.mp hq]
          exact hold
      · intro x hx
        rcases List.mem_or_eq_of_mem_set hx with hx | rfl
        · exact .held hx rfl
        · exact hold
  | replayConfirm i =>
      simp only [step] at hs
      split at hs <;> cases hs
      rename_i request q hi
      refine .inl (hm.mono (fun p hp => .publishing hp rfl) (fun q hq => .raw hq rfl)
        (fun d hd => .delivered hd rfl) (fun q hq => .dead hq rfl) ?_)
      intro x hx
      rcases List.mem_or_eq_of_mem_set hx with hx | rfl
      · exact .held hx rfl
      · exact .held (List.mem_of_getElem? hi) rfl
  | replayAck i =>
      simp only [step] at hs
      split at hs <;> cases hs
      exact .inl (hm.mono (fun p hp => .publishing hp rfl) (fun q hq => .raw hq rfl)
        (fun d hd => .delivered hd rfl) (fun q hq => .dead hq rfl)
        fun x hx => .held (List.mem_of_mem_eraseIdx hx) rfl)
  | replayEnds request =>
      simp only [step, List.partition_eq_filter_filter] at hs
      cases hs
      refine .inl (hm.mono (fun p hp => .publishing hp rfl) (fun q hq => .raw hq rfl)
        (fun d hd => .delivered hd rfl) ?_ fun x hx => .held (List.mem_of_mem_filter hx) rfl)
      intro q hq
      rcases List.mem_append.mp hq with hq | hq
      · obtain ⟨x, hx, rfl⟩ := List.mem_map.mp hq
        exact .held (List.mem_of_mem_filter hx) rfl
      · exact .dead hq rfl

end MailFlow

/-! ## Queue and archive together -/

structure Deployment (env : Env) where
  flow : MailFlow.State
  world : World env
  /-- The `process` call a consumer's handler is in. -/
  serving : Nat → Option Nat
  /-- The mails the broker has taken beside the gateway's. -/
  published : List Mail

inductive DeploymentEvent where
  /-- An event of the queue protocol that no handler decides. -/
  | flow (e : MailFlow.Event)
  /-- The broker stores what the collector or an import publishes. -/
  | publish (payload : Bytes)
  /-- The consumer of a delivery calls `process`. -/
  | begin (i c : Nat) (now signedAt : DateTime)
  /-- An event of the archive that is not the start of a call. -/
  | archive (e : Event)
  | handlerEnds (i : Nat) (how : HandlerEnd)
  | consumerDies (consumer : Nat)

namespace Deployment

def init (env : Env) : Deployment env where
  flow := MailFlow.init
  world := .init env
  serving := fun _ => none
  published := []

def setFlow (s : Deployment env) (flow : MailFlow.State) : Deployment env := { s with flow := flow }

/-- The broker stores a publication that no session makes. -/
def takeIn (s : Deployment env) (payload : Bytes) : Deployment env :=
  let mail : Mail := ⟨s.flow.nextTag, payload⟩
  { s with
    flow := { s.flow with nextTag := s.flow.nextTag + 1, raw := s.flow.raw ++ [⟨mail, false⟩] }
    published := mail :: s.published }

def setServing (s : Deployment env) (consumer : Nat) (call : Option Nat) : Deployment env :=
  { s with serving := Function.update s.serving consumer call }

/-- What is left of the archive when a consumer dies: its call fails. -/
def worldWithout (s : Deployment env) (consumer : Nat) : World env :=
  match s.serving consumer with
  | none => s.world
  | some c => (s.world.step (.fail c)).getD s.world

def step (maxBytes : Nat) (s : Deployment env) : DeploymentEvent → Option (Deployment env)
  | .flow e =>
      if e.ofHandler then none else (MailFlow.step maxBytes s.flow e).map s.setFlow
  | .publish payload => some (s.takeIn payload)
  | .begin i c now signedAt =>
      match s.flow.deliveries[i]? with
      | some ⟨consumer, q, .delivered⟩ =>
          if MailFlow.isFirst s.flow.deliveries i consumer ∧ s.serving consumer = none then
            match prepare env now signedAt q.mail.payload with
            | .error _ => (MailFlow.step maxBytes s.flow (.handlerEnds i .raises)).map s.setFlow
            | .ok job =>
                match s.world.calls c with
                | some _ => none
                | none =>
                    let world := s.world.setCall c s.world.stores ⟨job, .check, none⟩
                    some ({ s with world := world }.setServing consumer (some c))
          else none
      | _ => none
  | .archive e =>
      match e with
      | .start .. => none
      | e => (s.world.step e).map fun world => { s with world := world }
  | .handlerEnds i how =>
      match s.flow.deliveries[i]? with
      | some ⟨consumer, _, _⟩ =>
          if ((s.serving consumer).bind s.world.calls).any (·.pc.endsAs how) then
            (MailFlow.step maxBytes s.flow (.handlerEnds i how)).map fun flow =>
              (s.setFlow flow).setServing consumer none
          else none
      | none => none
  | .consumerDies consumer =>
      (MailFlow.step maxBytes s.flow (.consumerDies consumer)).map fun flow =>
        { s with flow := flow, world := s.worldWithout consumer }.setServing consumer none

/-- The steps of a deployment, by who makes them. -/
inductive Move (maxBytes : Nat) (s : Deployment env) : DeploymentEvent → Deployment env → Prop where
  | flow {e : MailFlow.Event} {flow : MailFlow.State} (he : e.ofHandler = false)
      (hs : MailFlow.step maxBytes s.flow e = some flow) : Move maxBytes s (.flow e) (s.setFlow flow)
  | publish (payload : Bytes) : Move maxBytes s (.publish payload) (s.takeIn payload)
  /-- A mail that does not parse. -/
  | refused {i c consumer : Nat} {now signedAt : DateTime} {q : Queued} {flow : MailFlow.State}
      (hi : s.flow.deliveries[i]? = some ⟨consumer, q, .delivered⟩)
      (hfree : s.serving consumer = none)
      (hs : MailFlow.step maxBytes s.flow (.handlerEnds i .raises) = some flow) :
      Move maxBytes s (.begin i c now signedAt) (s.setFlow flow)
  | begin {i c consumer : Nat} {now signedAt : DateTime} {q : Queued} {job : Job env}
      (hi : s.flow.deliveries[i]? = some ⟨consumer, q, .delivered⟩)
      (hfirst : MailFlow.isFirst s.flow.deliveries i consumer = true)
      (hjob : prepare env now signedAt q.mail.payload = .ok job) (hfree : s.world.calls c = none) :
      Move maxBytes s (.begin i c now signedAt)
        ({ s with world := s.world.setCall c s.world.stores ⟨job, .check, none⟩ }.setServing
          consumer (some c))
  | archive {e : Event} {world : World env}
      (he : ∀ c raw now signedAt, e ≠ .start c raw now signedAt)
      (hs : s.world.step e = some world) :
      Move maxBytes s (.archive e) { s with world := world }
  | handlerEnds {i consumer c : Nat} {how : HandlerEnd} {q : Queued} {p : MailFlow.Progress}
      {call : Call env} {flow : MailFlow.State}
      (hi : s.flow.deliveries[i]? = some ⟨consumer, q, p⟩) (hserving : s.serving consumer = some c)
      (hcall : s.world.calls c = some call) (hends : call.pc.endsAs how = true)
      (hs : MailFlow.step maxBytes s.flow (.handlerEnds i how) = some flow) :
      Move maxBytes s (.handlerEnds i how) ((s.setFlow flow).setServing consumer none)
  | consumerDies {consumer : Nat} {flow : MailFlow.State}
      (hs : MailFlow.step maxBytes s.flow (.consumerDies consumer) = some flow) :
      Move maxBytes s (.consumerDies consumer)
        ({ s with flow := flow, world := s.worldWithout consumer }.setServing consumer none)

theorem Move.of_step {maxBytes : Nat} {s s' : Deployment env} {e : DeploymentEvent}
    (h : s.step maxBytes e = some s') : Move maxBytes s e s' := by
  cases e with
  | flow e =>
      simp only [step] at h
      split at h
      · cases h
      · rename_i he
        obtain ⟨flow, hs, rfl⟩ := Option.map_eq_some_iff.mp h
        exact .flow (by simpa using he) hs
  | publish payload =>
      cases h
      exact .publish payload
  | begin i c now signedAt =>
      simp only [step] at h
      split at h
      · rename_i consumer q hi
        split at h
        · rename_i hcond
          split at h
          · obtain ⟨flow, hs, rfl⟩ := Option.map_eq_some_iff.mp h
            exact .refused hi hcond.2 hs
          · rename_i job hjob
            split at h <;> cases h
            exact .begin hi hcond.1 hjob ‹_›
        · cases h
      · cases h
  | archive e =>
      cases e with
      | start => cases h
      | advance | fail | purge | readHold | commitHold =>
          obtain ⟨world, hs, rfl⟩ := Option.map_eq_some_iff.mp h
          exact .archive (fun _ _ _ _ heq => by cases heq) hs
  | handlerEnds i how =>
      simp only [step] at h
      split at h
      · rename_i consumer q p hi
        split at h
        · rename_i hany
          obtain ⟨call, hbind, hends⟩ := (Option.any_eq_true _ _).mp hany
          obtain ⟨c, hserving, hcall⟩ := Option.bind_eq_some_iff.mp hbind
          obtain ⟨flow, hs, rfl⟩ := Option.map_eq_some_iff.mp h
          exact .handlerEnds hi hserving hcall hends hs
        · cases h
      · cases h
  | consumerDies consumer =>
      simp only [step] at h
      obtain ⟨flow, hs, rfl⟩ := Option.map_eq_some_iff.mp h
      exact .consumerDies hs

section Steps

variable {maxBytes : Nat} {s s' : Deployment env} {e : DeploymentEvent}

/-- The archive makes a step of its own, or none; it purges when it is
told to, and is given mails of the queue. -/
theorem Move.world (h : Move maxBytes s e s') : s'.world = s.world ∨ ∃ we,
    s.world.step we = some s'.world ∧ (∀ pe, we = .purge pe → e = .archive (.purge pe))
      ∧ ∀ c raw now signedAt, we = .start c raw now signedAt →
        ∃ m, MailFlow.InFlow s.flow m ∧ m.payload = raw := by
  cases h with
  | flow | publish | refused | handlerEnds => exact .inl rfl
  | begin hi hfirst hjob hfree =>
      refine .inr ⟨_, World.step_start hfree hjob, ?_, ?_⟩
      · rintro pe hpe
        cases hpe
      · rintro c raw now signedAt heq
        cases heq
        exact ⟨_, .delivered (List.mem_of_getElem? hi) rfl, rfl⟩
  | archive he hs =>
      exact .inr ⟨_, hs, fun pe hpe => hpe ▸ rfl, fun c raw now signedAt heq =>
        absurd heq (he c raw now signedAt)⟩
  | @consumerDies consumer flow hs =>
      show s.worldWithout consumer = s.world ∨ ∃ we, s.world.step we = some (s.worldWithout consumer)
        ∧ _ ∧ _
      rw [worldWithout]
      split
      · exact .inl rfl
      · rename_i c hserving
        cases hfail : s.world.step (.fail c) with
        | none => exact .inl rfl
        | some world =>
            refine .inr ⟨_, hfail, ?_, ?_⟩
            · rintro pe hpe
              cases hpe
            · rintro c raw now signedAt heq
              cases heq

/-- A call keeps its job, and its end. -/
theorem Move.call_kept (h : Move maxBytes s e s') {c : Nat} {call : Call env}
    (hcall : s.world.calls c = some call) : ∃ call', s'.world.calls c = some call'
      ∧ call'.job = call.job ∧ (call.pc = .returned → call' = call) := by
  rcases h.world with hsame | ⟨we, hs, -⟩
  · rw [hsame]
    exact ⟨call, hcall, rfl, fun _ => rfl⟩
  · exact World.call_kept hs hcall

/-- The queue protocol makes a step, or none, or takes in a publication. -/
theorem Move.flow_cases (h : Move maxBytes s e s') :
    (s'.published = s.published ∧ (s'.flow = s.flow
      ∨ ∃ fe, MailFlow.step maxBytes s.flow fe = some s'.flow
        ∧ ∀ payload, fe = .data payload → e = .flow (.data payload)))
    ∨ ∃ payload, e = .publish payload ∧ s' = s.takeIn payload := by
  cases h with
  | flow he hs => exact .inl ⟨rfl, .inr ⟨_, hs, fun payload hp => hp ▸ rfl⟩⟩
  | publish payload => exact .inr ⟨payload, rfl, rfl⟩
  | begin | archive => exact .inl ⟨rfl, .inl rfl⟩
  | refused hi hfree hs => exact .inl ⟨rfl, .inr ⟨_, hs, fun payload hp => by cases hp⟩⟩
  | handlerEnds hi hserving hcall hends hs =>
      exact .inl ⟨rfl, .inr ⟨_, hs, fun payload hp => by cases hp⟩⟩
  | consumerDies hs => exact .inl ⟨rfl, .inr ⟨_, hs, fun payload hp => by cases hp⟩⟩

end Steps

/-! ## The invariant -/

/-- The consumer is with a delivery, and the call is on its message. -/
def Serves (s : Deployment env) (consumer c : Nat) : Prop :=
  ∃ d call, MailFlow.firstOf s.flow.deliveries consumer = some d ∧ d.progress = .delivered
    ∧ s.world.calls c = some call ∧ call.job.mail.raw = d.msg.mail.payload

/-- A call on these bytes has returned. -/
def Processed (s : Deployment env) (payload : Bytes) : Prop :=
  ∃ c call, s.world.calls c = some call ∧ call.pc = .returned ∧ call.job.mail.raw = payload

/-- What a deployment maintains; `taken` are the payloads that were handed
to it. -/
structure Sound (selected : DateTime → List Message → Prop) (taken : Bytes → Prop)
    (s : Deployment env) : Prop where
  flow : MailFlow.Inv s.flow
  recorded : s.world.Recorded selected
  serves : ∀ consumer c, s.serving consumer = some c → s.Serves consumer c
  handled : ∀ m ∈ s.flow.handled, s.Processed m.payload
  inFlow : ∀ m, MailFlow.InFlow s.flow m → taken m.payload
  calls : ∀ c call, s.world.calls c = some call → taken call.job.mail.raw
  published : ∀ m ∈ s.published, MailFlow.Kept s.flow m

section Steps

variable {maxBytes : Nat} {s s' : Deployment env} {e : DeploymentEvent}
  {selected : DateTime → List Message → Prop} {taken : Bytes → Prop}

theorem Serves.step {consumer c : Nat} (h : s.Serves consumer c) (hmove : Move maxBytes s e s')
    (hfirst : ∀ d, MailFlow.firstOf s.flow.deliveries consumer = some d → d.progress = .delivered →
      MailFlow.firstOf s'.flow.deliveries consumer = some d) : s'.Serves consumer c := by
  obtain ⟨d, call, hd, hprogress, hcall, hraw⟩ := h
  obtain ⟨call', hcall', hjob, -⟩ := hmove.call_kept hcall
  exact ⟨d, call', hfirst d hd hprogress, hprogress, hcall', by rw [hjob, hraw]⟩

theorem Processed.step {payload : Bytes} (h : s.Processed payload)
    (hmove : Move maxBytes s e s') : s'.Processed payload := by
  obtain ⟨c, call, hcall, hret, hraw⟩ := h
  obtain ⟨call', hcall', hjob, hsame⟩ := hmove.call_kept hcall
  exact ⟨c, call', hcall', by rw [hsame hret, hret], by rw [hjob, hraw]⟩

theorem setServing_self (s : Deployment env) (consumer : Nat) (call : Option Nat) :
    (s.setServing consumer call).serving consumer = call := Function.update_self ..

theorem setServing_ne (s : Deployment env) {consumer k : Nat} (call : Option Nat)
    (hne : consumer ≠ k) : (s.setServing k call).serving consumer = s.serving consumer :=
  Function.update_of_ne hne ..

theorem Sound.serves_step (h : s.Sound selected taken) (hmove : Move maxBytes s e s') :
    ∀ consumer c, s'.serving consumer = some c → s'.Serves consumer c := by
  intro consumer c hserving
  have hgo := hmove
  cases hmove with
  | flow he hs =>
      exact (h.serves consumer c hserving).step hgo
        fun d hd hp => MailFlow.firstOf_step hs he hd hp
  | publish | archive => exact (h.serves consumer c hserving).step hgo fun d hd _ => hd
  | @refused i c₀ k now signedAt q flow hi hfree hs =>
      have hne : consumer ≠ k := by
        rintro rfl
        change s.serving consumer = some c at hserving
        rw [hfree] at hserving
        cases hserving
      exact (h.serves consumer c hserving).step hgo
        fun d hd _ => MailFlow.firstOf_handlerEnds hs hi hne hd
  | @begin i c₀ k now signedAt q job hi hfirst hjob hfree =>
      by_cases hk : consumer = k
      · subst hk
        rw [setServing_self] at hserving
        cases hserving
        exact ⟨_, _, MailFlow.firstOf_of_isFirst hi hfirst, rfl, World.setCall_calls_self ..,
          (prepare_ok hjob).2.2⟩
      · rw [setServing_ne _ _ hk] at hserving
        exact (h.serves consumer c hserving).step hgo fun d hd _ => hd
  | @handlerEnds i k c₀ how q p call flow hi hserv hcall hends hs =>
      by_cases hk : consumer = k
      · subst hk
        rw [setServing_self] at hserving
        cases hserving
      · rw [setServing_ne _ _ hk] at hserving
        exact (h.serves consumer c hserving).step hgo
          fun d hd _ => MailFlow.firstOf_handlerEnds hs hi hk hd
  | @consumerDies k flow hs =>
      by_cases hk : consumer = k
      · subst hk
        rw [setServing_self] at hserving
        cases hserving
      · rw [setServing_ne _ _ hk] at hserving
        exact (h.serves consumer c hserving).step hgo
          fun d hd _ => MailFlow.firstOf_consumerDies hs hk hd

/-- A handler that returns has a call on its message that returned. -/
theorem Sound.handled_step (h : s.Sound selected taken) (hmove : Move maxBytes s e s') :
    ∀ m ∈ s'.flow.handled, s'.Processed m.payload := by
  intro m hm
  have hold : m ∈ s.flow.handled → s'.Processed m.payload :=
    fun hm => (h.handled m hm).step hmove
  cases hmove with
  | flow he hs =>
      rcases MailFlow.handled_of_step hs hm with hm | ⟨i, k, q, rfl, -⟩
      · exact hold hm
      · cases he
  | publish | begin | archive => exact hold hm
  | refused hi hfree hs =>
      rcases MailFlow.handled_of_step hs hm with hm | ⟨i, k, q, heq, -⟩
      · exact hold hm
      · cases heq
  | @handlerEnds i k c how q p call flow hi hserving hcall hends hs =>
      rcases MailFlow.handled_of_step hs hm with hm | ⟨i', k', q', heq, rfl, hi', hfirst⟩
      · exact hold hm
      · cases heq
        cases hi.symm.trans hi'
        obtain ⟨d, call', hd, -, hcall', hraw⟩ := h.serves k c hserving
        cases (MailFlow.firstOf_of_isFirst hi hfirst).symm.trans hd
        cases hcall.symm.trans hcall'
        exact ⟨c, call, hcall, Pc.eq_returned hends, hraw⟩
  | consumerDies hs =>
      rcases MailFlow.handled_of_step hs hm with hm | ⟨i, k, q, heq, -⟩
      · exact hold hm
      · cases heq

/-- No step loses a mail that is somewhere. -/
theorem Sound.kept_step (h : s.Sound selected taken) (hmove : Move maxBytes s e s') {m : Mail}
    (hm : MailFlow.Kept s.flow m) : MailFlow.Kept s'.flow m := by
  rcases hmove.flow_cases with ⟨-, hsame | ⟨fe, hs, -⟩⟩ | ⟨payload, -, rfl⟩
  · rwa [hsame]
  · exact MailFlow.kept_step (MailFlow.moves_of_step hs) h.flow.acked hm
  · refine hm.of_subset ?_ ?_ ?_ ?_ ?_
    · exact List.subset_append_left _ _
    all_goals exact List.Subset.refl _

theorem Sound.inv_step (h : s.Sound selected taken) (hmove : Move maxBytes s e s') :
    MailFlow.Inv s'.flow := by
  rcases hmove.flow_cases with ⟨-, hsame | ⟨fe, hs, -⟩⟩ | ⟨payload, -, rfl⟩
  · rw [hsame]
    exact h.flow
  · exact MailFlow.inv_step h.flow hs
  · exact ⟨fun p hp hst => h.kept_step hmove (h.flow.publishing p hp hst), h.flow.acked,
      fun m hm => h.kept_step hmove (h.flow.accepted m hm)⟩

/-- A step brings in what it is handed. -/
theorem Sound.inFlow_step (h : s.Sound selected taken) (hmove : Move maxBytes s e s')
    (htaken : ∀ payload, e = .flow (.data payload) ∨ e = .publish payload → taken payload) :
    ∀ m, MailFlow.InFlow s'.flow m → taken m.payload := by
  intro m hm
  rcases hmove.flow_cases with ⟨-, hsame | ⟨fe, hs, hdata⟩⟩ | ⟨payload, he, rfl⟩
  · rw [hsame] at hm
    exact h.inFlow m hm
  · rcases MailFlow.inFlow_of_step hs hm with hm | ⟨payload, hfe, rfl⟩
    · exact h.inFlow m hm
    · exact htaken payload (.inl (hdata payload hfe))
  · cases hm with
    | publishing hp hm => exact h.inFlow m (.publishing hp hm)
    | delivered hd hm => exact h.inFlow m (.delivered hd hm)
    | dead hq hm => exact h.inFlow m (.dead hq hm)
    | held hx hm => exact h.inFlow m (.held hx hm)
    | raw hq hm =>
        rcases List.mem_append.mp hq with hq | hq
        · exact h.inFlow m (.raw hq hm)
        · rw [List.mem_singleton.mp hq] at hm
          obtain rfl := hm
          exact htaken payload (.inr he)

theorem Sound.calls_step (h : s.Sound selected taken) (hmove : Move maxBytes s e s') :
    ∀ c call, s'.world.calls c = some call → taken call.job.mail.raw := by
  intro c call hcall
  rcases hmove.world with hsame | ⟨we, hs, -, hstart⟩
  · rw [hsame] at hcall
    exact h.calls c call hcall
  · rcases World.call_before hs hcall with ⟨call₀, hcall₀, hjob⟩ | ⟨raw, now, signedAt, hwe, hraw⟩
    · rw [← hjob]
      exact h.calls c call₀ hcall₀
    · obtain ⟨m, hm, rfl⟩ := hstart c raw now signedAt hwe
      rw [hraw]
      exact h.inFlow m hm

theorem Sound.init (env : Env) : (Deployment.init env).Sound selected taken where
  flow := MailFlow.inv_init
  recorded := .init env
  serves := by
    intro consumer c hserving
    cases hserving
  handled := fun m hm => absurd hm List.not_mem_nil
  inFlow := by
    rintro m (hm | hm | hm | hm | hm)
    all_goals exact absurd hm List.not_mem_nil
  calls := by
    intro c call hcall
    cases hcall
  published := fun m hm => absurd hm List.not_mem_nil

theorem Sound.step (h : s.Sound selected taken)
    (hselects : ∀ cutoff batch, e = .archive (.purge (.select cutoff batch)) →
      selected cutoff batch)
    (htaken : ∀ payload, e = .flow (.data payload) ∨ e = .publish payload → taken payload)
    (hs : s.step maxBytes e = some s') : s'.Sound selected taken := by
  have hmove := Move.of_step hs
  refine ⟨h.inv_step hmove, ?_, h.serves_step hmove, h.handled_step hmove,
    h.inFlow_step hmove htaken, h.calls_step hmove, ?_⟩
  · rcases hmove.world with hsame | ⟨we, hws, hpurge, -⟩
    · rw [hsame]
      exact h.recorded
    · exact h.recorded.step
        (fun cutoff batch hwe => hselects cutoff batch (hpurge _ hwe)) hws
  · intro m hm
    rcases hmove.flow_cases with ⟨hpub, -⟩ | ⟨payload, -, rfl⟩
    · exact h.kept_step hmove (h.published m (hpub ▸ hm))
    · rcases List.mem_cons.mp hm with rfl | hm
      · exact .raw (List.mem_append_right _ (List.mem_singleton_self _)) rfl
      · exact h.kept_step hmove (h.published m hm)

end Steps

/-! ## From the gateway to the archive -/

/-- The mail is in the raw queue, at a consumer, with a replay, or in the
dead-letter queue. -/
def Waits (s : Deployment env) (m : Mail) : Prop :=
  (∃ q ∈ s.flow.raw, q.mail = m) ∨ (∃ d ∈ s.flow.deliveries, d.msg.mail = m)
    ∨ (∃ x ∈ s.flow.held, x.msg.mail = m) ∨ ∃ q ∈ s.flow.dead, q.mail = m

theorem waits_or_handled {s : Deployment env} {m : Mail} (h : MailFlow.Kept s.flow m) :
    s.Waits m ∨ m ∈ s.flow.handled := by
  cases h with
  | raw h hm => exact .inl (.inl ⟨_, h, hm⟩)
  | delivered h hm => exact .inl (.inr (.inl ⟨_, h, hm⟩))
  | held h hm hs => exact .inl (.inr (.inr (.inl ⟨_, h, hm⟩)))
  | dead h hm => exact .inl (.inr (.inr (.inr ⟨_, h, hm⟩)))
  | handled h => exact .inr h

/-- The selections of the retention runs among these events. -/
def SelectedIn (es : List DeploymentEvent) (cutoff : DateTime) (batch : List Message) : Prop :=
  .archive (.purge (.select cutoff batch)) ∈ es

/-- What a session or a publisher hands over among these events. -/
def HandedIn (es : List DeploymentEvent) (payload : Bytes) : Prop :=
  .flow (.data payload) ∈ es ∨ .publish payload ∈ es

theorem sound_of_run {maxBytes : Nat} {es : List DeploymentEvent} {s : Deployment env}
    (hrun : run (step maxBytes) (init env) es = some s) :
    s.Sound (SelectedIn es) (HandedIn es) := by
  refine run_invariant_of_meets (C := fun _ e => e ∈ es) ?_ hrun (meets_of_forall fun e he => he)
    (.init env)
  intro s e s' h he hs
  refine h.step ?_ ?_ hs
  · rintro cutoff batch rfl
    exact he
  · rintro payload (rfl | rfl)
    · exact .inl he
    · exact .inr he

/-- Where no purge runs the archive of a deployment only grows. -/
theorem unpurged_of_run {maxBytes : Nat} {es : List DeploymentEvent} {s : Deployment env}
    (hrun : run (step maxBytes) (init env) es = some s)
    (hes : ∀ e ∈ es, ∀ pe, e ≠ .archive (.purge pe)) : s.world.Unpurged := by
  refine run_invariant_of_meets (I := fun s : Deployment env => s.world.Unpurged)
    (fun s e s' h he hs => ?_) hrun (meets_of_forall hes) (.init env)
  rcases (Move.of_step hs).world with hsame | ⟨we, hws, hpurge, -⟩
  · rwa [hsame]
  · refine h.step ?_ hws
    cases we with
    | purge pe => exact absurd (hpurge pe rfl) (he pe)
    | start | advance | fail | readHold | commitHold => rfl

/-- **No mail is lost between the gateway and the archive**: whatever the
interleaving of sessions, other publishers, consumers, replays, holds and
retention runs, with any of them failing anywhere, a mail that was
answered 250, or that the broker took from another publisher, waits in the
protocol, or there is a row under the hash of its content, unless a
retention run found that row expired; where no retention run purges, it is
archived exactly once. And each row is that of a mail that was handed in. -/
theorem accepted_mail_archived {maxBytes : Nat} {es : List DeploymentEvent} {s : Deployment env}
    (hrun : run (step maxBytes) (init env) es = some s) :
    (∀ m, (m, MailFlow.acceptedAnswer) ∈ s.flow.answers ∨ m ∈ s.published →
      s.Waits m ∨ ∃ job : Job env, job.mail.raw = m.payload
        ∧ s.world.Accounts (SelectedIn es) job.archiveHash
        ∧ ((∀ e ∈ es, ∀ pe, e ≠ .archive (.purge pe)) → s.world.ArchivedOnce job))
      ∧ ∀ row ∈ s.world.db.messages, ∃ job : Job env, row.SameArchive (job.msgRow row.id)
        ∧ HandedIn es job.mail.raw := by
  have hsound := sound_of_run hrun
  constructor
  · intro m hm
    have hkept : MailFlow.Kept s.flow m := by
      rcases hm with hm | hm
      · exact hsound.flow.accepted m hm
      · exact hsound.published m hm
    rcases waits_or_handled hkept with hwaits | hhandled
    · exact .inl hwaits
    · obtain ⟨c, call, hcall, hret, hraw⟩ := hsound.handled m hhandled
      refine .inr ⟨call.job, hraw, ?_, fun hes => ?_⟩
      · exact hsound.recorded.found c call hcall (by rw [hret]; rfl)
      · exact (unpurged_of_run hrun hes).archivedOnce hcall hret
  · intro row hrow
    obtain ⟨c, call, hcall, -, hsame⟩ := hsound.recorded.sound.origin hrow
    exact ⟨call.job, hsame, hsound.calls c call hcall⟩

/-- A mail the gateway accepts and a worker archives. -/
def acceptedRun : List DeploymentEvent :=
  [.flow (.data plainMail), .flow (.store 0), .flow (.confirm 0), .flow (.deliver 0),
    .begin 0 0 sampleTime sampleTime]
    ++ List.replicate 7 (.archive (.advance 0 sampleDraw true))
    ++ [.handlerEnds 0 .returns, .flow (.settled 0)]

/-- The queues are empty, and it is archived once. -/
theorem accepted_mail_archived_plain : ∃ s,
    run (step 100) (init sampleEnv) acceptedRun = some s
      ∧ ∃ job : Job sampleEnv, job.mail.raw = plainMail ∧ s.world.ArchivedOnce job := by
  have hany : (run (step 100) (init sampleEnv) acceptedRun).any (fun s =>
      decide (s.flow.answers = [(⟨0, plainMail⟩, MailFlow.acceptedAnswer)])
        && decide (s.flow.raw = [] ∧ s.flow.deliveries = [] ∧ s.flow.held = []
          ∧ s.flow.dead = [])) = true := by
    decide +kernel
  have hquiet : ∀ e ∈ acceptedRun, ∀ pe, e ≠ .archive (.purge pe) := by
    intro e he pe heq
    subst heq
    simp [acceptedRun] at he
  obtain ⟨s, hrun, hs⟩ := (Option.any_eq_true _ _).mp hany
  simp only [Bool.and_eq_true, decide_eq_true_eq] at hs
  obtain ⟨hanswers, hraw, hdeliveries, hheld, hdead⟩ := hs
  have hm : (⟨0, plainMail⟩, MailFlow.acceptedAnswer) ∈ s.flow.answers :=
    hanswers ▸ List.mem_singleton_self _
  rcases (accepted_mail_archived hrun).1 _ (.inl hm) with hwaits | ⟨job, hjob, -, honce⟩
  · simp [Waits, hraw, hdeliveries, hheld, hdead] at hwaits
  · exact ⟨s, hrun, job, hjob, honce hquiet⟩

end Deployment

end MailArchiver

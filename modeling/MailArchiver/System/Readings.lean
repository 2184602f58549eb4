import MailArchiver.Lib.Slots
import MailArchiver.System.EffectiveSettings
import MailArchiver.System.MessageView

/-!
# System — Readings

The routes that give a mail out: `view_message`, `export_eml` and
`forward` of `api/main.py`, any number of requests at a time, beside the
archive at work and the changes of the settings. Each reads the mail for
the account that asks and writes its line into the audit journal before it
answers; a forwarded mail has left by then. A request may end anywhere,
and so may the write of its line fail. The journal is here the lines of
these routes, in their order: the other routes and the purges add their
own to `audit_events`, which are left out.
-/

namespace MailArchiver

open Transition

variable {env : Env} {lower : String → String}

/-! ## The journal and the relay -/

/-- `audit.record(actor, action, target, detail)`: the row it adds. -/
def auditRecord (ts : DateTime) (actor action : String) (target : Option String)
    (detail : AuditDetail) : AuditEvent where
  ts := ts
  actor := actor
  action := action
  target := target
  detail := detail
  sourceIp := none

/-- What `aiosmtplib.send` is called with. -/
structure SmtpSend where
  raw : Bytes
  sender : String
  recipients : List String
  hostname : String
  port : Int
  username : Option String
  password : Option String
  startTls : Bool
  deriving DecidableEq, Repr

/-- `smtp_relay.send_raw(cfg, raw, recipients)`. -/
def sendRaw (cfg : SmtpConfig) (raw : Bytes) (recipients : List String) : SmtpSend where
  raw := raw
  sender := if cfg.sender = "" then "archiver@localhost" else cfg.sender
  recipients := recipients
  hostname := cfg.host
  port := cfg.port
  username := if cfg.username = "" then none else some cfg.username
  password := if cfg.password = "" then none else some cfg.password
  startTls := cfg.starttls

/-! ## A request -/

inductive Ask where
  | view (messageId : Nat)
  | exportEml (messageId : Nat)
  | forward (messageId : Nat) (recipients : List String)
  deriving DecidableEq, Repr

def Ask.messageId : Ask → Nat
  | .view id | .exportEml id | .forward id _ => id

/-- What a request gives out. -/
inductive Content where
  | view (v : MessageView)
  | eml (raw : Bytes) (integrityOk : Bool)
  | forwarded (sent : SmtpSend)
  deriving DecidableEq, Repr

namespace Content

def action : Content → String
  | .view _ => "view"
  | .eml _ _ => "export"
  | .forwarded _ => "forward"

def detail : Content → AuditDetail
  | .view _ => .empty
  | .eml _ ok => .integrityOk ok
  | .forwarded sent => .recipients sent.recipients

/-- The mail it has put on the relay. -/
def sent : Content → Option SmtpSend
  | .forwarded sent => some sent
  | _ => none

end Content

/-- How far a request is. -/
inductive Reached where
  | received
  /-- `forward` has its relay. -/
  | configured (cfg : SmtpConfig)
  /-- `view_message` has the mail, and not the columns shown with it. -/
  | read (raw : Bytes) (integrityOk : Bool)
  /-- `forward` has the mail. -/
  | fetched (cfg : SmtpConfig) (raw : Bytes)
  /-- Before `audit.record`. -/
  | ready (content : Content)
  /-- `audit.record` has committed. -/
  | recorded (content : Content) (ts : DateTime)
  | answered (content : Content) (ts : DateTime)
  /-- An `HTTPException`. -/
  | refused (status : Nat) (detail : String)
  /-- Another exception, or the end of the process: before the content was
  ready, before its line was written, before the answer. -/
  | lost
  | unrecorded (content : Content)
  | unanswered (content : Content) (ts : DateTime)
  deriving DecidableEq

namespace Reached

/-- What the request gives out, or has given out. -/
def content : Reached → Option Content
  | .ready c | .unrecorded c | .recorded c _ | .answered c _ | .unanswered c _ => some c
  | _ => none

/-- The mail it has put on the relay. -/
def sent (p : Reached) : Option SmtpSend := p.content.bind Content.sent

/-- The content that was recorded, and when. -/
def line : Reached → Option (Content × DateTime)
  | .recorded c ts | .answered c ts | .unanswered c ts => some (c, ts)
  | _ => none

/-- The mail was read. -/
def granted : Reached → Bool
  | .read _ _ | .fetched _ _ => true
  | p => p.content.isSome

/-- The request after its process has ended, or an exception. -/
def ended : Reached → Reached
  | .received | .configured _ | .read _ _ | .fetched _ _ => .lost
  | .ready c => .unrecorded c
  | .recorded c ts => .unanswered c ts
  | p => p

/-- The answers of the three routes to an account that may not read. -/
def forbidden : Reached := .refused 403 "accès non autorisé à ce message"

end Reached

structure Reading where
  user : AuthenticatedUser
  ask : Ask
  reached : Reached
  deriving DecidableEq

namespace Reading

/-- The line it has written. -/
def line (q : Reading) : Option AuditEvent :=
  q.reached.line.map fun (c, ts) =>
    auditRecord ts q.user.username c.action (some (toString q.ask.messageId)) c.detail

def sent (q : Reading) : Option SmtpSend := q.reached.sent

/-- A mail on the relay has its line, or is of a request that has not come
to its record. -/
theorem line_or_open (q : Reading) {m : SmtpSend} (h : q.sent = some m) :
    (∃ line, q.line = some line)
      ∨ q.reached = .ready (.forwarded m) ∨ q.reached = .unrecorded (.forwarded m) := by
  have hforwarded : ∀ c : Content, c.sent = some m → c = .forwarded m := by
    rintro c hc
    cases c with
    | forwarded m' => exact congrArg Content.forwarded (Option.some.inj hc)
    | view | eml => cases hc
  rw [sent] at h
  unfold line
  cases hq : q.reached with
  | received | configured | read | fetched | refused | lost =>
      rw [hq] at h
      cases h
  | ready c =>
      rw [hq] at h
      rw [hforwarded c h]
      exact .inr (.inl rfl)
  | unrecorded c =>
      rw [hq] at h
      rw [hforwarded c h]
      exact .inr (.inr rfl)
  | recorded c ts | answered c ts | unanswered c ts => exact .inl ⟨_, rfl⟩

def goto (q : Reading) (reached : Reached) : Reading := { q with reached := reached }

end Reading

/-- The steps of a request, each to its next `await`. -/
inductive Turn where
  /-- `get_smtp()`. -/
  | configure
  /-- `get_eml(message_id, scope)`. -/
  | read
  /-- The second half of `get_view`. -/
  | present
  /-- `send_raw`. -/
  | send (accepted : Bool)
  /-- `audit.record`. -/
  | record (ts : DateTime) (committed : Bool)
  | answer
  | endProcess
  deriving DecidableEq

/-- Where `get_eml` leaves a request. -/
def afterRead (result : Except PyError (Bytes × Bool)) (granted : Bytes → Bool → Reached) : Reached :=
  match result with
  | .ok (raw, integrityOk) => granted raw integrityOk
  | .error (.keyError _) => .refused 404 "message introuvable"
  | .error .accessDenied => .forbidden
  | .error _ => .lost

variable (lower) in
/-- Where a turn takes a request, if it is its next one. -/
def Reading.turn (w : World env) (settings : AppSettings) (q : Reading) : Turn → Option Reached
  | .configure =>
      match q.ask, q.reached with
      | .forward _ _, .received =>
          match getSmtp env.prims settings with
          | .error _ => some .lost
          | .ok none => some (.refused 400 "relais SMTP non configuré (voir Paramètres)")
          | .ok (some cfg) => some (.configured cfg)
      | _, _ => none
  | .read =>
      let result := getEml env.prims lower w.db w.blobs q.ask.messageId
        (scopeAddresses lower q.user)
      match q.ask, q.reached with
      | .view _, .received => some (afterRead result .read)
      | .exportEml _, .received => some (afterRead result fun raw ok => .ready (.eml raw ok))
      | .forward _ _, .configured cfg => some (afterRead result fun raw _ => .fetched cfg raw)
      | _, _ => none
  | .present =>
      match q.ask, q.reached with
      | .view id, .read raw integrityOk =>
          let msg := getMessage w.db id
          match parseView env.email raw integrityOk id (msg.map (·.signedAt.isoformat))
            (msg.any (·.legalHold)) with
          | .error _ => some .lost
          | .ok v => some (.ready (.view v))
      | _, _ => none
  | .send accepted =>
      match q.ask, q.reached with
      | .forward _ recipients, .fetched cfg raw =>
          if accepted then some (.ready (.forwarded (sendRaw cfg raw recipients))) else some .lost
      | _, _ => none
  | .record ts committed =>
      match q.reached with
      | .ready c => if committed then some (.recorded c ts) else some (.unrecorded c)
      | _ => none
  | .answer =>
      match q.reached with
      | .recorded c ts => some (.answered c ts)
      | _ => none
  | .endProcess => some q.reached.ended

/-- The row of the journal a turn commits, of the request after it. -/
def Turn.commits (q : Reading) : Turn → Option AuditEvent
  | .record _ true => q.line
  | _ => none

/-- The mail a turn puts on the relay. -/
def Turn.relays (q : Reading) : Turn → Option SmtpSend
  | .send true => q.sent
  | _ => none

/-! ## What a turn does -/

/-- The turns of a request, by what they do. -/
inductive Reading.Moves (lower : String → String) (w : World env) (q : Reading) :
    Turn → Reached → Prop where
  | configured {reached : Reached} (h : q.reached = .received)
      (hto : reached = .lost ∨ (∃ detail, reached = .refused 400 detail)
        ∨ ∃ cfg, reached = .configured cfg) : Moves lower w q .configure reached
  | read {granted : Bytes → Bool → Reached} (hfrom : q.reached.granted = false)
      (hgranted : ∀ raw ok, (granted raw ok).granted = true ∧ (granted raw ok).line = none
        ∧ (granted raw ok).sent = none) :
      Moves lower w q .read (afterRead (getEml env.prims lower w.db w.blobs q.ask.messageId
        (scopeAddresses lower q.user)) granted)
  | presented {raw : Bytes} {ok : Bool} {reached : Reached} (h : q.reached = .read raw ok)
      (hto : reached = .lost ∨ ∃ v, reached = .ready (.view v)) : Moves lower w q .present reached
  | sent {cfg : SmtpConfig} {raw : Bytes} {sent : SmtpSend} (h : q.reached = .fetched cfg raw) :
      Moves lower w q (.send true) (.ready (.forwarded sent))
  | notSent {cfg : SmtpConfig} {raw : Bytes} (h : q.reached = .fetched cfg raw) :
      Moves lower w q (.send false) .lost
  | recorded {c : Content} {ts : DateTime} (h : q.reached = .ready c) :
      Moves lower w q (.record ts true) (.recorded c ts)
  | unrecorded {c : Content} {ts : DateTime} (h : q.reached = .ready c) :
      Moves lower w q (.record ts false) (.unrecorded c)
  | answered {c : Content} {ts : DateTime} (h : q.reached = .recorded c ts) :
      Moves lower w q .answer (.answered c ts)
  | ended : Moves lower w q .endProcess q.reached.ended

theorem Reading.Moves.of_turn {w : World env} {settings : AppSettings} {q : Reading} {t : Turn}
    {reached : Reached} (h : q.turn lower w settings t = some reached) :
    q.Moves lower w t reached := by
  cases t with
  | configure =>
      simp only [turn] at h
      split at h
      · rename_i hreached
        split at h <;> cases h
        · exact .configured hreached (.inl rfl)
        · exact .configured hreached (.inr (.inl ⟨_, rfl⟩))
        · exact .configured hreached (.inr (.inr ⟨_, rfl⟩))
      · cases h
  | read =>
      simp only [turn] at h
      split at h
      · rename_i hreached
        cases h
        exact .read (by rw [hreached]; rfl) fun _ _ => ⟨rfl, rfl, rfl⟩
      · rename_i hreached
        cases h
        exact .read (by rw [hreached]; rfl) fun _ _ => ⟨rfl, rfl, rfl⟩
      · rename_i hreached
        cases h
        exact .read (by rw [hreached]; rfl) fun _ _ => ⟨rfl, rfl, rfl⟩
      · cases h
  | present =>
      simp only [turn] at h
      split at h
      · rename_i hreached
        split at h <;> cases h
        · exact .presented hreached (.inl rfl)
        · exact .presented hreached (.inr ⟨_, rfl⟩)
      · cases h
  | send accepted =>
      simp only [turn] at h
      split at h
      · rename_i hreached
        cases accepted with
        | true =>
            cases h
            exact .sent hreached
        | false =>
            cases h
            exact .notSent hreached
      · cases h
  | record ts committed =>
      simp only [turn] at h
      split at h
      · rename_i hreached
        cases committed with
        | true =>
            cases h
            exact .recorded hreached
        | false =>
            cases h
            exact .unrecorded hreached
      · cases h
  | answer =>
      simp only [turn] at h
      split at h
      · rename_i hreached
        cases h
        exact .answered hreached
      · cases h
  | endProcess =>
      cases h
      exact .ended

/-- Where a read leaves a request. -/
theorem afterRead_cases (result : Except PyError (Bytes × Bool))
    (granted : Bytes → Bool → Reached) :
    (∃ raw ok, result = .ok (raw, ok) ∧ afterRead result granted = granted raw ok)
      ∨ (result = .error .accessDenied ∧ afterRead result granted = .forbidden)
      ∨ (∃ detail, afterRead result granted = .refused 404 detail)
      ∨ afterRead result granted = .lost := by
  cases result with
  | ok x =>
      obtain ⟨raw, ok⟩ := x
      exact .inl ⟨raw, ok, rfl, rfl⟩
  | error e =>
      cases e with
      | keyError msg => exact .inr (.inr (.inl ⟨_, rfl⟩))
      | accessDenied => exact .inr (.inl ⟨rfl, rfl⟩)
      | _ => exact .inr (.inr (.inr rfl))

/-- What a request has neither when it is refused nor when it is lost, nor
with what a read grants, it does not have behind a read. -/
theorem afterRead_eq_none {β : Type} {f : Reached → Option β}
    {result : Except PyError (Bytes × Bool)} {granted : Bytes → Bool → Reached}
    (hgranted : ∀ raw ok, f (granted raw ok) = none)
    (hrefused : ∀ status detail, f (.refused status detail) = none) (hlost : f .lost = none) :
    f (afterRead result granted) = none := by
  rcases afterRead_cases result granted with ⟨raw, ok, -, heq⟩ | ⟨-, heq⟩ | ⟨detail, heq⟩ | heq
  · rw [heq, hgranted]
  · rw [heq, Reached.forbidden, hrefused]
  · rw [heq, hrefused]
  · rw [heq, hlost]

namespace Reached

/-- Nothing comes before the read. -/
theorem of_not_granted {p : Reached} (h : p.granted = false) : p.line = none ∧ p.sent = none := by
  cases p with
  | received | configured | refused | lost => exact ⟨rfl, rfl⟩
  | read | fetched | ready | recorded | answered | unrecorded | unanswered => cases h

theorem ended_line (p : Reached) : p.ended.line = p.line := by
  cases p <;> rfl

theorem ended_sent (p : Reached) : p.ended.sent = p.sent := by
  cases p <;> rfl

end Reached

namespace Reading

variable {w : World env} {q : Reading} {t : Turn} {reached : Reached}

/-- A request has its line from the turn that commits it. -/
theorem Moves.line_cases (h : q.Moves lower w t reached) :
    (∃ ts, t = .record ts true ∧ q.reached.line = none)
      ∨ (reached.line = q.reached.line ∧ ∀ q', t.commits q' = none) := by
  cases h with
  | recorded h => exact .inl ⟨_, rfl, by rw [h]; rfl⟩
  | configured h hto =>
      rw [h]
      rcases hto with rfl | ⟨detail, rfl⟩ | ⟨cfg, rfl⟩
      · exact .inr ⟨rfl, fun _ => rfl⟩
      · exact .inr ⟨rfl, fun _ => rfl⟩
      · exact .inr ⟨rfl, fun _ => rfl⟩
  | read hfrom hgranted =>
      rw [(Reached.of_not_granted hfrom).1]
      exact .inr ⟨afterRead_eq_none (fun raw ok => (hgranted raw ok).2.1) (fun _ _ => rfl) rfl,
        fun _ => rfl⟩
  | presented h hto =>
      rw [h]
      rcases hto with rfl | ⟨v, rfl⟩
      · exact .inr ⟨rfl, fun _ => rfl⟩
      · exact .inr ⟨rfl, fun _ => rfl⟩
  | sent h | notSent h | unrecorded h | answered h =>
      rw [h]
      exact .inr ⟨rfl, fun _ => rfl⟩
  | ended => exact .inr ⟨Reached.ended_line _, fun _ => rfl⟩

/-- And its mail on the relay from the turn that sends it. -/
theorem Moves.sent_cases (h : q.Moves lower w t reached) :
    (t = .send true ∧ q.reached.sent = none)
      ∨ (reached.sent = q.reached.sent ∧ ∀ q', t.relays q' = none) := by
  cases h with
  | sent h => exact .inl ⟨rfl, by rw [h]; rfl⟩
  | configured h hto =>
      rw [h]
      rcases hto with rfl | ⟨detail, rfl⟩ | ⟨cfg, rfl⟩
      · exact .inr ⟨rfl, fun _ => rfl⟩
      · exact .inr ⟨rfl, fun _ => rfl⟩
      · exact .inr ⟨rfl, fun _ => rfl⟩
  | read hfrom hgranted =>
      rw [(Reached.of_not_granted hfrom).2]
      exact .inr ⟨afterRead_eq_none (fun raw ok => (hgranted raw ok).2.2) (fun _ _ => rfl) rfl,
        fun _ => rfl⟩
  | presented h hto =>
      rw [h]
      rcases hto with rfl | ⟨v, rfl⟩
      · exact .inr ⟨rfl, fun _ => rfl⟩
      · exact .inr ⟨rfl, fun _ => rfl⟩
  | notSent h | recorded h | unrecorded h | answered h =>
      rw [h]
      exact .inr ⟨rfl, fun _ => rfl⟩
  | ended => exact .inr ⟨Reached.ended_sent _, fun _ => rfl⟩

/-- What a turn adds to the journal is what it adds to its request. -/
theorem Moves.line (h : q.Moves lower w t reached) :
    (q.goto reached).line.toList = q.line.toList ++ (t.commits (q.goto reached)).toList := by
  rcases h.line_cases with ⟨ts, rfl, hnone⟩ | ⟨hsame, hnone⟩
  · have hline : q.line = none := by rw [Reading.line, hnone, Option.map_none]
    rw [hline]
    rfl
  · rw [hnone, Option.toList_none, List.append_nil, Reading.line, Reading.line, goto, hsame]

theorem Moves.sentMail (h : q.Moves lower w t reached) :
    (q.goto reached).sent.toList = q.sent.toList ++ (t.relays (q.goto reached)).toList := by
  rcases h.sent_cases with ⟨rfl, hnone⟩ | ⟨hsame, hnone⟩
  · have hsent : q.sent = none := hnone
    rw [hsent]
    rfl
  · rw [hnone, Option.toList_none, List.append_nil]
    exact congrArg Option.toList hsame

/-- A request that has the mail had it before, or has just read it. -/
theorem Moves.granted (h : q.Moves lower w t reached) (hgranted : reached.granted = true) :
    q.reached.granted = true ∨ ∃ raw ok, getEml env.prims lower w.db w.blobs q.ask.messageId
      (scopeAddresses lower q.user) = .ok (raw, ok) := by
  cases h with
  | configured h hto =>
      rcases hto with rfl | ⟨detail, rfl⟩ | ⟨cfg, rfl⟩
      · cases hgranted
      · cases hgranted
      · cases hgranted
  | @read granted hfrom _ =>
      rcases afterRead_cases (getEml env.prims lower w.db w.blobs q.ask.messageId
        (scopeAddresses lower q.user)) granted with ⟨raw, ok, hok, -⟩ | ⟨-, heq⟩ | ⟨detail, heq⟩ | heq
      · exact .inr ⟨raw, ok, hok⟩
      · rw [heq] at hgranted
        cases hgranted
      · rw [heq] at hgranted
        cases hgranted
      · rw [heq] at hgranted
        cases hgranted
  | presented h | sent h | notSent h | recorded h | unrecorded h | answered h =>
      rw [h]
      exact .inl rfl
  | ended =>
      left
      cases hq : q.reached with
      | received | configured | refused | lost =>
          rw [hq] at hgranted
          cases hgranted
      | read | fetched | ready | recorded | answered | unrecorded | unanswered => rfl

end Reading

/-! ## The requests beside the archive -/

structure Readings (env : Env) where
  world : World env
  settings : AppSettings
  requests : List Reading
  /-- The lines of these routes in `audit_events`, newest last. -/
  journal : List AuditEvent
  /-- What the relay has accepted, newest last. -/
  relayed : List SmtpSend

inductive ReadingsEvent where
  | archive (e : Event)
  | changeSettings (settings : AppSettings)
  | arrive (user : AuthenticatedUser) (ask : Ask)
  | turn (r : Nat) (t : Turn)

namespace Readings

def init (env : Env) (settings : AppSettings) : Readings env where
  world := .init env
  settings := settings
  requests := []
  journal := []
  relayed := []

/-- The request `q` at `r` after a turn. -/
def turned (s : Readings env) (r : Nat) (t : Turn) (q : Reading) : Readings env :=
  { s with
    requests := s.requests.set r q
    journal := s.journal ++ (t.commits q).toList
    relayed := s.relayed ++ (t.relays q).toList }

variable (lower) in
def step (s : Readings env) : ReadingsEvent → Option (Readings env)
  | .archive e => (s.world.step e).map fun world => { s with world := world }
  | .changeSettings settings => some { s with settings := settings }
  | .arrive user ask => some { s with requests := s.requests ++ [⟨user, ask, .received⟩] }
  | .turn r t =>
      match s.requests[r]? with
      | none => none
      | some q => (q.turn lower s.world s.settings t).map fun reached => s.turned r t (q.goto reached)

/-- The account may read the mail that was archived under the id. -/
def Allowed (lower : String → String) (w : World env) (user : AuthenticatedUser) (id : Nat) : Prop :=
  ∃ job, w.ArchivedAs id job ∧ job.OpenTo lower (scopeAddresses lower user)

/-- A read that succeeds is allowed. -/
theorem allowed_of_getEml {w : World env} (hsound : w.Sound) {user : AuthenticatedUser} {id : Nat}
    {raw : Bytes} {ok : Bool}
    (h : getEml env.prims lower w.db w.blobs id (scopeAddresses lower user) = .ok (raw, ok)) :
    Allowed lower w user id := by
  unfold getEml at h
  split at h
  · cases h
  · rename_i m hm
    split at h
    · rename_i hacc
      have hmem : m ∈ w.db.messages := List.mem_of_find?_eq_some hm
      obtain rfl : m.id = id := by simpa using List.find?_some hm
      obtain ⟨c, call, hcall, hcom, hsame⟩ := hsound.origin hmem
      refine ⟨call.job, ⟨c, call, hcall, hcom, rfl⟩, ?_⟩
      rw [← @Job.openTo_iff _ lower call.job m.id, ← hsame.canAccess]
      exact hacc
    · cases h

/-- What the requests and their logs maintain. -/
structure Sound (lower : String → String) (s : Readings env) : Prop where
  world : s.world.Sound
  journal : s.journal.Perm (s.requests.filterMap Reading.line)
  relayed : s.relayed.Perm (s.requests.filterMap Reading.sent)
  allowed : ∀ q ∈ s.requests, q.reached.granted = true →
    Allowed lower s.world q.user q.ask.messageId

theorem Sound.step {s s' : Readings env} {e : ReadingsEvent} (h : s.Sound lower)
    (hs : s.step lower e = some s') : s'.Sound lower ∧ s.journal <+: s'.journal := by
  cases e with
  | archive e =>
      obtain ⟨world, hw, rfl⟩ := Option.map_eq_some_iff.mp hs
      refine ⟨⟨h.world.step hw, h.journal, h.relayed, fun q hq hg => ?_⟩, List.prefix_rfl⟩
      obtain ⟨job, harch, hopen⟩ := h.allowed q hq hg
      exact ⟨job, harch.step h.world hw, hopen⟩
  | changeSettings settings =>
      cases hs
      exact ⟨⟨h.world, h.journal, h.relayed, h.allowed⟩, List.prefix_rfl⟩
  | arrive user ask =>
      cases hs
      refine ⟨⟨h.world, ?_, ?_, fun q hq hg => ?_⟩, List.prefix_rfl⟩
      · rw [List.filterMap_append]
        exact (List.append_nil _).symm ▸ h.journal
      · rw [List.filterMap_append]
        exact (List.append_nil _).symm ▸ h.relayed
      · rcases List.mem_append.mp hq with hq | hq
        · exact h.allowed q hq hg
        · rw [List.mem_singleton.mp hq] at hg
          cases hg
  | turn r t =>
      simp only [Readings.step] at hs
      split at hs
      · cases hs
      · rename_i q hq
        obtain ⟨reached, hturn, rfl⟩ := Option.map_eq_some_iff.mp hs
        have hmoves := Reading.Moves.of_turn hturn
        refine ⟨⟨h.world, ?_, ?_, fun q' hq' hg => ?_⟩, List.prefix_append _ _⟩
        · exact (h.journal.append_right _).trans (Slots.filterMap_set_perm hq hmoves.line).symm
        · exact (h.relayed.append_right _).trans (Slots.filterMap_set_perm hq hmoves.sentMail).symm
        · rcases List.mem_or_eq_of_mem_set hq' with hq' | rfl
          · exact h.allowed q' hq' hg
          · rcases hmoves.granted hg with hg | ⟨raw, ok, hok⟩
            · exact h.allowed q (List.mem_of_getElem? hq) hg
            · exact allowed_of_getEml h.world hok

theorem Sound.init (env : Env) (settings : AppSettings) :
    (Readings.init env settings).Sound lower where
  world := .init env
  journal := .nil
  relayed := .nil
  allowed := fun _ hq => absurd hq List.not_mem_nil

theorem Sound.run {s t : Readings env} {es : List ReadingsEvent} (h : s.Sound lower)
    (hrun : Transition.run (Readings.step lower) s es = some t) :
    t.Sound lower ∧ s.journal <+: t.journal :=
  run_invariant (I := fun u : Readings env => u.Sound lower ∧ s.journal <+: u.journal)
    (fun _ _ _ ⟨hu, hprefix⟩ hs => ⟨(hu.step hs).1, hprefix.trans (hu.step hs).2⟩) hrun
    ⟨h, List.prefix_rfl⟩

/-- **No mail is given out unseen**: whatever the interleaving of requests
with each other, with the archive and with changes of the settings, and
wherever they end, the lines of these routes in the audit journal are one
for each request that has passed its record, among them all that were
answered; the relay got the mails of the requests that have passed their
sending; every request that was given a mail is of an account that may
read it; and the lines only grow in number. So a mail leaves unrecorded only through a forward
that failed, or whose process ended, between its sending and its record. -/
theorem readings_recorded {settings : AppSettings} {es : List ReadingsEvent} {s : Readings env}
    (hrun : Transition.run (step lower) (init env settings) es = some s) :
    s.journal.Perm (s.requests.filterMap Reading.line)
      ∧ s.relayed.Perm (s.requests.filterMap Reading.sent)
      ∧ (∀ q ∈ s.requests, q.reached.granted = true →
        Allowed lower s.world q.user q.ask.messageId)
      ∧ (∀ sent ∈ s.relayed, ∃ q ∈ s.requests, q.sent = some sent
        ∧ ((∃ line ∈ s.journal, q.line = some line)
          ∨ q.reached = .ready (.forwarded sent) ∨ q.reached = .unrecorded (.forwarded sent)))
      ∧ ∀ front back u, es = front ++ back →
        Transition.run (step lower) (init env settings) front = some u → u.journal <+: s.journal := by
  have hsound := ((Sound.init env settings).run hrun).1
  refine ⟨hsound.journal, hsound.relayed, hsound.allowed, ?_, ?_⟩
  · intro sent hsent
    obtain ⟨q, hq, hqs⟩ := List.mem_filterMap.mp (hsound.relayed.mem_iff.mp hsent)
    refine ⟨q, hq, hqs, ?_⟩
    rcases q.line_or_open hqs with ⟨line, hline⟩ | hopen
    · exact .inl ⟨line, hsound.journal.mem_iff.mpr (List.mem_filterMap.mpr ⟨q, hq, hline⟩), hline⟩
    · exact .inr hopen
  · rintro front back u rfl hu
    obtain ⟨u', hu', hback⟩ := run_append.mp hrun
    obtain rfl := Option.some.inj (hu.symm.trans hu')
    exact (((Sound.init env settings).run hu).1.run hback).2

/-- An administrator. -/
def sampleAdmin : AuthenticatedUser := ⟨"root", "root", "admin", true, none, none⟩

/-- One mail, archived; the administrator and an account with another
address ask for it. -/
def askedRun : List ReadingsEvent :=
  World.archivedRun.map .archive ++ [.arrive sampleAdmin (.exportEml 1), .turn 0 .read,
    .turn 0 (.record sampleTime true), .arrive bob (.exportEml 1), .turn 1 .read,
    .turn 0 .answer]

/-- The administrator gets the mail, and the journal has its line alone. -/
theorem readings_recorded_export : ∃ s,
    Transition.run (step String.toLower) (init sampleEnv noSettings) askedRun = some s
      ∧ s.requests = [⟨sampleAdmin, .exportEml 1, .answered (.eml plainMail true) sampleTime⟩,
        ⟨bob, .exportEml 1, .forbidden⟩]
      ∧ Allowed String.toLower s.world sampleAdmin 1
      ∧ s.journal.Perm
        [auditRecord sampleTime "root" "export" (some "1") (.integrityOk true)] := by
  have hany : (Transition.run (step String.toLower) (init sampleEnv noSettings) askedRun).any
      (fun s => decide (s.requests =
        [⟨sampleAdmin, .exportEml 1, .answered (.eml plainMail true) sampleTime⟩,
          ⟨bob, .exportEml 1, .forbidden⟩])) = true := by
    decide +kernel
  obtain ⟨s, hrun, hs⟩ := (Option.any_eq_true _ _).mp hany
  have hrequests := of_decide_eq_true hs
  obtain ⟨hjournal, -, hallowed, -, -⟩ := readings_recorded hrun
  rw [hrequests] at hjournal hallowed
  exact ⟨s, hrun, hrequests, hallowed _ List.mem_cons_self rfl, hjournal⟩

end Readings

end MailArchiver

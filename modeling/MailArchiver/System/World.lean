import MailArchiver.Api.LegalHold
import MailArchiver.ArchiverWorker.Pipeline
import MailArchiver.Lib.Transition
import MailArchiver.RetentionWorker.Purge

/-!
# System — World

The archive at work: any number of `process` calls, retention runs one at
a time, and requests on legal holds, over the shared stores. A worker that
dies is a set of calls that fail; a call number is used once, so that the
calls that ended stay on record. A retention run is its purge of the
expired mails: the drop of the daily indices before it is left out.
-/

namespace MailArchiver

open Transition

structure World (env : Env) where
  stores : Stores
  calls : Nat → Option (Call env)
  purge : Purge
  holds : Nat → Option HoldRequest

inductive Event where
  /-- `process(raw)` is called, at time `now`, and will sign at `signedAt`. -/
  | start (c : Nat) (raw : Bytes) (now signedAt : DateTime)
  | advance (c : Nat) (draw : Draw) (published : Bool)
  | fail (c : Nat)
  | purge (e : PurgeEvent)
  | readHold (r : Nat) (messageId : Nat) (hold : Bool)
  | commitHold (r : Nat)

namespace Event

/-- The `process` call an event belongs to. -/
def call : Event → Option Nat
  | .start c _ _ _ | .advance c _ _ | .fail c => some c
  | _ => none

def isPurge : Event → Bool
  | .purge _ => true
  | _ => false

end Event

namespace World

variable {env : Env}

def init (env : Env) : World env where
  stores := .init
  calls := fun _ => none
  purge := .idle
  holds := fun _ => none

/-- The committed tables. -/
def db (w : World env) : Db := w.stores.db

def blobs (w : World env) : BlobStore := w.stores.blobs

def setCall (w : World env) (c : Nat) (s : Stores) (call : Call env) : World env :=
  { w with stores := s, calls := Function.update w.calls c (some call) }

def setHoldRequest (w : World env) (r : Nat) (s : Stores) (q : HoldRequest) : World env :=
  { w with stores := s, holds := Function.update w.holds r (some q) }

def step (w : World env) : Event → Option (World env)
  | .start c raw now signedAt =>
      match w.calls c with
      | some _ => none
      | none =>
          match prepare env now signedAt raw with
          | .error _ => some w
          | .ok job => some (w.setCall c w.stores ⟨job, .check, none⟩)
  | .advance c draw published =>
      match w.calls c with
      | none => none
      | some call =>
          match advance w.stores c call draw published with
          | none => none
          | some (s, call') => some (w.setCall c s call')
  | .fail c =>
      match w.calls c with
      | none => none
      | some call =>
          match MailArchiver.fail w.stores c call with
          | none => none
          | some (s, call') => some (w.setCall c s call')
  | .purge e =>
      match w.purge.step w.stores e with
      | none => none
      | some (s, p) => some { w with stores := s, purge := p }
  | .readHold r messageId hold =>
      match w.holds r with
      | some _ => none
      | none =>
          match w.db.messages.find? fun m => m.id = messageId with
          | none => some w
          | some row => some (w.setHoldRequest r w.stores ⟨row, hold, .pending⟩)
  | .commitHold r =>
      match w.holds r with
      | none => none
      | some q =>
          match q.commit w.stores with
          | none => none
          | some (s, q') => some (w.setHoldRequest r s q')

theorem step_start {w : World env} {c : Nat} {raw : Bytes} {now signedAt : DateTime}
    {job : Job env} (hfree : w.calls c = none) (hjob : prepare env now signedAt raw = .ok job) :
    w.step (.start c raw now signedAt) = some (w.setCall c w.stores ⟨job, .check, none⟩) := by
  simp only [step, hfree, hjob]

theorem step_advance {w : World env} {c : Nat} {draw : Draw} {published : Bool}
    {call call' : Call env} {s : Stores} (hcall : w.calls c = some call)
    (hadv : advance w.stores c call draw published = some (s, call')) :
    w.step (.advance c draw published) = some (w.setCall c s call') := by
  simp only [step, hcall, hadv]

theorem step_purge {w : World env} {e : PurgeEvent} {s : Stores} {p : Purge}
    (h : w.purge.step w.stores e = some (s, p)) :
    w.step (.purge e) = some { w with stores := s, purge := p } := by
  simp only [step, h]

/-- The steps of the world, by who makes them. -/
inductive Move (w : World env) : Event → World env → Prop where
  /-- A mail that does not parse, or a message that is not found. -/
  | refused {e : Event} : Move w e w
  | start {c : Nat} {raw : Bytes} {now signedAt : DateTime} {job : Job env}
      (hfree : w.calls c = none) (hjob : prepare env now signedAt raw = .ok job) :
      Move w (.start c raw now signedAt) (w.setCall c w.stores ⟨job, .check, none⟩)
  | advance {c : Nat} {draw : Draw} {published : Bool} {call call' : Call env} {s : Stores}
      (hcall : w.calls c = some call) (hmove : MailArchiver.Move w.stores c call s call') :
      Move w (.advance c draw published) (w.setCall c s call')
  | fail {c : Nat} {call : Call env} (hcall : w.calls c = some call)
      (hpc : call.pc ≠ .returned) :
      Move w (.fail c) (w.setCall c (w.stores.release (.worker c)) (call.goto .raised))
  | purge {e : PurgeEvent} {s : Stores} {p : Purge} (hmove : Purge.Move w.stores w.purge e s p) :
      Move w (.purge e) { w with stores := s, purge := p }
  | hold {e : Event} {r : Nat} {q : HoldRequest} {s : Stores}
      (hs : s = w.stores ∨ ∃ row hold, s = { w.stores with db := w.db.setHold row hold })
      (he : e.call = none ∧ e.isPurge = false) :
      Move w e (w.setHoldRequest r s q)

theorem Move.of_step {w w' : World env} {e : Event} (h : step w e = some w') : Move w e w' := by
  cases e with
  | start c raw now signedAt =>
      simp only [step] at h
      split at h
      · cases h
      · split at h <;> cases h
        · exact .refused
        · exact .start ‹_› ‹_›
  | advance c draw published =>
      simp only [step] at h
      split at h
      · cases h
      · split at h <;> cases h
        exact .advance ‹_› (.of_advance ‹_›)
  | fail c =>
      simp only [step] at h
      split at h
      · cases h
      · rename_i call hcall
        split at h <;> cases h
        rename_i hfail
        unfold MailArchiver.fail at hfail
        split at hfail <;> cases hfail
        rename_i hpc
        exact .fail hcall fun hret => hpc (.inl hret)
  | purge e =>
      simp only [step] at h
      split at h <;> cases h
      exact .purge (.of_step ‹_›)
  | readHold r messageId hold =>
      simp only [step] at h
      split at h
      · cases h
      · split at h <;> cases h
        · exact .refused
        · exact .hold (.inl rfl) ⟨rfl, rfl⟩
  | commitHold r =>
      simp only [step] at h
      split at h
      · cases h
      · rename_i q hq
        split at h <;> cases h
        rename_i hcommit
        refine .hold ?_ ⟨rfl, rfl⟩
        rcases HoldRequest.commit_cases hcommit with hs | hs
        · exact .inl hs
        · exact .inr ⟨_, _, hs⟩

@[simp] theorem setCall_stores (w : World env) (c : Nat) (s : Stores) (call : Call env) :
    (w.setCall c s call).stores = s := rfl

@[simp] theorem setCall_db (w : World env) (c : Nat) (s : Stores) (call : Call env) :
    (w.setCall c s call).db = s.db := rfl

@[simp] theorem setCall_purge (w : World env) (c : Nat) (s : Stores) (call : Call env) :
    (w.setCall c s call).purge = w.purge := rfl

theorem setCall_calls_self (w : World env) (c : Nat) (s : Stores) (call : Call env) :
    (w.setCall c s call).calls c = some call := Function.update_self ..

theorem setCall_calls_ne (w : World env) {c c' : Nat} (s : Stores) (call : Call env)
    (h : c' ≠ c) : (w.setCall c s call).calls c' = w.calls c' := Function.update_of_ne h ..

/-- A call after one was set: that one, or another call as before. -/
theorem setCall_calls_cases {w : World env} {c c' : Nat} {s : Stores} {call call' : Call env}
    (h : (w.setCall c s call).calls c' = some call') :
    (c' = c ∧ call' = call) ∨ (c' ≠ c ∧ w.calls c' = some call') := by
  by_cases hc : c' = c
  · subst hc
    rw [setCall_calls_self] at h
    exact .inl ⟨rfl, (Option.some.inj h).symm⟩
  · rw [setCall_calls_ne w s call hc] at h
    exact .inr ⟨hc, h⟩

/-- The bucket after a step: one `put` of a call, or one delete of the
purge, or the bucket before it. -/
inductive BlobStep (w : World env) : Event → BlobStore → Prop where
  | same {e : Event} : BlobStep w e w.blobs
  | put {c : Nat} {draw draw' : Draw} {published : Bool} {call : Call env} {sha : String}
      {plaintext blob : Bytes} (hcall : w.calls c = some call)
      (hwrites : call.writes = some (sha, plaintext))
      (hblob : sealed env.prims draw' plaintext = .ok blob) :
      BlobStep w (.advance c draw published) (w.blobs.put sha blob)
  | delete {st : Statement} (hnext : w.purge.next = some st) :
      BlobStep w (.purge .advance) (st.onBlobs w.blobs)

theorem BlobStep.of_step {w w' : World env} {e : Event} (hs : step w e = some w') :
    BlobStep w e w'.blobs := by
  cases Move.of_step hs with
  | refused | start | fail => exact .same
  | @advance c draw published call call' s hcall hmove =>
      show BlobStep w _ s.blobs
      rcases hmove.blobs with h | ⟨sha, plaintext, draw', blob, hwrites, hblob, h⟩
      · rw [h]
        exact .same
      · rw [h]
        exact .put hcall hwrites hblob
  | @purge e s p hmove =>
      generalize hq : w.purge = q at hmove
      cases hmove with
      | execute => exact .delete (by rw [hq]; rfl)
      | select | load | begin | commit | crash => exact .same
  | hold hstores =>
      rcases hstores with rfl | ⟨row, on, rfl⟩
      · exact .same
      · exact .same

/-- A key keeps its blob, unless the purge deletes it. -/
theorem BlobStep.isSome {w : World env} {e : Event} {blobs : BlobStore} (h : BlobStep w e blobs)
    {sha : String} (hsome : (w.blobs.lookup sha).isSome)
    (hkeep : ∀ st, e = .purge .advance → w.purge.next = some st → st.deletes ≠ some sha) :
    (blobs.lookup sha).isSome := by
  cases h with
  | same => exact hsome
  | put hcall hwrites hblob => exact BlobStore.lookup_put_isSome _ _ _ _ hsome
  | delete hnext => rwa [Statement.lookup_onBlobs, if_neg (hkeep _ rfl hnext)]

/-- Every call knows where it stands, in every reachable world. -/
theorem coherent_step {w w' : World env} {e : Event}
    (h : ∀ c call, w.calls c = some call → call.Coherent) (hs : step w e = some w') :
    ∀ c call, w'.calls c = some call → call.Coherent := by
  intro c call hcall
  cases Move.of_step hs with
  | refused => exact h c call hcall
  | start hfree hjob =>
      rcases setCall_calls_cases hcall with ⟨-, rfl⟩ | ⟨-, hold⟩
      · rfl
      · exact h c call hold
  | advance hold hmove =>
      rcases setCall_calls_cases hcall with ⟨-, rfl⟩ | ⟨-, hold'⟩
      · exact hmove.coherent (h _ _ hold)
      · exact h c call hold'
  | fail hold hpc =>
      rcases setCall_calls_cases hcall with ⟨-, rfl⟩ | ⟨-, hold'⟩
      · trivial
      · exact h c call hold'
  | purge hmove => exact h c call hcall
  | hold hs => exact h c call hcall

/-- A call was started by an event of the run, on the mail it has. -/
theorem call_of_run {es : List Event} {w : World env} (h : run step (init env) es = some w)
    {c : Nat} {call : Call env} (hcall : w.calls c = some call) :
    ∃ raw now signedAt, .start c raw now signedAt ∈ es
      ∧ prepare env now signedAt raw = .ok call.job := by
  let Started : World env → Prop := fun w => ∀ c call, w.calls c = some call →
    ∃ raw now signedAt, .start c raw now signedAt ∈ es
      ∧ prepare env now signedAt raw = .ok call.job
  have hinit : Started (init env) := fun c call hcall => by cases hcall
  refine run_invariant_of_meets (I := Started) (C := fun _ e => e ∈ es) ?_ h
    (meets_of_forall fun e he => he) hinit c call hcall
  intro w e w' hw he hs c call hcall
  cases Move.of_step hs with
  | refused | purge | hold => exact hw c call hcall
  | start hfree hjob =>
      rcases setCall_calls_cases hcall with ⟨rfl, rfl⟩ | ⟨-, hold⟩
      · exact ⟨_, _, _, he, hjob⟩
      · exact hw c call hold
  | advance hcall₀ hmove =>
      rcases setCall_calls_cases hcall with ⟨rfl, rfl⟩ | ⟨-, hold⟩
      · rw [hmove.job]
        exact hw _ _ hcall₀
      · exact hw c call hold
  | fail hcall₀ hpc =>
      rcases setCall_calls_cases hcall with ⟨rfl, rfl⟩ | ⟨-, hold⟩
      · have hstarted := hw _ _ hcall₀
        exact hstarted
      · exact hw c call hold

end World

/-! ## Sample runs -/

/-- `cutoff` of a retention run that finds what was signed at `sampleTime`. -/
def sampleCutoff : DateTime := { sampleTime with year := 2027, valid := by decide }

/-- A time after the cutoff. -/
def sampleNow : DateTime := { sampleTime with year := 2028, valid := by decide }

/-- `process(raw)` as call `c` at time `t`, for so many steps. -/
def sampleCall (c : Nat) (raw : Bytes) (t : DateTime) (steps : Nat) : List Event :=
  .start c raw t t :: List.replicate steps (.advance c sampleDraw true)

theorem mem_sampleCall_start {c c' : Nat} {raw raw' : Bytes} {now signedAt t : DateTime}
    {steps : Nat} : .start c raw now signedAt ∈ sampleCall c' raw' t steps ↔
      c = c' ∧ raw = raw' ∧ now = t ∧ signedAt = t := by
  simp [sampleCall, List.mem_replicate]

/-- The row of a mail archived at `sampleTime`. -/
def sampleRow (raw : Bytes) (id : Nat) : Message :=
  match prepare sampleEnv sampleTime sampleTime raw with
  | .ok job => job.msgRow id
  | .error _ => plainRow

def sampleRun (es : List Event) : Option (World sampleEnv) :=
  run World.step (World.init sampleEnv) es

def Purge.isIdle : Purge → Bool
  | .idle => true
  | _ => false

theorem Purge.eq_idle {p : Purge} (h : p.isIdle = true) : p = .idle := by
  cases p with
  | idle => rfl
  | loading | running => cases h

/-- The calls of a world are numbered below `n`. -/
def World.CallsBelow {env : Env} (n : Nat) (w : World env) : Prop :=
  ∀ c, n ≤ c → w.calls c = none

theorem World.CallsBelow.mono {env : Env} {n n' : Nat} {w : World env} (h : w.CallsBelow n)
    (hn : n ≤ n') : w.CallsBelow n' := fun c hc => h c (Nat.le_trans hn hc)

def Event.below (n : Nat) : Event → Bool
  | .start c _ _ _ => c < n
  | _ => true

theorem World.CallsBelow.step {env : Env} {n : Nat} {w w' : World env} {e : Event}
    (h : w.CallsBelow n) (he : e.below n = true) (hs : w.step e = some w') :
    w'.CallsBelow n := by
  intro c hc
  cases Move.of_step hs with
  | refused | purge | hold => exact h c hc
  | @start c₀ =>
      have hlt : c₀ < n := of_decide_eq_true he
      rw [setCall_calls_ne _ _ _ (by omega)]
      exact h c hc
  | @advance c₀ draw published call call' s hcall hmove =>
      have hne : c ≠ c₀ := by
        rintro rfl
        rw [h c hc] at hcall
        cases hcall
      rw [setCall_calls_ne _ _ _ hne]
      exact h c hc
  | @fail c₀ call hcall hpc =>
      have hne : c ≠ c₀ := by
        rintro rfl
        rw [h c hc] at hcall
        cases hcall
      rw [setCall_calls_ne _ _ _ hne]
      exact h c hc

end MailArchiver

import MailArchiver.Api.Users
import MailArchiver.Lib.Slots
import MailArchiver.Lib.Transition

/-!
# Api — Lockout

`authenticate_with_lockout` of `api/users.py`, by attempts that run at the
same time on one account. An attempt takes the time, reads the row,
decides, and commits what it has changed in its copy of the row; the
`UPDATE` writes the changed columns and no lock is held since the read.

A wrong password that was checked counts as a guess until the next login
that succeeds or the next lock (`Lockout.guesses`; the program keeps only
`failed_logins`). `lockout_bounds_guesses` says under which steps the two
stay together.
-/

namespace MailArchiver

open Transition

/-- `LOGIN_MAX_ATTEMPTS` and `LOGIN_LOCKOUT_MINUTES`. -/
structure LockoutPolicy where
  maxAttempts : Int
  lockoutMinutes : Int

/-- The first microsecond after the year 9999. -/
def instantEnd : Int := 315537897600000000

/-- `now + timedelta(minutes=lockout_minutes)`; `none` is the
`OverflowError`. -/
def LockoutPolicy.lockUntil (policy : LockoutPolicy) (now : Int) : Option Int :=
  let t := now + policy.lockoutMinutes * 60000000
  if 0 ≤ t ∧ t < instantEnd then some t else none

inductive LoginStatus where
  | ok
  | bad
  | locked
  deriving DecidableEq, Repr

/-- How an attempt goes on once it has the row. -/
inductive Decision where
  /-- Nothing changed: no commit. -/
  | answer (status : LoginStatus)
  /-- The row as changed in memory, to be committed. -/
  | commit (changed : User) (status : LoginStatus)
  | overflowError
  deriving DecidableEq, Repr

variable (policy : LockoutPolicy) (verifyPassword : String → String → Bool)

/-- `authenticate_with_lockout` between the read and the commit. -/
def authenticateWithLockout (now : Int) (password : String) (u : User) : Decision :=
  if !u.isActive then .answer .bad
  else if u.lockedUntil.any (now < ·) then .answer .locked
  else if verifyPassword password u.passwordHash then
    if u.failedLogins ≠ 0 ∨ u.lockedUntil ≠ none then
      .commit { u with failedLogins := 0, lockedUntil := none } .ok
    else .answer .ok
  else if policy.maxAttempts ≤ (u.failedLogins + 1 : Nat) then
    match policy.lockUntil now with
    | some t => .commit { u with failedLogins := 0, lockedUntil := some t } .bad
    | none => .overflowError
  else .commit { u with failedLogins := u.failedLogins + 1 } .bad

/-- The row after the `UPDATE` of the columns changed since it was read. -/
def User.written (row read changed : User) : User :=
  { row with
    failedLogins :=
      if changed.failedLogins = read.failedLogins then row.failedLogins else changed.failedLogins
    lockedUntil :=
      if changed.lockedUntil = read.lockedUntil then row.lockedUntil else changed.lockedUntil }

/-- `failed_logins` is an `int4`. -/
def User.storable (u : User) : Bool := u.failedLogins < 2147483648

inductive Attempt where
  | started (now : Int) (password : String)
  /-- Before its commit. -/
  | deciding (read changed : User) (status : LoginStatus)
  | answered (status : LoginStatus)
  /-- The `OverflowError`, or the refusal of the commit. -/
  | raised
  deriving DecidableEq, Repr

/-- A wrong password was checked and is not counted yet. -/
def Attempt.uncounted : Attempt → Bool
  | .deciding _ _ .bad => true
  | _ => false

structure Lockout where
  row : User
  attempts : List Attempt
  clock : Int
  guesses : Nat
  deriving DecidableEq, Repr

inductive LockoutEvent where
  | start (now : Int) (password : String)
  | read (i : Nat) (time : Int)
  | commit (i : Nat)
  deriving DecidableEq, Repr

namespace Lockout

/-- The row was read and the password checked, if it came to that. -/
def decided (s : Lockout) (i : Nat) (time : Int) : Decision → Lockout
  | .answer status =>
      { s with
        attempts := s.attempts.set i (.answered status), clock := time
        guesses := if status = .ok then 0 else s.guesses }
  | .commit changed status =>
      { s with
        attempts := s.attempts.set i (.deciding s.row changed status), clock := time
        guesses := if status = .bad then s.guesses + 1 else s.guesses }
  | .overflowError =>
      { s with
        attempts := s.attempts.set i .raised, clock := time, guesses := s.guesses + 1 }

/-- A commit; it sets `failed_logins` to zero on a success and on a lock. -/
def committed (s : Lockout) (i : Nat) (read changed : User) (status : LoginStatus) : Lockout :=
  if changed.storable then
    { s with
      row := s.row.written read changed
      attempts := s.attempts.set i (.answered status)
      guesses := if changed.failedLogins = 0 then 0 else s.guesses }
  else { s with attempts := s.attempts.set i .raised }

def step (s : Lockout) : LockoutEvent → Option Lockout
  | .start now password =>
      if s.clock ≤ now then
        some { s with attempts := s.attempts ++ [.started now password], clock := now }
      else none
  | .read i time =>
      match s.attempts[i]? with
      | some (.started now password) =>
          if s.clock ≤ time then
            some (s.decided i time (authenticateWithLockout policy verifyPassword now password s.row))
          else none
      | _ => none
  | .commit i =>
      match s.attempts[i]? with
      | some (.deciding read changed status) => some (s.committed i read changed status)
      | _ => none

/-- The account as `create` leaves it. -/
def init (row : User) : Lockout := ⟨{ row with failedLogins := 0, lockedUntil := none }, [], 0, 0⟩

/-! ## Counting every guess -/

/-- The attempt checks a password, and it is wrong. -/
def wrongPassword (now : Int) (password : String) (u : User) : Bool :=
  u.isActive && !u.lockedUntil.any (now < ·) && !verifyPassword password u.passwordHash

/-- No wrong password is checked while another one waits to be counted or
where the lock would not be a date, and the count fits its column. -/
def timely (s : Lockout) : LockoutEvent → Bool
  | .start .. => true
  | .read i _ =>
      match s.attempts[i]? with
      | some (.started now password) =>
          !wrongPassword verifyPassword now password s.row
            || (!s.attempts.any Attempt.uncounted
              && ((policy.lockUntil now).isSome
                || decide (((s.row.failedLogins + 1 : Nat) : Int) < policy.maxAttempts)))
      | _ => true
  | .commit i =>
      match s.attempts[i]? with
      | some (.deciding _ changed _) => changed.storable
      | _ => true

variable {policy verifyPassword}

/-- All an attempt can decide. -/
theorem decision_cases (now : Int) (password : String) (u : User) :
    (∃ status, status ≠ .ok ∧ authenticateWithLockout policy verifyPassword now password u
        = .answer status)
      ∨ (u.lockedUntil.any (now < ·) = false
        ∧ (authenticateWithLockout policy verifyPassword now password u = .answer .ok
          ∨ ∃ changed, changed.failedLogins = 0
            ∧ authenticateWithLockout policy verifyPassword now password u = .commit changed .ok))
      ∨ (wrongPassword verifyPassword now password u = true
        ∧ ((∃ changed, policy.maxAttempts ≤ (u.failedLogins + 1 : Nat) ∧ changed.failedLogins = 0
            ∧ authenticateWithLockout policy verifyPassword now password u = .commit changed .bad)
          ∨ (∃ changed, ((u.failedLogins + 1 : Nat) : Int) < policy.maxAttempts
            ∧ changed.failedLogins = u.failedLogins + 1
            ∧ authenticateWithLockout policy verifyPassword now password u = .commit changed .bad)
          ∨ (policy.maxAttempts ≤ (u.failedLogins + 1 : Nat) ∧ policy.lockUntil now = none
            ∧ authenticateWithLockout policy verifyPassword now password u = .overflowError))) := by
  unfold authenticateWithLockout
  by_cases hactive : u.isActive = true
  · by_cases hlocked : u.lockedUntil.any (now < ·) = true
    · exact .inl ⟨.locked, by decide, by simp [hactive, hlocked]⟩
    · simp only [hactive, hlocked, Bool.not_true, Bool.false_eq_true, if_false]
      rw [Bool.not_eq_true] at hlocked
      -- active and not locked: the password decides
      by_cases hverify : verifyPassword password u.passwordHash = true
      · refine .inr (.inl ⟨trivial, ?_⟩)
        simp only [hverify, if_true]
        split
        · exact .inr ⟨_, rfl, rfl⟩
        · exact .inl rfl
      · have hwrong : wrongPassword verifyPassword now password u = true := by
          simp [wrongPassword, hactive, hlocked, hverify]
        refine .inr (.inr ⟨hwrong, ?_⟩)
        simp only [hverify, Bool.false_eq_true, if_false]
        split
        · rename_i hmax
          -- the last attempt allowed locks the account, if the end of the lock is a date
          cases hlock : policy.lockUntil now with
          | some t => exact .inl ⟨_, hmax, rfl, rfl⟩
          | none => exact .inr (.inr ⟨hmax, rfl, rfl⟩)
        · rename_i hmax
          exact .inr (.inl ⟨_, by omega, rfl, rfl⟩)
  · exact .inl ⟨.bad, by decide, by simp [hactive]⟩

/-- What is known of a wrong password that waits to be counted. -/
structure Counts (policy : LockoutPolicy) (guesses : Nat) (read changed : User) : Prop where
  guesses : guesses ≤ read.failedLogins + 1
  below : (read.failedLogins : Int) < policy.maxAttempts
  changed : changed.failedLogins = 0 ∨ (changed.failedLogins = read.failedLogins + 1
    ∧ (changed.failedLogins : Int) < policy.maxAttempts)

/-- No guess is missing in `failed_logins`, but for one that is about to
be counted. -/
structure Exact (policy : LockoutPolicy) (s : Lockout) : Prop where
  below : (s.row.failedLogins : Int) < policy.maxAttempts
  counted : s.attempts.any Attempt.uncounted = false → s.guesses ≤ s.row.failedLogins
  single : ∀ {i j : Nat} {a b : Attempt}, s.attempts[i]? = some a → s.attempts[j]? = some b →
    a.uncounted = true → b.uncounted = true → i = j
  pending : ∀ {i : Nat} {read changed : User}, s.attempts[i]? = some (.deciding read changed .bad) →
    Counts policy s.guesses read changed
  reset : ∀ {i : Nat} {read changed : User} {status : LoginStatus},
    s.attempts[i]? = some (.deciding read changed status) → status ≠ .bad →
    changed.failedLogins = 0

theorem any_uncounted_eq_false {attempts : List Attempt} :
    attempts.any Attempt.uncounted = false ↔ ∀ a ∈ attempts, a.uncounted = false := by
  simp

/-- At most one attempt stays uncounted, if the one that moves on is the
only one or is counted. -/
theorem Exact.single_set {s : Lockout} (h : Exact policy s) {i : Nat} {x : Attempt}
    (hx : x.uncounted = true → s.attempts.any Attempt.uncounted = false) {j k : Nat} {a b : Attempt}
    (ha : (s.attempts.set i x)[j]? = some a) (hb : (s.attempts.set i x)[k]? = some b)
    (hua : a.uncounted = true) (hub : b.uncounted = true) : j = k := by
  have hnone : ∀ {m : Nat} {c : Attempt}, x.uncounted = true → s.attempts[m]? = some c →
      c.uncounted = true → False := by
    intro m c hux hc huc
    have := any_uncounted_eq_false.mp (hx hux) c (List.mem_of_getElem? hc)
    rw [huc] at this
    cases this
  rcases Slots.getElem?_set_or ha with ⟨hij, hax⟩ | ⟨-, ha'⟩
  · rcases Slots.getElem?_set_or hb with ⟨hik, -⟩ | ⟨-, hb'⟩
    · exact hij.symm.trans hik
    · exact (hnone (hax ▸ hua) hb' hub).elim
  · rcases Slots.getElem?_set_or hb with ⟨-, hbx⟩ | ⟨-, hb'⟩
    · exact (hnone (hbx ▸ hub) ha' hua).elim
    · exact h.single ha' hb' hua hub

/-- One attempt moves on to `x`. -/
theorem Exact.moves {s s' : Lockout} (h : Exact policy s) {i : Nat} {x : Attempt}
    (hattempts : s'.attempts = s.attempts.set i x)
    (hbelow : (s'.row.failedLogins : Int) < policy.maxAttempts)
    (hcounted : (s.attempts.set i x).any Attempt.uncounted = false →
      s'.guesses ≤ s'.row.failedLogins)
    (hsingle : x.uncounted = true → s.attempts.any Attempt.uncounted = false)
    (hself : ∀ read changed, x = .deciding read changed .bad →
      Counts policy s'.guesses read changed)
    (hothers : ∀ j read changed, i ≠ j → s.attempts[j]? = some (.deciding read changed .bad) →
      Counts policy s'.guesses read changed)
    (hreset : ∀ read changed status, x = .deciding read changed status → status ≠ .bad →
      changed.failedLogins = 0) : Exact policy s' where
  below := hbelow
  counted hall := hcounted (hattempts ▸ hall)
  single := by
    rw [hattempts]
    exact h.single_set hsingle
  pending := by
    intro j read changed hj
    rw [hattempts] at hj
    rcases Slots.getElem?_set_or hj with ⟨-, hx⟩ | ⟨hij, hj'⟩
    · exact hself read changed hx.symm
    · exact hothers j read changed hij hj'
  reset := by
    intro j read changed status hj hne
    rw [hattempts] at hj
    rcases Slots.getElem?_set_or hj with ⟨-, hx⟩ | ⟨-, hj'⟩
    · exact hreset read changed status hx.symm hne
    · exact h.reset hj' hne

/-- An attempt that was counted, or not due to be, moves on: if all are
counted then, they were before. -/
theorem any_uncounted_of_set {attempts : List Attempt} {i : Nat} {x a : Attempt}
    (ha : attempts[i]? = some a) (hcounted : a.uncounted = false)
    (h : (attempts.set i x).any Attempt.uncounted = false) :
    attempts.any Attempt.uncounted = false := by
  refine any_uncounted_eq_false.mpr fun b hb => ?_
  obtain ⟨j, hj⟩ := List.mem_iff_getElem?.mp hb
  by_cases hij : i = j
  · subst hij
    rw [ha] at hj
    exact Option.some.inj hj ▸ hcounted
  · rw [← List.getElem?_set_ne (a := x) hij] at hj
    exact any_uncounted_eq_false.mp h b (List.mem_of_getElem? hj)

theorem Exact.start {s : Lockout} (h : Exact policy s) (now : Int) (password : String) :
    Exact policy
      { s with attempts := s.attempts ++ [.started now password], clock := now } := by
  have hold : ∀ {i : Nat} {a : Attempt}, (s.attempts ++ [.started now password])[i]? = some a →
      s.attempts[i]? = some a ∨ a = .started now password := by
    intro i a ha
    rw [List.getElem?_append] at ha
    split at ha
    · exact .inl ha
    · exact .inr (by simpa using List.mem_of_getElem? ha)
  refine ⟨h.below, fun hall => h.counted ?_, ?_, ?_, ?_⟩
  · rw [List.any_append, Bool.or_eq_false_iff] at hall
    exact hall.1
  · intro i j a b ha hb hua hub
    rcases hold ha with ha | rfl
    · rcases hold hb with hb | rfl
      · exact h.single ha hb hua hub
      · cases hub
    · cases hua
  · intro i read changed hi
    rcases hold hi with hi | hi
    · exact h.pending hi
    · cases hi
  · intro i read changed status hi hstatus
    rcases hold hi with hi | hi
    · exact h.reset hi hstatus
    · cases hi

/-- What the checks say of a wrong password that is checked. -/
theorem of_timely_read {s : Lockout} {i : Nat} {time now : Int} {password : String}
    (hC : timely policy verifyPassword s (.read i time) = true)
    (hi : s.attempts[i]? = some (.started now password))
    (hwrong : wrongPassword verifyPassword now password s.row = true) :
    s.attempts.any Attempt.uncounted = false
      ∧ (policy.lockUntil now = none →
        ((s.row.failedLogins + 1 : Nat) : Int) < policy.maxAttempts) := by
  simp only [timely, hi, hwrong, Bool.not_true, Bool.false_or, Bool.and_eq_true, Bool.not_eq_true',
    Bool.or_eq_true, decide_eq_true_eq] at hC
  obtain ⟨hnone, hlock⟩ := hC
  refine ⟨hnone, fun hoverflow => ?_⟩
  rcases hlock with hsome | hlt
  · rw [hoverflow] at hsome
    cases hsome
  · exact hlt

theorem Exact.read {s : Lockout} (h : Exact policy s) {i : Nat} {time now : Int} {password : String}
    (hC : timely policy verifyPassword s (.read i time) = true)
    (hi : s.attempts[i]? = some (.started now password)) :
    Exact policy
      (s.decided i time (authenticateWithLockout policy verifyPassword now password s.row)) := by
  rcases decision_cases now password s.row with
    ⟨status, hstatus, heq⟩ | ⟨-, heq | ⟨changed, hzero, heq⟩⟩ | ⟨hwrong, hcases⟩
  · rw [heq]
    have hguesses : (s.decided i time (.answer status)).guesses = s.guesses := if_neg hstatus
    refine h.moves rfl h.below (fun hall => ?_) (fun hu => by cases hu) (fun _ _ hx => by cases hx)
      (fun j read changed _ hj => ?_) fun _ _ _ hx => by cases hx
    · rw [hguesses]
      exact h.counted (any_uncounted_of_set hi rfl hall)
    · rw [hguesses]
      exact h.pending hj
  · rw [heq]
    refine h.moves rfl h.below (fun _ => Nat.zero_le _) (fun hu => by cases hu)
      (fun _ _ hx => by cases hx) (fun j read changed _ hj => ?_) fun _ _ _ hx => by cases hx
    exact ⟨Nat.zero_le _, (h.pending hj).below, (h.pending hj).changed⟩
  · rw [heq]
    refine h.moves rfl h.below (fun hall => h.counted (any_uncounted_of_set hi rfl hall))
      (fun hu => by cases hu) (fun _ _ hx => by cases hx) (fun j read changed _ hj => h.pending hj)
      fun read changed' status hx _ => ?_
    cases hx
    exact hzero
  · obtain ⟨hnone, hlock⟩ := of_timely_read hC hi hwrong
    have hguesses := h.counted hnone
    -- the one attempt that is now to be counted
    have hcount : ∀ changed : User, (changed.failedLogins = 0
          ∨ (changed.failedLogins = s.row.failedLogins + 1
            ∧ (changed.failedLogins : Int) < policy.maxAttempts)) →
        Exact policy (s.decided i time (.commit changed .bad)) := by
      intro changed hchanged
      refine h.moves rfl h.below (fun hall => ?_) (fun _ => hnone) (fun read changed' hx => ?_)
        (fun j read changed' _ hj => ?_) fun read changed' status hx hne => ?_
      · have hmem : Attempt.deciding s.row changed .bad
            ∈ s.attempts.set i (.deciding s.row changed .bad) :=
          List.mem_set (List.getElem?_eq_some_iff.mp hi).1 _
        have := any_uncounted_eq_false.mp hall _ hmem
        cases this
      · cases hx
        exact ⟨Nat.succ_le_succ hguesses, h.below, hchanged⟩
      · have := any_uncounted_eq_false.mp hnone _ (List.mem_of_getElem? hj)
        cases this
      · cases hx
        exact absurd rfl hne
    rcases hcases with ⟨changed, -, hzero, heq⟩ | ⟨changed, hlt, hsucc, heq⟩ | ⟨hge, hoverflow, -⟩
    · rw [heq]
      exact hcount changed (.inl hzero)
    · rw [heq]
      exact hcount changed (.inr ⟨hsucc, hsucc ▸ hlt⟩)
    · have := hlock hoverflow
      omega

/-- What a commit leaves in `failed_logins`. -/
theorem written_failedLogins (row read changed : User) :
    (row.written read changed).failedLogins = row.failedLogins
        ∧ changed.failedLogins = read.failedLogins
      ∨ (row.written read changed).failedLogins = changed.failedLogins := by
  by_cases hsame : changed.failedLogins = read.failedLogins
  · exact .inl ⟨by simp [User.written, hsame], hsame⟩
  · exact .inr (by simp [User.written, hsame])

theorem Exact.commit {s : Lockout} (h : Exact policy s) {i : Nat} {read changed : User}
    {status : LoginStatus} (hi : s.attempts[i]? = some (.deciding read changed status))
    (hstorable : changed.storable = true) :
    Exact policy (s.committed i read changed status) := by
  have hcase : changed.failedLogins = 0 ∨ (status = .bad ∧ s.guesses ≤ changed.failedLogins
      ∧ changed.failedLogins = read.failedLogins + 1
      ∧ (changed.failedLogins : Int) < policy.maxAttempts) := by
    by_cases hbad : status = .bad
    · subst hbad
      have hcounts := h.pending hi
      rcases hcounts.changed with hzero | ⟨hsucc, hlt⟩
      · exact .inl hzero
      · exact .inr ⟨rfl, by rw [hsucc]; exact hcounts.guesses, hsucc, hlt⟩
    · exact .inl (h.reset hi hbad)
  have hwritten := written_failedLogins s.row read changed
  have hbelow := h.below
  rw [committed, if_pos hstorable]
  refine h.moves rfl ?_ (fun _ => ?_) (fun hu => by cases hu) (fun _ _ hx => by cases hx)
    (fun j read' changed' hij hj => ?_) fun _ _ _ hx => by cases hx
  · show ((s.row.written read changed).failedLogins : Int) < policy.maxAttempts
    omega
  · show (if changed.failedLogins = 0 then 0 else s.guesses)
      ≤ (s.row.written read changed).failedLogins
    split <;> omega
  · have hcounts := h.pending hj
    rcases hcase with hzero | ⟨rfl, -⟩
    · refine ⟨?_, hcounts.below, hcounts.changed⟩
      simp [hzero]
    · exact (hij (h.single hi hj rfl rfl)).elim

theorem Exact.step {s s' : Lockout} {e : LockoutEvent} (h : Exact policy s)
    (hC : timely policy verifyPassword s e = true)
    (hs : step policy verifyPassword s e = some s') : Exact policy s' := by
  cases e with
  | start now password =>
      simp only [Lockout.step] at hs
      split at hs
      · cases hs
        exact h.start now password
      · cases hs
  | read i time =>
      simp only [Lockout.step] at hs
      split at hs
      · rename_i now password hi
        split at hs
        · cases hs
          exact h.read hC hi
        · cases hs
      · cases hs
  | commit i =>
      simp only [Lockout.step] at hs
      split at hs
      · rename_i read changed status hi
        cases hs
        simp only [timely, hi] at hC
        exact h.commit hi hC
      · cases hs

/-- The guesses are within the bound, whether one of them is about to be
counted or not. -/
theorem Exact.guesses_le {s : Lockout} (h : Exact policy s) :
    (s.guesses : Int) ≤ policy.maxAttempts := by
  have hbelow := h.below
  cases hall : s.attempts.any Attempt.uncounted with
  | false =>
      have := h.counted hall
      omega
  | true =>
      obtain ⟨a, ha, hua⟩ := List.any_eq_true.mp hall
      obtain ⟨i, hi⟩ := List.mem_iff_getElem?.mp ha
      cases a with
      | deciding read changed status =>
          cases status with
          | bad =>
              have hcounts := h.pending hi
              have hb := hcounts.below
              have hg := hcounts.guesses
              omega
          | ok => cases hua
          | locked => cases hua
      | started now password => cases hua
      | answered status => cases hua
      | raised => cases hua

/-! ## While the account is locked -/

/-- Attempts took the time before now. -/
def Past (s : Lockout) : Prop :=
  ∀ (i : Nat) (now : Int) (password : String), s.attempts[i]? = some (.started now password) →
    now ≤ s.clock

/-- An attempt that moves on at `i` moves from being started or deciding. -/
theorem step_cases {s s' : Lockout} {e : LockoutEvent}
    (hs : step policy verifyPassword s e = some s') :
    (∃ now password, s.clock ≤ now ∧ s'.attempts = s.attempts ++ [.started now password]
        ∧ s'.clock = now)
      ∨ ∃ i x, s'.attempts = s.attempts.set i x ∧ s.clock ≤ s'.clock
        ∧ (∀ now password, x ≠ .started now password)
        ∧ ∀ status, s.attempts[i]? ≠ some (.answered status) := by
  cases e with
  | start now password =>
      simp only [Lockout.step] at hs
      split at hs
      · cases hs
        exact .inl ⟨now, password, ‹_›, rfl, rfl⟩
      · cases hs
  | read i time =>
      simp only [Lockout.step] at hs
      split at hs
      · rename_i now password hi
        split at hs
        · cases hs
          cases authenticateWithLockout policy verifyPassword now password s.row with
          | answer status => exact .inr ⟨i, _, rfl, ‹_›, nofun, by simp [hi]⟩
          | commit changed status => exact .inr ⟨i, _, rfl, ‹_›, nofun, by simp [hi]⟩
          | overflowError => exact .inr ⟨i, _, rfl, ‹_›, nofun, by simp [hi]⟩
        · cases hs
      · cases hs
  | commit i =>
      simp only [Lockout.step] at hs
      split at hs
      · rename_i read changed status hi
        cases hs
        rw [committed]
        split
        · exact .inr ⟨i, _, rfl, le_refl _, nofun, by simp [hi]⟩
        · exact .inr ⟨i, _, rfl, le_refl _, nofun, by simp [hi]⟩
      · cases hs

theorem Past.step {s s' : Lockout} {e : LockoutEvent} (h : s.Past)
    (hs : step policy verifyPassword s e = some s') : s'.Past := by
  intro i now password hi
  rcases step_cases hs with ⟨now', password', hle, hattempts, hclock⟩ | ⟨j, x, hattempts, hle, hx, -⟩
  · rw [hattempts, List.getElem?_append] at hi
    split at hi
    · exact (h i now password hi).trans (hclock ▸ hle)
    · have hlast := List.mem_of_getElem? hi
      rw [List.mem_singleton, Attempt.started.injEq] at hlast
      omega
  · rw [hattempts] at hi
    rcases Slots.getElem?_set_or hi with ⟨-, rfl⟩ | ⟨-, hi⟩
    · exact absurd rfl (hx _ _)
    · exact (h i now password hi).trans hle

/-- An answer is given once. -/
theorem answered_run {s t : Lockout} {events : List LockoutEvent}
    (hrun : run (step policy verifyPassword) s events = some t) {i : Nat} {status : LoginStatus}
    (hi : s.attempts[i]? = some (.answered status)) : t.attempts[i]? = some (.answered status) := by
  refine run_invariant (I := fun s => s.attempts[i]? = some (.answered status))
    (fun s e s' hi hs => ?_) hrun hi
  rcases step_cases hs with ⟨now, password, -, hattempts, -⟩ | ⟨j, x, hattempts, -, -, hj⟩
  · rw [hattempts, List.getElem?_append_left (List.getElem?_eq_some_iff.mp hi).1]
    exact hi
  · have hne : j ≠ i := by
      rintro rfl
      exact hj status hi
    rw [hattempts, List.getElem?_set_ne hne]
    exact hi

/-- An attempt that reads the row of a locked account is turned down. -/
theorem read_locked {s s' : Lockout} (h : s.Past) {i : Nat} {time until_ : Int}
    (hlocked : s.row.lockedUntil = some until_) (htime : time < until_)
    (hs : step policy verifyPassword s (.read i time) = some s') :
    ∃ status, status ≠ .ok ∧ s'.attempts[i]? = some (.answered status) := by
  simp only [Lockout.step] at hs
  split at hs
  · rename_i now password hi
    split at hs
    · cases hs
      have hnow : now < until_ := lt_of_le_of_lt ((h i now password hi).trans ‹_›) htime
      have hany : s.row.lockedUntil.any (now < ·) = true := by simp [hlocked, hnow]
      have hlt := (List.getElem?_eq_some_iff.mp hi).1
      rcases decision_cases now password s.row with
        ⟨status, hstatus, heq⟩ | ⟨hfree, -⟩ | ⟨hwrong, -⟩
      · rw [heq]
        exact ⟨status, hstatus, List.getElem?_set_self hlt⟩
      · rw [hany] at hfree
        cases hfree
      · simp [wrongPassword, hany] at hwrong
    · cases hs
  · cases hs

/-- **The lockout bounds password guessing where guesses are counted one
after the other**: in every run in which a wrong password is checked only
once the one before is counted, and each lock is a date and each count
fits its column, at most `max_attempts` are checked before a login
succeeds or the account is locked. An attempt that reads the account
while it is locked never succeeds, in any run. -/
theorem lockout_bounds_guesses (hmax : 1 ≤ policy.maxAttempts) (row : User)
    {events : List LockoutEvent} {s : Lockout}
    (hrun : run (step policy verifyPassword) (init row) events = some s) :
    (Meets (step policy verifyPassword) (fun s e => timely policy verifyPassword s e = true)
        (init row) events → (s.guesses : Int) ≤ policy.maxAttempts)
      ∧ ∀ (i : Nat) (time until_ : Int) (s' : Lockout), s.row.lockedUntil = some until_ →
          time < until_ → step policy verifyPassword s (.read i time) = some s' →
          ∀ (later : List LockoutEvent) (t : Lockout),
            run (step policy verifyPassword) s' later = some t →
              ∃ status, status ≠ .ok ∧ t.attempts[i]? = some (.answered status) := by
  constructor
  · intro hmeets
    have hinit : Exact policy (init row) :=
      ⟨lt_of_lt_of_le Int.zero_lt_one hmax, fun _ => le_refl _, by simp [init], by simp [init],
        by simp [init]⟩
    exact (run_invariant_of_meets (fun _ _ _ h hC hs => h.step hC hs) hrun hmeets hinit).guesses_le
  · intro i time until_ s' hlocked htime hs later t hlater
    have hinit : (init row).Past := by simp [Past, init]
    have hpast : s.Past := run_invariant (fun _ _ _ => Past.step) hrun hinit
    obtain ⟨status, hne, hi⟩ := read_locked hpast hlocked htime hs
    exact ⟨status, hne, answered_run hlater hi⟩

/-! ### Guesses at Carol's password -/

/-- A password is its own hash here. -/
def sameText (password hash : String) : Bool := password = hash

def carol : User where
  id := 1
  username := "carol"
  passwordHash := "secret"
  role := "user"
  email := some "carol@x.fr"
  auditedEmails := []
  displayName := ""
  isActive := true
  failedLogins := 0
  lockedUntil := none

/-- Of one attempt allowed, two are checked: the second reads the row
before the first has committed. -/
theorem lockout_misses_guess :
    (1 : Int) ≤ (LockoutPolicy.mk 1 15).maxAttempts
      ∧ (run (step ⟨1, 15⟩ sameText) (init carol)
        [.start 0 "azerty", .start 0 "123456", .read 0 0, .read 1 0]).map
          (fun s => decide ((LockoutPolicy.mk 1 15).maxAttempts < s.guesses)) = some true := by
  decide +kernel

/-- Two wrong passwords in turn, then the right one too late. -/
def carolLockedOut : List LockoutEvent :=
  [.start 0 "azerty", .read 0 1, .commit 0, .start 2 "123456", .read 1 3, .commit 1,
    .start 4 "secret"]

/-- One guess after the other: the account is locked in time, and the
right password is turned down while it is. -/
theorem lockout_bounds_guesses_carol :
    ∃ s s' : Lockout, run (step ⟨2, 15⟩ sameText) (init carol) carolLockedOut = some s
      ∧ step ⟨2, 15⟩ sameText s (.read 2 5) = some s' ∧ (s.guesses : Int) ≤ 2
      ∧ ∃ status, status ≠ .ok ∧ s'.attempts[2]? = some (.answered status) := by
  have hmeets : Meets (step ⟨2, 15⟩ sameText) (fun s e => timely ⟨2, 15⟩ sameText s e = true)
      (init carol) carolLockedOut :=
    meets_of_check (fun _ _ h => h) (by decide +kernel)
  have hend : ∃ s s' : Lockout, run (step ⟨2, 15⟩ sameText) (init carol) carolLockedOut = some s
      ∧ s.row.lockedUntil = some 900000002
      ∧ step ⟨2, 15⟩ sameText s (.read 2 5) = some s' :=
    ⟨_, _, rfl, by decide +kernel, rfl⟩
  obtain ⟨s, s', hrun, hlocked, hread⟩ := hend
  obtain ⟨hbound, hdenied⟩ := lockout_bounds_guesses (by decide) carol hrun
  exact ⟨s, s', hrun, hread, hbound hmeets,
    hdenied 2 5 900000002 s' hlocked (by decide) hread [] s' rfl⟩

end Lockout
end MailArchiver

import MailArchiver.Api.Users
import MailArchiver.Lib.Transition

/-!
# Api — Admins

`POST /users`, `PATCH /users/{user_id}/active` and `DELETE
/users/{user_id}` of `api/main.py`, by requests that run at the same time.
Each lists the accounts, counts the administrators where that is needed
and writes, in transactions of their own; what was counted can be out of
date at the write. `PROTECTED_ADMIN_USERNAME` is that of the process that
serves the request.
-/

namespace MailArchiver

open Transition

/-- The requests, with what they carry; `hash` is drawn by bcrypt. -/
inductive AccountRequest where
  | create (username password role displayName : String) (email : Option String)
      (auditedEmails : Option (List String)) (hash : String)
  | setActive (userId : Nat) (isActive : Bool)
  | delete (userId : Nat)
  deriving DecidableEq, Repr

/-- The answer to a request: done, an `HTTPException`, or an exception
that is not caught. -/
inductive HttpAnswer where
  | ok
  | error (status : Nat) (detail : String)
  | raised (e : PyError)
  deriving DecidableEq, Repr

inductive AccountPhase where
  | listing
  | counting
  | writing
  | answered (answer : HttpAnswer)
  deriving DecidableEq, Repr

structure AccountCall where
  protectedName : String
  request : AccountRequest
  phase : AccountPhase
  deriving DecidableEq, Repr

/-- The checks on an account that is to be deactivated or deleted. -/
def checkTarget (protectedName protectedDetail : String) (target : User) : AccountPhase :=
  if target.username = protectedName then .answered (.error 400 protectedDetail)
  else if target.role = "admin" then .counting
  else .writing

/-- After `_users.list()`. -/
def AccountRequest.listed (protectedName : String) (users : UserTable) :
    AccountRequest → AccountPhase
  | .create .. => .writing
  | .setActive userId isActive =>
      match users.get userId with
      | none => .answered (.error 404 "utilisateur introuvable")
      | some target =>
          if isActive then .writing
          else checkTarget protectedName
            "le compte administrateur principal ne peut pas être désactivé" target
  | .delete userId =>
      match users.get userId with
      | none => .answered (.error 404 "utilisateur introuvable")
      | some target =>
          checkTarget protectedName
            "le compte administrateur principal ne peut pas être supprimé" target

/-- The refusal to take the last administrator. -/
def AccountRequest.lastDetail : AccountRequest → String
  | .delete _ => "impossible de supprimer le dernier administrateur"
  | _ => "impossible de désactiver le dernier administrateur actif"

/-- After `_users.count_admins()`. -/
def AccountRequest.counted (users : UserTable) (request : AccountRequest) : AccountPhase :=
  if users.countAdmins ≤ 1 then .answered (.error 400 request.lastDetail) else .writing

variable (strip lower : String → String)

/-- The transaction that writes. -/
def AccountRequest.write (users : UserTable) : AccountRequest → Except PyError UserTable
  | .create username password role displayName email auditedEmails hash =>
      createUser strip lower users username password role displayName email auditedEmails hash
  | .setActive userId isActive => MailArchiver.setActive users userId isActive
  | .delete userId => deleteUser users userId

/-- `create_user` turns a `ValueError` into an answer; the other two let
a `KeyError` pass. -/
def answerOf : PyError → HttpAnswer
  | .valueError detail => .error 400 detail
  | e => .raised e

structure Accounts where
  users : UserTable
  calls : List AccountCall

inductive AccountEvent where
  | receive (protectedName : String) (request : AccountRequest)
  /-- The next transaction of a request. -/
  | advance (i : Nat)
  deriving DecidableEq, Repr

namespace Accounts

def withPhase (s : Accounts) (i : Nat) (c : AccountCall) (phase : AccountPhase) : Accounts :=
  { s with calls := s.calls.set i { c with phase := phase } }

def advance (s : Accounts) (i : Nat) (c : AccountCall) : Option Accounts :=
  match c.phase with
  | .listing => some (s.withPhase i c (c.request.listed c.protectedName s.users))
  | .counting => some (s.withPhase i c (c.request.counted s.users))
  | .writing =>
      match c.request.write strip lower s.users with
      | .ok users => some ({ s with users := users }.withPhase i c (.answered .ok))
      | .error e => some (s.withPhase i c (.answered (answerOf e)))
  | .answered _ => none

def step (s : Accounts) : AccountEvent → Option Accounts
  | .receive protectedName request =>
      some { s with
        calls := s.calls ++ [⟨protectedName, request,
          match request with | .create .. => .writing | _ => .listing⟩] }
  | .advance i =>
      match s.calls[i]? with
      | some c => s.advance strip lower i c
      | none => none

end Accounts

/-! ## Which writes leave an administrator -/

/-- There is an active administrator. -/
def UserTable.HasAdmin (t : UserTable) : Prop := ∃ u ∈ t.rows, u.isActiveAdmin = true

/-- The account a request takes away. -/
def AccountRequest.takesOff : AccountRequest → Option Nat
  | .create .. => none
  | .setActive userId isActive => if isActive then none else some userId
  | .delete userId => some userId

/-- The check on the last administrator would pass at the write. -/
def Accounts.checkHolds (s : Accounts) : AccountEvent → Bool
  | .receive .. => true
  | .advance i =>
      match s.calls[i]? with
      | some ⟨_, request, .writing⟩ =>
          match request.takesOff with
          | some userId =>
              !(s.users.get userId).any User.isActiveAdmin || decide (1 < s.users.countAdmins)
          | none => true
      | _ => true

namespace UserTable

variable {t t' : UserTable} {userId : Nat}

theorem get_eq_some {u : User} : t.get userId = some u ↔ u ∈ t.rows ∧ u.id = userId := by
  constructor
  · intro h
    exact ⟨List.mem_of_find?_eq_some h, by simpa using List.find?_some h⟩
  · rintro ⟨hu, rfl⟩
    exact Table.find?_key t.unique hu

/-- Besides one account there is an administrator, unless that account is
the only one. -/
theorem others_iff (hadmin : t.HasAdmin) :
    (∃ v ∈ t.rows, v.id ≠ userId ∧ v.isActiveAdmin = true) ↔
      ((t.get userId).any User.isActiveAdmin = true → 1 < t.countAdmins) := by
  cases hget : t.get userId with
  | none =>
      simp only [Option.any_none, Bool.false_eq_true, false_implies, iff_true]
      obtain ⟨v, hv, hva⟩ := hadmin
      refine ⟨v, hv, fun heq => ?_, hva⟩
      rw [get_eq_some.mpr ⟨hv, heq⟩] at hget
      cases hget
  | some u =>
      obtain ⟨hu, rfl⟩ := get_eq_some.mp hget
      have hsplit : t.countAdmins
          = [u].countP User.isActiveAdmin
            + (t.rows.filter fun v => !decide (v.id = u.id)).countP User.isActiveAdmin := by
        rw [countAdmins, List.countP_eq_countP_filter_add t.rows _ fun v => decide (v.id = u.id),
          Table.filter_key t.unique hu]
      have hothers : (∃ v ∈ t.rows, v.id ≠ u.id ∧ v.isActiveAdmin = true)
          ↔ 0 < (t.rows.filter fun v => !decide (v.id = u.id)).countP User.isActiveAdmin := by
        simp [List.countP_pos_iff, and_assoc]
      rw [hothers, hsplit, Option.any_some, List.countP_singleton]
      by_cases hua : u.isActiveAdmin = true
      · simp [hua]
      · obtain ⟨v, hv, hva⟩ := hadmin
        have hne : v.id ≠ u.id := by
          intro heq
          have := List.inj_on_of_nodup_map t.unique hv hu heq
          exact hua (this ▸ hva)
        simpa [hua] using hothers.mp ⟨v, hv, hne, hva⟩

theorem hasAdmin_insert {row : Nat → User} {hrow : ∀ id, (row id).id = id} (h : t.HasAdmin) :
    (t.insert row hrow).HasAdmin := by
  obtain ⟨u, hu, hadmin⟩ := h
  exact ⟨u, List.mem_append_left _ hu, hadmin⟩

theorem hasAdmin_remove :
    (t.remove userId).HasAdmin ↔ ∃ v ∈ t.rows, v.id ≠ userId ∧ v.isActiveAdmin = true := by
  simp [HasAdmin, remove, and_assoc]

theorem hasAdmin_update {f : User → User} {hf : ∀ u, (f u).id = u.id} :
    (t.update userId f hf).HasAdmin ↔ ∃ v ∈ t.rows,
      (v.id = userId ∧ (f v).isActiveAdmin = true) ∨ (v.id ≠ userId ∧ v.isActiveAdmin = true) := by
  simp only [HasAdmin, update, List.mem_map, exists_exists_and_eq_and]
  refine exists_congr fun v => and_congr_right fun _ => ?_
  by_cases hv : v.id = userId
  · simp [hv]
  · simp [hv]

end UserTable
variable {strip lower : String → String}

/-- A write leaves an administrator iff one is left besides the account
it takes away. -/
theorem hasAdmin_write {t t' : UserTable} {request : AccountRequest} (h : t.HasAdmin)
    (hw : request.write strip lower t = .ok t') :
    t'.HasAdmin ↔ ∀ userId, request.takesOff = some userId →
      ∃ v ∈ t.rows, v.id ≠ userId ∧ v.isActiveAdmin = true := by
  cases request with
  | create username password role displayName email auditedEmails hash =>
      obtain ⟨row, hrow, rfl⟩ := createUser_ok hw
      simp [UserTable.hasAdmin_insert h, AccountRequest.takesOff]
  | setActive userId isActive =>
      simp only [AccountRequest.write, setActive] at hw
      split at hw
      · cases hw
      · cases hw
        rw [UserTable.hasAdmin_update]
        cases isActive with
        | false => simp [AccountRequest.takesOff, User.isActiveAdmin]
        | true =>
            obtain ⟨v, hv, hadmin⟩ := h
            have hrole : v.role = "admin" ∧ v.isActive = true := by
              simpa [User.isActiveAdmin] using hadmin
            simp only [AccountRequest.takesOff, if_true, reduceCtorEq, false_implies, implies_true,
              iff_true]
            refine ⟨v, hv, ?_⟩
            by_cases heq : v.id = userId
            · exact .inl ⟨heq, by simp [User.isActiveAdmin, hrole.1]⟩
            · exact .inr ⟨heq, hadmin⟩
  | delete userId =>
      simp only [AccountRequest.write, deleteUser] at hw
      split at hw
      · cases hw
      · cases hw
        simp [UserTable.hasAdmin_remove, AccountRequest.takesOff]

/-- A write fails on an account that is gone. -/
theorem get_of_write_error {t : UserTable} {request : AccountRequest} {e : PyError}
    (hw : request.write strip lower t = .error e) {userId : Nat}
    (htakes : request.takesOff = some userId) : t.get userId = none := by
  cases request with
  | create username password role displayName email auditedEmails hash => cases htakes
  | setActive userId' isActive =>
      cases isActive with
      | false =>
          cases htakes
          cases hget : t.get userId with
          | none => rfl
          | some u => simp [AccountRequest.write, setActive, hget] at hw
      | true => cases htakes
  | delete userId' =>
      cases htakes
      cases hget : t.get userId with
      | none => rfl
      | some u => simp [AccountRequest.write, deleteUser, hget] at hw

namespace Accounts

theorem checkHolds_writing {s : Accounts} {i : Nat} {request : AccountRequest} {name : String}
    (hi : s.calls[i]? = some ⟨name, request, .writing⟩) :
    s.checkHolds (.advance i) = true ↔ ∀ userId, request.takesOff = some userId →
      ((s.users.get userId).any User.isActiveAdmin = true → 1 < s.users.countAdmins) := by
  simp only [checkHolds, hi]
  cases request.takesOff with
  | none => simp
  | some userId =>
      simp only [Option.some.injEq, forall_eq', Bool.or_eq_true, Bool.not_eq_true',
        decide_eq_true_eq]
      rw [imp_iff_not_or, Bool.not_eq_true]

/-- A write that succeeds is the only step that changes the accounts, and
the only one that needs the check. -/
theorem step_users {s s' : Accounts} {e : AccountEvent} (hs : s.step strip lower e = some s') :
    (s'.users = s.users ∧ s.checkHolds e = true)
      ∨ ∃ i request name, e = .advance i ∧ s.calls[i]? = some ⟨name, request, .writing⟩
        ∧ request.write strip lower s.users = .ok s'.users := by
  cases e with
  | receive protectedName request =>
      cases hs
      exact .inl ⟨rfl, rfl⟩
  | advance i =>
      simp only [step] at hs
      split at hs
      · rename_i c hc
        obtain ⟨name, request, phase⟩ := c
        cases phase with
        | listing =>
            cases hs
            exact .inl ⟨rfl, by simp [checkHolds, hc]⟩
        | counting =>
            cases hs
            exact .inl ⟨rfl, by simp [checkHolds, hc]⟩
        | writing =>
            simp only [advance] at hs
            split at hs
            · cases hs
              exact .inr ⟨i, request, name, rfl, hc, ‹_›⟩
            · cases hs
              refine .inl ⟨rfl, (checkHolds_writing hc).mpr fun userId htakes => ?_⟩
              rw [get_of_write_error ‹_› htakes]
              simp
        | answered answer => cases hs
      · cases hs

/-- One step leaves an administrator iff the check holds at it. -/
theorem hasAdmin_step {s s' : Accounts} {e : AccountEvent} (h : s.users.HasAdmin)
    (hs : s.step strip lower e = some s') : s'.users.HasAdmin ↔ s.checkHolds e = true := by
  rcases step_users hs with ⟨husers, hcheck⟩ | ⟨i, request, name, rfl, hi, hw⟩
  · rw [husers]
    exact iff_of_true h hcheck
  · rw [hasAdmin_write h hw, checkHolds_writing hi]
    exact forall_congr' fun userId => forall_congr' fun _ => UserTable.others_iff h

/-- **There is always an active administrator exactly when the check on
the last one would still pass at each write**: for every table with an
active administrator and every interleaving of requests, all states
reached have one iff no account is taken away that is the only active
administrator when it is written. -/
theorem admins_remain_iff {users : UserTable} (hadmin : users.HasAdmin) {events : List AccountEvent}
    {s : Accounts} (hrun : run (step strip lower) ⟨users, []⟩ events = some s) :
    (∀ front back u, events = front ++ back →
        run (step strip lower) ⟨users, []⟩ front = some u → u.users.HasAdmin)
      ↔ Meets (step strip lower) (fun s e => s.checkHolds e = true) ⟨users, []⟩ events :=
  always_iff_meets (I := fun s : Accounts => s.users.HasAdmin) (fun _ _ _ => hasAdmin_step) hrun
    hadmin

/-! ### Two administrators -/

def adminRow (id : Nat) (username : String) : User where
  id := id
  username := username
  passwordHash := ""
  role := "admin"
  email := none
  auditedEmails := []
  displayName := username
  isActive := true
  failedLogins := 0
  lockedUntil := none

def twoAdmins : UserTable where
  rows := [adminRow 1 "ada", adminRow 2 "grace"]
  nextId := 3
  unique := by decide
  fresh := by decide

theorem twoAdmins_hasAdmin : twoAdmins.HasAdmin := ⟨adminRow 1 "ada", by decide, by decide⟩

/-- Each of them deactivates the other: both are counted before either is
written. -/
def eachOther : List AccountEvent :=
  [.receive "admin" (.setActive 1 false), .receive "admin" (.setActive 2 false),
    .advance 0, .advance 1, .advance 0, .advance 1, .advance 0, .advance 1]

theorem admins_all_gone : twoAdmins.HasAdmin
    ∧ (run (step id id) ⟨twoAdmins, []⟩ eachOther).map (fun s => s.users.countAdmins) = some 0 :=
  ⟨twoAdmins_hasAdmin, by decide +kernel⟩

/-- One after the other: the second is refused. -/
def oneAfterOther : List AccountEvent :=
  [.receive "admin" (.setActive 1 false), .advance 0, .advance 0, .advance 0,
    .receive "admin" (.setActive 2 false), .advance 1, .advance 1]

theorem admins_remain_serial : ∃ s, run (step id id) ⟨twoAdmins, []⟩ oneAfterOther = some s
    ∧ ∀ front back u, oneAfterOther = front ++ back →
        run (step id id) ⟨twoAdmins, []⟩ front = some u → u.users.HasAdmin := by
  have hend : ∃ s, run (step id id) ⟨twoAdmins, []⟩ oneAfterOther = some s := ⟨_, rfl⟩
  obtain ⟨s, hrun⟩ := hend
  refine ⟨s, hrun, (admins_remain_iff twoAdmins_hasAdmin hrun).mpr ?_⟩
  exact meets_of_check (fun _ _ h => h) (by decide +kernel)

end Accounts
end MailArchiver

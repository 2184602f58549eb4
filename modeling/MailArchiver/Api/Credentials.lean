import MailArchiver.Api.NormalPerimeter
import MailArchiver.Api.Sessions
import Mathlib.Logic.Function.Basic

/-!
# Api — Credentials

The writes of the API to `users`, and who can log in after any of them
with an account of that table: the local login, without the directory the
route falls back to. Beside the table a book is kept of what was entered: for each account the
password last set and whether it is active. `change_own_password` checks
the old password in one transaction's read and writes the new one at its
commit, so other writes come in between.
-/

namespace MailArchiver

open Transition

/-- bcrypt: a hash verifies the passwords it cannot tell from its own. -/
structure Bcrypt where
  /-- `hash_password(password)`, with the salt it draws. -/
  hashPassword : (password salt : String) → Except PyError String
  verifyPassword : (password hashed : String) → Bool
  /-- What is read of a password. -/
  key : String → Bytes
  verifies : ∀ {password salt hashed : String}, hashPassword password salt = .ok hashed →
    ∀ q, verifyPassword q hashed = true ↔ key q = key password

/-- A write of one transaction. -/
inductive UserWrite where
  | create (username password role displayName : String) (email : Option String)
      (auditedEmails : Option (List String)) (salt : String)
  | setPassword (userId : Nat) (password salt : String)
  | setEmail (userId : Nat) (email : Option String)
  | setAuditedEmails (userId : Nat) (auditedEmails : List String)
  | setActive (userId : Nat) (active : Bool)
  | delete (userId : Nat)
  /-- The commit of `authenticate_with_lockout`, on the row it has read. -/
  | countLogin (read changed : User)
  deriving DecidableEq, Repr

/-- A change of one's own password, checked and not written yet. -/
structure OwnChange where
  userId : Nat
  newPassword : String
  deriving DecidableEq, Repr

inductive CredentialEvent where
  | write (w : UserWrite)
  /-- `change_own_password` up to its check of the old password. -/
  | verifyOld (username oldPassword newPassword : String)
  /-- Its commit. -/
  | writeOwn (i : Nat) (salt : String)
  deriving DecidableEq, Repr

section

variable (B : Bcrypt) (strip lower : String → String)

theorem User.setHash_id (hash : String) (u : User) :
    { u with passwordHash := hash }.id = u.id := rfl

theorem User.written_id (read changed row : User) : (row.written read changed).id = row.id := rfl

/-- The `UPDATE` of a password. -/
def UserTable.setHash (t : UserTable) (userId : Nat) (hash : String) : UserTable :=
  t.update userId (fun u => { u with passwordHash := hash }) (User.setHash_id hash)

/-- `UserRepo.set_password`. -/
def setPassword (t : UserTable) (userId : Nat) (password salt : String) :
    Except PyError UserTable :=
  if password = "" then .error (.valueError "mot de passe requis")
  else
    match t.get userId with
    | none => .error (.keyError "utilisateur introuvable")
    | some _ => (B.hashPassword password salt).map (t.setHash userId)

/-- `change_own_password` up to its write: the account. -/
def verifyOwn (t : UserTable) (username oldPassword newPassword : String) : Except PyError Nat :=
  if newPassword = "" then .error (.valueError "nouveau mot de passe requis")
  else
    match t.activeNamed username with
    | none => .error (.keyError "compte introuvable")
    | some u =>
        if B.verifyPassword oldPassword u.passwordHash then .ok u.id
        else .error (.valueError "ancien mot de passe incorrect")

def UserWrite.apply (t : UserTable) : UserWrite → Except PyError UserTable
  | .create username password role displayName email auditedEmails salt => do
      -- the password is hashed behind the checks
      let _ ← createUser strip lower t username password role displayName email auditedEmails ""
      let hash ← B.hashPassword password salt
      createUser strip lower t username password role displayName email auditedEmails hash
  | .setPassword userId password salt => MailArchiver.setPassword B t userId password salt
  | .setEmail userId email => MailArchiver.setEmail strip t userId email
  | .setAuditedEmails userId auditedEmails =>
      MailArchiver.setAuditedEmails strip lower t userId auditedEmails
  | .setActive userId active => MailArchiver.setActive t userId active
  | .delete userId => deleteUser t userId
  | .countLogin read changed =>
      if changed.storable then
        .ok (t.update read.id (fun row => row.written read changed)
          (User.written_id read changed))
      else .error .operationalError

/-! ## The book -/

/-- What was last entered for an account. -/
structure Credential where
  username : String
  password : String
  active : Bool
  deriving DecidableEq, Repr

/-- The accounts by their ids. -/
abbrev Book := Nat → Option Credential

/-- A change of one account, if it is there. -/
def Book.change (b : Book) (userId : Nat) (f : Credential → Credential) : Book :=
  Function.update b userId ((b userId).map f)

/-- What a write that was accepted enters; a creation gets the id `fresh`. -/
def Book.enter (b : Book) (fresh : Nat) : UserWrite → Book
  | .create username password _ _ _ _ _ => Function.update b fresh (some ⟨username, password, true⟩)
  | .setPassword userId password _ => b.change userId fun c => { c with password := password }
  | .setActive userId active => b.change userId fun c => { c with active := active }
  | .delete userId => Function.update b userId none
  | .setEmail _ _ | .setAuditedEmails _ _ | .countLogin _ _ => b

structure Directory where
  users : UserTable
  changes : List OwnChange
  book : Book

namespace Directory

/-- A request that is refused changes nothing. -/
def step (d : Directory) : CredentialEvent → Option Directory
  | .write w =>
      match w.apply B strip lower d.users with
      | .ok users => some ⟨users, d.changes, d.book.enter d.users.nextId w⟩
      | .error _ => some d
  | .verifyOld username oldPassword newPassword =>
      match verifyOwn B d.users username oldPassword newPassword with
      | .ok userId => some { d with changes := d.changes ++ [⟨userId, newPassword⟩] }
      | .error _ => some d
  | .writeOwn i salt =>
      match d.changes[i]? with
      | none => none
      | some change =>
          match B.hashPassword change.newPassword salt with
          | .ok hash => some {
              users := d.users.setHash change.userId hash
              changes := d.changes.eraseIdx i
              book := d.book.change change.userId fun c => { c with password := change.newPassword } }
          | .error _ => some { d with changes := d.changes.eraseIdx i }

/-- No account yet. -/
def empty : Directory where
  users := ⟨[], 1, List.nodup_nil, fun _ hu => absurd hu List.not_mem_nil⟩
  changes := []
  book := fun _ => none

end Directory

/-- The attempt logs in. -/
def Decision.admits : Decision → Bool
  | .answer status => decide (status = .ok)
  | .commit _ status => decide (status = .ok)
  | .overflowError => false

/-- A login with this password succeeds at the time `now`. -/
def UserTable.Admits (t : UserTable) (policy : LockoutPolicy) (now : Int)
    (username password : String) : Prop :=
  ∃ u, t.activeNamed username = some u
    ∧ (authenticateWithLockout policy B.verifyPassword now password u).admits = true

/-- The account is locked at the time `now`. -/
def UserTable.Locked (t : UserTable) (now : Int) (userId : Nat) : Prop :=
  ∃ u ∈ t.rows, u.id = userId ∧ u.lockedUntil.any (now < ·) = true

end

section

variable {B : Bcrypt} {strip lower : String → String}

/-! ## What a write does -/

theorem setPassword_ok {t t' : UserTable} {userId : Nat} {password salt : String}
    (h : setPassword B t userId password salt = .ok t') :
    ∃ hash, B.hashPassword password salt = .ok hash ∧ t' = t.setHash userId hash := by
  unfold setPassword at h
  split at h
  · cases h
  · split at h
    · cases h
    · cases hhash : B.hashPassword password salt with
      | error e => simp [hhash, Except.map] at h
      | ok hash =>
          rw [hhash, Except.map, Except.ok.injEq] at h
          exact ⟨hash, rfl, h.symm⟩

theorem setEmail_ok {t t' : UserTable} {userId : Nat} {email : Option String}
    (h : setEmail strip t userId email = .ok t') :
    ∃ address, t' = t.update userId (fun u => { u with email := address }) fun _ => rfl := by
  simp only [setEmail] at h
  split at h
  · cases h
  · split at h <;> cases h
    exact ⟨_, rfl⟩

theorem setAuditedEmails_ok {t t' : UserTable} {userId : Nat} {auditedEmails : List String}
    (h : setAuditedEmails strip lower t userId auditedEmails = .ok t') :
    ∃ audited, t' = t.update userId (fun u => { u with auditedEmails := audited }) fun _ => rfl := by
  simp only [setAuditedEmails] at h
  split at h
  · cases h
  · split at h
    · cases h
    · split at h <;> cases h
      exact ⟨_, rfl⟩

theorem setActive_ok {t t' : UserTable} {userId : Nat} {active : Bool}
    (h : setActive t userId active = .ok t') :
    t' = t.update userId (fun u => { u with isActive := active }) fun _ => rfl := by
  simp only [setActive] at h
  split at h <;> cases h
  rfl

theorem deleteUser_ok {t t' : UserTable} {userId : Nat} (h : deleteUser t userId = .ok t') :
    t' = t.remove userId := by
  simp only [deleteUser] at h
  split at h <;> cases h
  rfl

/-! ## The table agrees with the book -/

/-- A row says what the book says. -/
structure Credential.Of (B : Bcrypt) (c : Credential) (u : User) : Prop where
  username : c.username = u.username
  active : c.active = u.isActive
  password : ∀ q, B.verifyPassword q u.passwordHash = true ↔ B.key q = B.key c.password

structure Directory.Faithful (B : Bcrypt) (d : Directory) : Prop where
  names : (d.users.rows.map User.username).Nodup
  booked : ∀ u ∈ d.users.rows, ∃ c, d.book u.id = some c ∧ c.Of B u
  known : ∀ id c, d.book id = some c → ∃ u ∈ d.users.rows, u.id = id

namespace Directory.Faithful

variable {d : Directory}

theorem empty : Directory.empty.Faithful B where
  names := List.nodup_nil
  booked := fun _ hu => absurd hu List.not_mem_nil
  known := by
    intro id c h
    cases h

/-- An update of a row that the book follows. -/
theorem update (h : d.Faithful B) {userId : Nat} {f : User → User} {hf : ∀ u, (f u).id = u.id}
    {g : Credential → Credential} (hname : ∀ u, (f u).username = u.username)
    (hfg : ∀ u c, c.Of B u → (g c).Of B (f u)) (changes : List OwnChange) :
    Directory.Faithful B ⟨d.users.update userId f hf, changes, d.book.change userId g⟩ := by
  constructor
  · show ((d.users.rows.map _).map User.username).Nodup
    have hsame : ∀ u : User, (if u.id = userId then f u else u).username = u.username := by
      intro u
      split
      · exact hname u
      · rfl
    rw [Table.map_key_update hsame]
    exact h.names
  · intro v hv
    obtain ⟨u, hu, rfl⟩ := List.mem_map.mp hv
    obtain ⟨c, hc, hof⟩ := h.booked u hu
    by_cases hid : u.id = userId
    · subst hid
      refine ⟨g c, ?_, ?_⟩
      · simp [Book.change, hf, hc]
      · simpa using hfg u c hof
    · refine ⟨c, ?_, ?_⟩
      · simpa [Book.change, hid] using hc
      · simpa [hid] using hof
  · intro id c hc
    change d.book.change userId g id = some c at hc
    have hsome : ∃ c, d.book id = some c := by
      by_cases hid : id = userId
      · subst hid
        rw [Book.change, Function.update_self, Option.map_eq_some_iff] at hc
        obtain ⟨c₀, hc₀, -⟩ := hc
        exact ⟨c₀, hc₀⟩
      · rw [Book.change, Function.update_of_ne hid] at hc
        exact ⟨c, hc⟩
    obtain ⟨c₀, hc₀⟩ := hsome
    obtain ⟨u, hu, rfl⟩ := h.known id c₀ hc₀
    refine ⟨_, List.mem_map_of_mem hu, ?_⟩
    split
    · exact hf u
    · rfl

/-- An update of columns the book does not speak of. -/
theorem touch (h : d.Faithful B) {userId : Nat} {f : User → User} {hf : ∀ u, (f u).id = u.id}
    (hrow : ∀ u, (f u).username = u.username ∧ (f u).isActive = u.isActive
      ∧ (f u).passwordHash = u.passwordHash) :
    Directory.Faithful B ⟨d.users.update userId f hf, d.changes, d.book⟩ := by
  have hof : ∀ u (c : Credential), c.Of B u → (id c).Of B (f u) := by
    rintro u c ⟨hname, hactive, hpassword⟩
    obtain ⟨h₁, h₂, h₃⟩ := hrow u
    refine ⟨hname.trans h₁.symm, hactive.trans h₂.symm, ?_⟩
    rw [h₃]
    exact hpassword
  have hbook : d.book.change userId id = d.book := by
    rw [Book.change, Option.map_id_fun, id, Function.update_eq_self]
  have hupdate := @update B d h userId f hf id (fun u => (hrow u).1) hof d.changes
  rwa [hbook] at hupdate

theorem setHash (h : d.Faithful B) {userId : Nat} {password salt hash : String}
    (hhash : B.hashPassword password salt = .ok hash) (changes : List OwnChange) :
    Directory.Faithful B ⟨d.users.setHash userId hash, changes,
      d.book.change userId fun c => { c with password := password }⟩ := by
  have hof : ∀ u (c : Credential), c.Of B u →
      Credential.Of B { c with password := password } { u with passwordHash := hash } :=
    fun u c h => ⟨h.username, h.active, B.verifies hhash⟩
  exact h.update (f := fun u => { u with passwordHash := hash }) (fun _ => rfl) hof changes

theorem insert (h : d.Faithful B) {row : Nat → User} {hrow : ∀ id, (row id).id = id}
    {c : Credential} (hof : ∀ id, c.Of B (row id))
    (hfree : ∀ u ∈ d.users.rows, u.username ≠ c.username) :
    Directory.Faithful B ⟨d.users.insert row hrow, d.changes,
      Function.update d.book d.users.nextId (some c)⟩ := by
  constructor
  · refine Table.nodup_append h.names fun u hu => ?_
    rw [← (hof _).username]
    exact hfree u hu
  · intro u hu
    rcases List.mem_append.mp hu with hu | hu
    · obtain ⟨c', hc', hof'⟩ := h.booked u hu
      have hne : u.id ≠ d.users.nextId := Nat.ne_of_lt (d.users.fresh u hu)
      exact ⟨c', (Function.update_of_ne hne ..).trans hc', hof'⟩
    · rw [List.mem_singleton.mp hu]
      refine ⟨c, ?_, hof _⟩
      show Function.update d.book d.users.nextId (some c) _ = some c
      rw [hrow, Function.update_self]
  · intro id c' hc'
    change Function.update d.book d.users.nextId (some c) id = some c' at hc'
    by_cases hid : id = d.users.nextId
    · exact ⟨_, List.mem_append_right _ (List.mem_singleton_self _), (hrow _).trans hid.symm⟩
    · rw [Function.update_of_ne hid] at hc'
      obtain ⟨u, hu, huid⟩ := h.known id c' hc'
      exact ⟨u, List.mem_append_left _ hu, huid⟩

theorem remove (h : d.Faithful B) (userId : Nat) :
    Directory.Faithful B
      ⟨d.users.remove userId, d.changes, Function.update d.book userId none⟩ := by
  constructor
  · exact Table.nodup_filter h.names _
  · intro u hu
    obtain ⟨hu, hne⟩ := List.mem_filter.mp hu
    obtain ⟨c, hc, hof⟩ := h.booked u hu
    exact ⟨c, (Function.update_of_ne (of_decide_eq_true hne) ..).trans hc, hof⟩
  · intro id c hc
    change Function.update d.book userId none id = some c at hc
    by_cases hid : id = userId
    · rw [hid, Function.update_self] at hc
      cases hc
    · rw [Function.update_of_ne hid] at hc
      obtain ⟨u, hu, huid⟩ := h.known id c hc
      exact ⟨u, List.mem_filter.mpr ⟨hu, decide_eq_true (huid ▸ hid)⟩, huid⟩

theorem create (h : d.Faithful B) {username password role displayName salt : String}
    {email : Option String} {auditedEmails : Option (List String)} {users : UserTable}
    (hw : (UserWrite.create username password role displayName email auditedEmails salt).apply B
      strip lower d.users = .ok users) :
    Directory.Faithful B ⟨users, d.changes,
      Function.update d.book d.users.nextId (some ⟨username, password, true⟩)⟩ := by
  simp only [UserWrite.apply, bind_eq_ok] at hw
  obtain ⟨-, -, hash, hhash, hcreate⟩ := hw
  rcases createUser_cases strip lower d.users username password role displayName hash email
    auditedEmails with ⟨hcreates, hok⟩ | ⟨-, e, herror⟩
  · rw [hok] at hcreate
    cases hcreate
    exact h.insert (fun id => ⟨rfl, rfl, B.verifies hhash⟩) hcreates.username_free
  · rw [herror] at hcreate
    cases hcreate

theorem enter (h : d.Faithful B) {w : UserWrite} {users : UserTable}
    (hw : w.apply B strip lower d.users = .ok users) :
    Directory.Faithful B ⟨users, d.changes, d.book.enter d.users.nextId w⟩ := by
  cases w with
  | create username password role displayName email auditedEmails salt => exact h.create hw
  | setPassword userId password salt =>
      obtain ⟨hash, hhash, rfl⟩ := setPassword_ok hw
      exact h.setHash hhash d.changes
  | setEmail userId email =>
      obtain ⟨address, rfl⟩ := setEmail_ok hw
      exact h.touch fun u => ⟨rfl, rfl, rfl⟩
  | setAuditedEmails userId auditedEmails =>
      obtain ⟨audited, rfl⟩ := setAuditedEmails_ok hw
      exact h.touch fun u => ⟨rfl, rfl, rfl⟩
  | setActive userId active =>
      obtain rfl := setActive_ok hw
      have hof : ∀ u (c : Credential), c.Of B u →
          Credential.Of B { c with active := active } { u with isActive := active } :=
        fun u c h => ⟨h.username, rfl, h.password⟩
      exact h.update (f := fun u => { u with isActive := active }) (fun _ => rfl) hof d.changes
  | delete userId =>
      obtain rfl := deleteUser_ok hw
      exact h.remove userId
  | countLogin read changed =>
      simp only [UserWrite.apply] at hw
      split at hw <;> cases hw
      exact h.touch fun u => ⟨rfl, rfl, rfl⟩

theorem step {d' : Directory} {e : CredentialEvent} (h : d.Faithful B)
    (hs : d.step B strip lower e = some d') : d'.Faithful B := by
  cases e with
  | write w =>
      simp only [Directory.step] at hs
      split at hs <;> cases hs
      · exact h.enter ‹_›
      · exact h
  | verifyOld username oldPassword newPassword =>
      simp only [Directory.step] at hs
      split at hs <;> cases hs
      · exact ⟨h.names, h.booked, h.known⟩
      · exact h
  | writeOwn i salt =>
      simp only [Directory.step] at hs
      split at hs
      · cases hs
      · split at hs <;> cases hs
        · exact h.setHash ‹_› _
        · exact ⟨h.names, h.booked, h.known⟩

end Directory.Faithful

/-! ## Who can log in -/

/-- The outcome of an attempt on an active account. -/
theorem admits_authenticate {policy : LockoutPolicy} {now : Int} {password : String} {u : User}
    (hactive : u.isActive = true) :
    (authenticateWithLockout policy B.verifyPassword now password u).admits = true ↔
      u.lockedUntil.any (now < ·) = false ∧ B.verifyPassword password u.passwordHash = true := by
  unfold authenticateWithLockout
  rw [hactive]
  cases hlocked : u.lockedUntil.any (now < ·) with
  | true => simp [Decision.admits]
  | false =>
      cases hverify : B.verifyPassword password u.passwordHash with
      | true =>
          simp only [Bool.not_true, Bool.false_eq_true, if_false, if_true, and_self, iff_true]
          split
          · rfl
          · rfl
      | false =>
          simp only [Bool.not_true, Bool.false_eq_true, if_false, and_false, iff_false]
          split
          · split <;> simp [Decision.admits]
          · simp [Decision.admits]

theorem activeNamed_iff {t : UserTable} (hnames : (t.rows.map User.username).Nodup)
    {username : String} {u : User} :
    t.activeNamed username = some u ↔ u ∈ t.rows ∧ u.username = username ∧ u.isActive = true := by
  constructor
  · intro h
    have hp := List.find?_some h
    rw [Bool.and_eq_true] at hp
    exact ⟨List.mem_of_find?_eq_some h, of_decide_eq_true hp.1, hp.2⟩
  · rintro ⟨hu, rfl, hactive⟩
    cases hfind : t.activeNamed u.username with
    | none =>
        have hnot := List.find?_eq_none.mp hfind u hu
        simp [hactive] at hnot
    | some v =>
        have hp := List.find?_some hfind
        rw [Bool.and_eq_true] at hp
        have hname : v.username = u.username := of_decide_eq_true hp.1
        rw [List.inj_on_of_nodup_map hnames (List.mem_of_find?_eq_some hfind) hu hname]

namespace Directory

/-- **The password last set is the one that logs in**: after any sequence
of writes to the accounts, whatever comes between the check and the write
of a change of one's own password, a local login succeeds iff an account
of that name is active, is not locked, and was last given a password
bcrypt cannot tell from the one presented. No two accounts have one name.
What the directory answers when it fails is not in it. -/
theorem login_iff_last_password {events : List CredentialEvent} {d : Directory}
    (hrun : run (step B strip lower) empty events = some d) :
    (∀ (policy : LockoutPolicy) (now : Int) (username password : String),
        d.users.Admits B policy now username password ↔ ∃ id c, d.book id = some c
          ∧ c.username = username ∧ c.active = true ∧ B.key password = B.key c.password
          ∧ ¬d.users.Locked now id)
      ∧ ∀ id id' c c', d.book id = some c → d.book id' = some c' → c.username = c'.username →
          id = id' := by
  have h : d.Faithful B :=
    run_invariant (I := fun d : Directory => d.Faithful B) (fun _ _ _ h hs => h.step hs) hrun .empty
  have hrow : ∀ id c, d.book id = some c → ∃ u ∈ d.users.rows, u.id = id ∧ c.Of B u := by
    intro id c hc
    obtain ⟨u, hu, rfl⟩ := h.known id c hc
    obtain ⟨c', hc', hof⟩ := h.booked u hu
    obtain rfl : c = c' := Option.some.inj (hc.symm.trans hc')
    exact ⟨u, hu, rfl, hof⟩
  constructor
  · intro policy now username password
    constructor
    · rintro ⟨u, hnamed, hadmits⟩
      obtain ⟨hu, hname, hactive⟩ := (activeNamed_iff h.names).mp hnamed
      obtain ⟨hfree, hverify⟩ := (admits_authenticate hactive).mp hadmits
      obtain ⟨c, hc, hof⟩ := h.booked u hu
      refine ⟨u.id, c, hc, hof.username.trans hname, hof.active.trans hactive,
        (hof.password password).mp hverify, ?_⟩
      rintro ⟨v, hv, hid, hlocked⟩
      rw [List.inj_on_of_nodup_map d.users.unique hv hu hid, hfree] at hlocked
      cases hlocked
    · rintro ⟨id, c, hc, rfl, hactive, hkey, hfree⟩
      obtain ⟨u, hu, rfl, hof⟩ := hrow id c hc
      have huactive : u.isActive = true := hof.active.symm.trans hactive
      refine ⟨u, (activeNamed_iff h.names).mpr ⟨hu, hof.username.symm, huactive⟩,
        (admits_authenticate huactive).mpr ⟨?_, (hof.password password).mpr hkey⟩⟩
      rw [← Bool.not_eq_true]
      exact fun hlocked => hfree ⟨u, hu, rfl, hlocked⟩
  · intro id id' c c' hc hc' hname
    obtain ⟨u, hu, rfl, hof⟩ := hrow id c hc
    obtain ⟨u', hu', rfl, hof'⟩ := hrow id' c' hc'
    rw [List.inj_on_of_nodup_map h.names hu hu' (hof.username.symm.trans (hname.trans hof'.username))]

end Directory

end

/-! ### Carol changes her password -/

/-- A hash that shows its password. -/
def sampleBcrypt : Bcrypt where
  hashPassword := fun password _ => .ok ("$" ++ password)
  verifyPassword := fun password hashed => hashed = "$" ++ password
  key := encode
  verifies := by
    intro password salt hashed h q
    cases h
    rw [decide_eq_true_eq, String.append_right_inj, encode_inj, eq_comm]

/-- An administrator resets the password while she changes it. -/
def carolChanges : List CredentialEvent :=
  [.write (.create "carol" "azerty" "user" "" none none "s"),
    .verifyOld "carol" "azerty" "secret", .write (.setPassword 1 "temp" "s"), .writeOwn 0 "s"]

/-- Her own change comes last. -/
theorem login_iff_last_password_carol : ∃ d,
    run (Directory.step sampleBcrypt id id) Directory.empty carolChanges = some d
      ∧ d.users.Admits sampleBcrypt ⟨5, 15⟩ 0 "carol" "secret"
      ∧ ¬d.users.Admits sampleBcrypt ⟨5, 15⟩ 0 "carol" "temp" := by
  have hany : (run (Directory.step sampleBcrypt id id) Directory.empty carolChanges).any (fun d =>
      decide (d.book 1 = some ⟨"carol", "secret", true⟩)
        && d.users.rows.all fun u => decide (u.lockedUntil = none)) = true := by
    decide +kernel
  obtain ⟨d, hrun, hd⟩ := (Option.any_eq_true _ _).mp hany
  simp only [Bool.and_eq_true, decide_eq_true_eq, List.all_eq_true] at hd
  obtain ⟨hbook, hunlocked⟩ := hd
  obtain ⟨hadmits, hunique⟩ := Directory.login_iff_last_password hrun
  refine ⟨d, hrun, ?_, ?_⟩
  · refine (hadmits _ _ _ _).mpr ⟨1, _, hbook, rfl, rfl, rfl, ?_⟩
    rintro ⟨u, hu, -, hlocked⟩
    rw [hunlocked u hu] at hlocked
    cases hlocked
  · intro h
    obtain ⟨i, c, hc, hname, -, hkey, -⟩ := (hadmits _ _ _ _).mp h
    obtain rfl := hunique i 1 c _ hc hbook hname
    obtain rfl := Option.some.inj (hc.symm.trans hbook)
    exact absurd (encode_inj.mp hkey) (by decide)

end MailArchiver

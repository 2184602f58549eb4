import MailArchiver.Api.Perimeter
import MailArchiver.Lib.Table

/-!
# Api — Users

`UserRepo` of `api/users.py`: the rows of `users` and the transactions on
them. An id comes from a sequence and is not given out again
(`UserTable.fresh`). Hashing and checking a password is bcrypt's;
`str.strip` and `str.lower` are Python's.
-/

namespace MailArchiver

/-- A row of `users`. -/
structure User where
  id : Nat
  username : String
  passwordHash : String
  role : String
  email : Option String
  auditedEmails : List String
  displayName : String
  isActive : Bool
  failedLogins : Nat
  /-- In microseconds since the year 1. -/
  lockedUntil : Option Int
  deriving DecidableEq, Repr

/-- The account the authentication makes of a row;
`display_name or username`. -/
def User.authenticated (u : User) : AuthenticatedUser where
  username := u.username
  displayName := if u.displayName = "" then u.username else u.displayName
  role := u.role
  isAdmin := decide (u.role = "admin")
  email := u.email
  auditedEmails := some u.auditedEmails

/-- An active account of role admin. -/
def User.isActiveAdmin (u : User) : Bool := decide (u.role = "admin") && u.isActive

/-- The table, with the next value of its sequence. -/
structure UserTable where
  rows : List User
  nextId : Nat
  unique : (rows.map User.id).Nodup
  fresh : ∀ u ∈ rows, u.id < nextId

namespace UserTable

/-- `session.get(User, user_id)`. -/
def get (t : UserTable) (userId : Nat) : Option User := t.rows.find? (·.id = userId)

/-- `select(User).where(User.username == username, User.is_active.is_(True))`. -/
def activeNamed (t : UserTable) (username : String) : Option User :=
  t.rows.find? fun u => decide (u.username = username) && u.isActive

/-- `UserRepo.count_admins`. -/
def countAdmins (t : UserTable) : Nat := t.rows.countP User.isActiveAdmin

theorem update_key {f : User → User} (hf : ∀ u, (f u).id = u.id) (userId : Nat) (u : User) :
    (if u.id = userId then f u else u).id = u.id := by
  split
  · exact hf u
  · rfl

/-- An `UPDATE` of one row that leaves its id. -/
def update (t : UserTable) (userId : Nat) (f : User → User) (hf : ∀ u, (f u).id = u.id) :
    UserTable where
  rows := t.rows.map fun u => if u.id = userId then f u else u
  nextId := t.nextId
  unique := (Table.map_key_update (update_key hf userId)).symm ▸ t.unique
  fresh := Table.fresh_update (update_key hf userId) t.fresh

/-- An `INSERT`; the sequence gives the id. -/
def insert (t : UserTable) (row : Nat → User) (hrow : ∀ id, (row id).id = id) : UserTable where
  rows := t.rows ++ [row t.nextId]
  nextId := t.nextId + 1
  unique := Table.nodup_insert t.unique t.fresh (hrow t.nextId)
  fresh := Table.fresh_insert t.fresh (hrow t.nextId)

/-- `session.delete(u)`. -/
def remove (t : UserTable) (userId : Nat) : UserTable where
  rows := t.rows.filter (·.id ≠ userId)
  nextId := t.nextId
  unique := Table.nodup_filter t.unique _
  fresh := fun u hu => t.fresh u (List.mem_of_mem_filter hu)

end UserTable

/-! ## The transactions -/

/-- `VALID_ROLES`, sorted. -/
def validRoles : List String := ["admin", "auditor", "user"]

variable (strip lower : String → String)

/-- `sorted({a.strip().lower() for a in emails if a.strip()})`. -/
def normalizedAddresses (emails : List String) : List String :=
  (((emails.filter fun a => strip a ≠ "").map fun a => lower (strip a)).dedup).mergeSort

/-- `UserRepo.create`; `hash` is `hash_password(password)`. -/
def createUser (t : UserTable) (username password role : String) (displayName : String)
    (email : Option String) (auditedEmails : Option (List String)) (hash : String) :
    Except PyError UserTable :=
  let audited := normalizedAddresses strip lower (auditedEmails.getD [])
  if role ∉ validRoles then
    .error (.valueError "rôle invalide (attendu : admin, auditor, user)")
  else if username = "" ∨ password = "" then
    .error (.valueError "identifiant et mot de passe requis")
  else if role = "auditor" ∧ strip (email.getD "") = "" then
    .error (.valueError "un compte auditeur requiert une adresse e-mail")
  else if role = "auditor" ∧ audited = [] then
    .error (.valueError "un compte auditeur requiert au moins une adresse à auditer")
  else if t.rows.any (·.username = username) then
    .error (.valueError "cet identifiant existe déjà")
  else
    .ok (t.insert (fun id => {
      id := id
      username := username
      passwordHash := hash
      role := role
      email := email.filter (· ≠ "")
      auditedEmails := audited
      displayName := if displayName = "" then username else displayName
      isActive := true
      failedLogins := 0
      lockedUntil := none }) fun _ => rfl)

/-- A creation that succeeds adds one row. -/
theorem createUser_ok {strip lower : String → String} {t t' : UserTable}
    {username password role displayName hash : String} {email : Option String}
    {auditedEmails : Option (List String)}
    (h : createUser strip lower t username password role displayName email auditedEmails hash
      = .ok t') : ∃ row hrow, t' = t.insert row hrow := by
  unfold createUser at h
  simp only at h
  repeat (split at h; · cases h)
  cases h
  exact ⟨_, fun _ => rfl, rfl⟩

/-- `UserRepo.set_active`. -/
def setActive (t : UserTable) (userId : Nat) (active : Bool) : Except PyError UserTable :=
  match t.get userId with
  | none => .error (.keyError "utilisateur introuvable")
  | some _ => .ok (t.update userId (fun u => { u with isActive := active }) fun _ => rfl)

/-- `UserRepo.delete`. -/
def deleteUser (t : UserTable) (userId : Nat) : Except PyError UserTable :=
  match t.get userId with
  | none => .error (.keyError "utilisateur introuvable")
  | some _ => .ok (t.remove userId)

end MailArchiver

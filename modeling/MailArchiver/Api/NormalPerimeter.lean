import MailArchiver.Api.SearchService
import MailArchiver.Api.Users
import MailArchiver.Common.Text
import MailArchiver.Lib.Transition
import Mathlib.Data.List.Dedup

/-!
# Api — NormalPerimeter

The three writers of the addresses a perimeter is made of: `create`,
`set_email` and `set_audited_emails` of `UserRepo`, and what
`_scope_addresses` reads of them through a token. `set_email` strips the
address it stores; `create` stores it as entered, and its perimeter keeps
the blanks.
-/

namespace MailArchiver

open Transition

section

variable (strip lower : String → String)

/-! ## The two other writers -/

/-- `UserRepo.set_email`. -/
def setEmail (t : UserTable) (userId : Nat) (email : Option String) : Except PyError UserTable :=
  let address := strip (email.getD "")
  match t.get userId with
  | none => .error (.keyError "utilisateur introuvable")
  | some u =>
      if u.role = "auditor" ∧ address = "" then
        .error (.valueError "un compte auditeur requiert une adresse e-mail")
      else
        .ok (t.update userId
          (fun u => { u with email := if address = "" then none else some address }) fun _ => rfl)

/-- `UserRepo.set_audited_emails`. -/
def setAuditedEmails (t : UserTable) (userId : Nat) (auditedEmails : List String) :
    Except PyError UserTable :=
  let audited := normalizedAddresses strip lower auditedEmails
  match t.get userId with
  | none => .error (.keyError "utilisateur introuvable")
  | some u =>
      if u.role ≠ "auditor" then
        .error (.valueError "le périmètre audité ne concerne que les comptes auditeur")
      else if audited = [] then
        .error (.valueError "au moins une adresse à auditer requise")
      else .ok (t.update userId (fun u => { u with auditedEmails := audited }) fun _ => rfl)

/-! ## Sequences of operations -/

/-- A request on the accounts. -/
inductive AccountOp where
  | create (username password role displayName : String) (email : Option String)
      (auditedEmails : Option (List String)) (hash : String)
  | setEmail (userId : Nat) (email : Option String)
  | setAuditedEmails (userId : Nat) (auditedEmails : List String)

/-- The accounts, with the addresses last entered for each perimeter. -/
structure EnteredAccounts where
  users : UserTable
  entered : Nat → List String

/-- The addresses a creation enters for the perimeter. -/
def enteredAt (role : String) (email : Option String) (auditedEmails : Option (List String)) :
    List String :=
  if role = "auditor" then auditedEmails.getD [] else email.toList

namespace EnteredAccounts

/-- The accounts after a write; one that raises changes nothing. -/
def write (s : EnteredAccounts) (users : Except PyError UserTable) (userId : Nat)
    (addresses : List String) : EnteredAccounts :=
  match users with
  | .ok users => ⟨users, fun id => if id = userId then addresses else s.entered id⟩
  | .error _ => s

/-- One request. The address of an auditor is not part of his perimeter. -/
def step (s : EnteredAccounts) : AccountOp → Option EnteredAccounts
  | .create username password role displayName email auditedEmails hash =>
      some (s.write
        (createUser strip lower s.users username password role displayName email auditedEmails hash)
        s.users.nextId (enteredAt role email auditedEmails))
  | .setEmail userId email =>
      let addresses :=
        if (s.users.get userId).any (·.role = "auditor") then s.entered userId else email.toList
      some (s.write (MailArchiver.setEmail strip s.users userId email) userId addresses)
  | .setAuditedEmails userId auditedEmails =>
      some (s.write (MailArchiver.setAuditedEmails strip lower s.users userId auditedEmails) userId
        auditedEmails)

end EnteredAccounts

/-! ## Normalised perimeters -/

/-- What the API does with the texts of addresses: `str.strip` and
`str.lower`. -/
structure TextLaws : Prop where
  strip_empty : strip "" = ""
  strip_strip : ∀ s, strip (strip s) = strip s
  lower_lower : ∀ s, lower (lower s) = lower s
  lower_eq_empty : ∀ s, lower s = "" ↔ s = ""
  /-- Lower-casing neither makes nor removes a blank at an end. -/
  strip_lower : ∀ s, strip (lower s) = lower s ↔ strip s = s

/-- A perimeter of a role, made of the addresses `entered`. -/
structure NormalPerimeter (role : String) (entered scope : List String) : Prop where
  addresses : ∀ a ∈ scope, a ≠ "" ∧ lower a = a ∧ strip a = a
  auditor : role = "auditor" → scope ≠ []
  /-- A missing `From` brings a mail into no perimeter. -/
  missing : ∀ msg : Message, msg.fromAddr = "" → canAccess lower msg (some scope) = true →
    ∃ a ∈ msg.toAddrs ++ msg.ccAddrs, lower a ∈ scope
  /-- An address entered with blanks or capitals matches. -/
  matched : ∀ a ∈ entered, strip a ≠ "" → ∀ msg : Message,
    (∃ b ∈ msg.fromAddr :: (msg.toAddrs ++ msg.ccAddrs), lower b = lower (strip a)) →
      canAccess lower msg (some scope) = true

/-- The perimeter of a row, through a token. -/
def User.scope (u : User) : Option (List String) :=
  scopeAddresses lower (decodeToken (createToken u.authenticated))

/-- The row has a normalised perimeter, if it is not an administrator's. -/
def User.Normal (entered : List String) (u : User) : Prop :=
  u.role = "user" ∨ u.role = "auditor" →
    ∃ scope, u.scope lower = some scope ∧ NormalPerimeter strip lower u.role entered scope

/-- **Every perimeter is normalised.** -/
def EnteredAccounts.Normal (s : EnteredAccounts) : Prop :=
  ∀ u ∈ s.users.rows, u.Normal strip lower (s.entered u.id)

end

section

variable {strip lower : String → String}

/-! ## The perimeter of a row -/

/-- What the addresses of a perimeter have to be like. -/
theorem NormalPerimeter.of_addresses (hlaws : TextLaws strip lower) {role : String}
    {entered scope : List String} (haddr : ∀ a ∈ scope, a ≠ "" ∧ lower a = a ∧ strip a = a)
    (hauditor : role = "auditor" → scope ≠ [])
    (hentered : ∀ a ∈ entered, strip a ≠ "" → lower (strip a) ∈ scope) :
    NormalPerimeter strip lower role entered scope where
  addresses := haddr
  auditor := hauditor
  missing := by
    intro msg hfrom hacc
    obtain ⟨x, hx, a, ha, hax⟩ := canAccess_iff.mp hacc
    obtain ⟨hne, hlow, -⟩ := haddr x hx
    rw [hlow] at hax
    rcases List.mem_cons.mp ha with rfl | ha
    · rw [hfrom, (hlaws.lower_eq_empty "").mpr rfl] at hax
      exact absurd hax.symm hne
    · exact ⟨a, ha, hax ▸ hx⟩
  matched := by
    rintro a ha hblank msg ⟨b, hb, hbl⟩
    refine canAccess_iff.mpr ⟨lower (strip a), hentered a ha hblank, b, hb, ?_⟩
    rw [hbl, hlaws.lower_lower]

theorem User.scope_auditor {u : User} (hrole : u.role = "auditor") :
    u.scope lower = some (u.auditedEmails.map lower) := by
  rw [User.scope, scopeAddresses_decodeToken, scopeAddresses]
  simp [User.authenticated, hrole]

theorem User.scope_user {u : User} (hrole : u.role = "user") :
    u.scope lower = some ((u.email.filter (· ≠ "")).toList.map lower) := by
  rw [User.scope, scopeAddresses_decodeToken, scopeAddresses]
  simp only [User.authenticated, hrole]
  cases u.email with
  | none => rfl
  | some a =>
      by_cases ha : a = ""
      · simp [ha]
      · simp [ha, Option.filter]

theorem mem_normalizedAddresses {emails : List String} {a : String} :
    a ∈ normalizedAddresses strip lower emails ↔
      ∃ e ∈ emails, strip e ≠ "" ∧ lower (strip e) = a := by
  simp [normalizedAddresses, List.mem_mergeSort, and_assoc]

/-- A normalised address. -/
theorem normal_address (hlaws : TextLaws strip lower) {a : String} (hblank : a ≠ "")
    (hstrip : strip a = a) :
    lower a ≠ "" ∧ lower (lower a) = lower a ∧ strip (lower a) = lower a :=
  ⟨fun h => hblank ((hlaws.lower_eq_empty a).mp h), hlaws.lower_lower a,
    (hlaws.strip_lower a).mpr hstrip⟩

theorem normal_auditor (hlaws : TextLaws strip lower) {u : User} (hrole : u.role = "auditor")
    {emails : List String} (haudited : u.auditedEmails = normalizedAddresses strip lower emails)
    (hne : normalizedAddresses strip lower emails ≠ []) : u.Normal strip lower emails := by
  refine fun _ => ⟨_, User.scope_auditor hrole, .of_addresses hlaws ?_ ?_ ?_⟩
  · intro a ha
    rw [haudited, List.mem_map] at ha
    obtain ⟨b, hb, rfl⟩ := ha
    obtain ⟨e, -, hblank, rfl⟩ := mem_normalizedAddresses.mp hb
    rw [hlaws.lower_lower]
    exact normal_address hlaws hblank (hlaws.strip_strip e)
  · intro _
    simpa [haudited] using hne
  · intro e he hblank
    rw [haudited, List.mem_map]
    exact ⟨lower (strip e), mem_normalizedAddresses.mpr ⟨e, he, hblank, rfl⟩,
      hlaws.lower_lower _⟩

theorem normal_user (hlaws : TextLaws strip lower) {u : User} (hrole : u.role = "user")
    {entered : List String} (hstored : ∀ a ∈ u.email.filter (· ≠ ""), strip a = a)
    (hentered : ∀ a ∈ entered, strip a ≠ "" → ∃ b ∈ u.email.filter (· ≠ ""),
      lower b = lower (strip a)) : u.Normal strip lower entered := by
  refine fun _ => ⟨_, User.scope_user hrole, .of_addresses hlaws ?_ ?_ ?_⟩
  · intro a ha
    obtain ⟨b, hb, rfl⟩ := List.mem_map.mp ha
    rw [Option.mem_toList] at hb
    exact normal_address hlaws (by simpa using (Option.mem_filter_iff.mp hb).2) (hstored b hb)
  · intro hauditor
    rw [hrole] at hauditor
    exact absurd hauditor (by decide)
  · intro a ha hblank
    obtain ⟨b, hb, hbl⟩ := hentered a ha hblank
    exact List.mem_map.mpr ⟨b, Option.mem_toList.mpr hb, hbl⟩

/-- The address of a user with a normalised perimeter is stripped. -/
theorem stripped_of_normal (hlaws : TextLaws strip lower) {u : User} (hrole : u.role = "user")
    {entered : List String} (h : u.Normal strip lower entered) :
    ∀ a ∈ u.email.filter (· ≠ ""), strip a = a := by
  intro a ha
  obtain ⟨scope, hscope, hnormal⟩ := h (.inl hrole)
  rw [User.scope_user hrole, Option.some.injEq] at hscope
  have hmem : lower a ∈ scope := by
    rw [← hscope]
    exact List.mem_map_of_mem (Option.mem_toList.mpr ha)
  exact (hlaws.strip_lower a).mp (hnormal.addresses _ hmem).2.2

/-! ## One operation -/

/-- What keeps the perimeters normalised: an account of role `user` is
created with an address without surrounding blanks. -/
def EntersStripped (strip : String → String) (s : EnteredAccounts) : AccountOp → Prop
  | .create username password role _ email _ _ =>
      role = "user" → username ≠ "" → password ≠ "" →
        (∀ u ∈ s.users.rows, u.username ≠ username) → ∀ e ∈ email, strip e = e
  | _ => True

theorem UserTable.eq_of_get {t : UserTable} {userId : Nat} {u v : User}
    (hget : t.get userId = some u) (hv : v ∈ t.rows) (hid : v.id = userId) : v = u := by
  rw [UserTable.get, ← hid, Table.find?_key t.unique hv, Option.some.injEq] at hget
  exact hget

/-- An update leaves the perimeters normalised if it leaves those of its
own row so. -/
theorem EnteredAccounts.Normal.update {s : EnteredAccounts} (h : s.Normal strip lower) {userId : Nat}
    {f : User → User} {hf : ∀ u, (f u).id = u.id} {addresses : List String}
    (hrow : ∀ u ∈ s.users.rows, u.id = userId → (f u).Normal strip lower addresses) :
    (s.write (.ok (s.users.update userId f hf)) userId addresses).Normal strip lower := by
  intro v hv
  obtain ⟨u, hu, rfl⟩ := List.mem_map.mp hv
  by_cases hid : u.id = userId
  · simpa [hid, hf, EnteredAccounts.write] using hrow u hu hid
  · simpa [hid, EnteredAccounts.write] using h u hu

/-- A row with the role and the perimeter of a normalised one. -/
theorem User.Normal.congr {u v : User} {entered : List String}
    (h : u.Normal strip lower entered) (hrole : v.role = u.role)
    (hscope : v.scope lower = u.scope lower) : v.Normal strip lower entered := by
  intro hv
  rw [hscope, hrole]
  exact h (hrole ▸ hv)

/-- The address `set_email` stores. -/
def storedEmail (strip : String → String) (email : Option String) : Option String :=
  if strip (email.getD "") = "" then none else some (strip (email.getD ""))

theorem stored_stripped (hlaws : TextLaws strip lower) (email : Option String) :
    ∀ a ∈ (storedEmail strip email).filter (· ≠ ""), strip a = a := by
  intro a ha
  have ha := (Option.mem_filter_iff.mp ha).1
  rw [storedEmail] at ha
  split at ha
  · cases ha
  · obtain rfl := Option.some.inj ha
    exact hlaws.strip_strip _

theorem stored_entered (email : Option String) :
    ∀ a ∈ email.toList, strip a ≠ "" → ∃ b ∈ (storedEmail strip email).filter (· ≠ ""),
      lower b = lower (strip a) := by
  intro a ha hblank
  obtain rfl := Option.mem_toList.mp ha
  refine ⟨strip a, ?_, rfl⟩
  simp [storedEmail, hblank]

theorem normal_setEmail (hlaws : TextLaws strip lower) {s s' : EnteredAccounts}
    (h : s.Normal strip lower) {userId : Nat} {email : Option String}
    (hstep : s.step strip lower (.setEmail userId email) = some s') : s'.Normal strip lower := by
  simp only [EnteredAccounts.step, Option.some.injEq] at hstep
  subst hstep
  unfold setEmail
  simp only
  split
  · exact h
  · rename_i u hget
    have hu : u ∈ s.users.rows := List.mem_of_find?_eq_some hget
    have hid : u.id = userId := by simpa using List.find?_some hget
    split
    · exact h
    · refine h.update fun v hv hvid => ?_
      rw [UserTable.eq_of_get hget hv hvid, hget]
      by_cases hauditor : u.role = "auditor"
      · -- The perimeter is the audited list, old and new.
        have hold := h u hu
        rw [hid] at hold
        rw [if_pos (by simp [hauditor])]
        refine hold.congr ?_ ?_
        · rfl
        · rw [User.scope_auditor hauditor]
          exact User.scope_auditor hauditor
      · rw [if_neg (by simp [hauditor])]
        by_cases huser : u.role = "user"
        · refine normal_user hlaws ?_ ?_ ?_
          · exact huser
          · exact stored_stripped hlaws email
          · exact stored_entered email
        · rintro (hrole | hrole)
          · exact absurd hrole huser
          · exact absurd hrole hauditor

theorem normal_setAuditedEmails (hlaws : TextLaws strip lower) {s s' : EnteredAccounts}
    (h : s.Normal strip lower) {userId : Nat} {auditedEmails : List String}
    (hstep : s.step strip lower (.setAuditedEmails userId auditedEmails) = some s') :
    s'.Normal strip lower := by
  simp only [EnteredAccounts.step, Option.some.injEq] at hstep
  subst hstep
  unfold setAuditedEmails
  simp only
  split
  · exact h
  · rename_i u hget
    split
    · exact h
    · rename_i hrole
      rw [not_not] at hrole
      split
      · exact h
      · rename_i hne
        refine h.update fun v hv hid => ?_
        rw [UserTable.eq_of_get hget hv hid]
        refine normal_auditor hlaws ?_ ?_ hne
        · exact hrole
        · rfl

/-- An insert leaves the perimeters normalised if the new row's is. -/
theorem normal_insert_iff {s : EnteredAccounts} (h : s.Normal strip lower) {row : Nat → User}
    {hrow : ∀ id, (row id).id = id} {addresses : List String} :
    (s.write (.ok (s.users.insert row hrow)) s.users.nextId addresses).Normal strip lower ↔
      (row s.users.nextId).Normal strip lower addresses := by
  constructor
  · intro hnew
    have := hnew (row s.users.nextId) (List.mem_append_right _ (List.mem_singleton_self _))
    simpa [EnteredAccounts.write, hrow] using this
  · intro hnew u hu
    rcases List.mem_append.mp hu with hu | hu
    · have hlt := s.users.fresh u hu
      have hother : ¬u.id = s.users.nextId := by omega
      simpa [EnteredAccounts.write, hother] using h u hu
    · rw [List.mem_singleton.mp hu]
      simpa [EnteredAccounts.write, hrow] using hnew

/-- The row `create` adds. -/
def createdRow (strip lower : String → String) (username role displayName : String)
    (email : Option String) (auditedEmails : Option (List String)) (hash : String) (id : Nat) :
    User where
  id := id
  username := username
  passwordHash := hash
  role := role
  email := email.filter (· ≠ "")
  auditedEmails := normalizedAddresses strip lower (auditedEmails.getD [])
  displayName := if displayName = "" then username else displayName
  isActive := true
  failedLogins := 0
  lockedUntil := none

theorem createdRow_id (strip lower : String → String) (username role displayName : String)
    (email : Option String) (auditedEmails : Option (List String)) (hash : String) (id : Nat) :
    (createdRow strip lower username role displayName email auditedEmails hash id).id = id := rfl

/-- What `create` checks. -/
structure Creates (strip lower : String → String) (t : UserTable) (username password role : String)
    (email : Option String) (auditedEmails : Option (List String)) : Prop where
  role_valid : role ∈ validRoles
  username_given : username ≠ ""
  password_given : password ≠ ""
  auditor : role = "auditor" →
    strip (email.getD "") ≠ "" ∧ normalizedAddresses strip lower (auditedEmails.getD []) ≠ []
  username_free : ∀ u ∈ t.rows, u.username ≠ username

theorem createUser_cases (strip lower : String → String) (t : UserTable)
    (username password role displayName hash : String) (email : Option String)
    (auditedEmails : Option (List String)) :
    Creates strip lower t username password role email auditedEmails ∧
      createUser strip lower t username password role displayName email auditedEmails hash
        = .ok (t.insert
          (createdRow strip lower username role displayName email auditedEmails hash)
          (createdRow_id strip lower username role displayName email auditedEmails hash)) ∨
    ¬Creates strip lower t username password role email auditedEmails ∧
      ∃ e, createUser strip lower t username password role displayName email auditedEmails hash
        = .error e := by
  -- the checks in their order; each refuses before anything is written
  unfold createUser
  simp only
  split
  · rename_i hrole
    exact .inr ⟨fun h => hrole h.role_valid, _, rfl⟩
  · rename_i hrole
    split
    · rename_i hempty
      exact .inr ⟨fun h => hempty.elim h.username_given h.password_given, _, rfl⟩
    · rename_i hgiven
      split
      · rename_i hemail
        exact .inr ⟨fun h => (h.auditor hemail.1).1 hemail.2, _, rfl⟩
      · rename_i hemail
        split
        · rename_i haudited
          exact .inr ⟨fun h => (h.auditor haudited.1).2 haudited.2, _, rfl⟩
        · rename_i haudited
          split
          · rename_i htaken
            obtain ⟨u, hu, hname⟩ := List.any_eq_true.mp htaken
            exact .inr ⟨fun h => h.username_free u hu (by simpa using hname), _, rfl⟩
          · rename_i hfree
            refine .inl ⟨⟨not_not.mp hrole, fun h => hgiven (.inl h), fun h => hgiven (.inr h),
              fun h => ⟨fun h' => hemail ⟨h, h'⟩, fun h' => haudited ⟨h, h'⟩⟩, ?_⟩, rfl⟩
            intro u hu hname
            exact hfree (List.any_eq_true.mpr ⟨u, hu, by simpa using hname⟩)

/-- The row `create` adds has a normalised perimeter, a user's if his
address is stripped. -/
theorem normal_createdRow_iff (hlaws : TextLaws strip lower) {t : UserTable}
    {username password role displayName hash : String} {email : Option String}
    {auditedEmails : Option (List String)} {id : Nat}
    (h : Creates strip lower t username password role email auditedEmails) :
    (createdRow strip lower username role displayName email auditedEmails hash id).Normal strip lower
        (enteredAt role email auditedEmails) ↔
      (role = "user" → ∀ e ∈ email, strip e = e) := by
  constructor
  · rintro hnormal huser e he
    by_cases hblank : e = ""
    · rw [hblank, hlaws.strip_empty]
    · refine stripped_of_normal hlaws huser hnormal e ?_
      have hkept : e ∈ email.filter (· ≠ "") :=
        Option.mem_filter_iff.mpr ⟨he, by simpa using hblank⟩
      exact Option.mem_filter_iff.mpr ⟨hkept, by simpa using hblank⟩
  · intro hstripped
    by_cases hauditor : role = "auditor"
    · rw [enteredAt, if_pos hauditor]
      exact normal_auditor hlaws hauditor rfl (h.auditor hauditor).2
    · rw [enteredAt, if_neg hauditor]
      rintro (huser | hrole)
      · refine normal_user hlaws huser ?_ ?_ (.inl huser)
        · intro a ha
          exact hstripped huser a (Option.mem_filter_iff.mp (Option.mem_filter_iff.mp ha).1).1
        · intro a ha hblank
          have ha := Option.mem_toList.mp ha
          rw [hstripped huser a ha] at hblank ⊢
          have hkept : a ∈ email.filter (· ≠ "") :=
            Option.mem_filter_iff.mpr ⟨ha, by simpa using hblank⟩
          exact ⟨a, Option.mem_filter_iff.mpr ⟨hkept, by simpa using hblank⟩, rfl⟩
      · exact absurd hrole hauditor

theorem normal_create_iff (hlaws : TextLaws strip lower) {s s' : EnteredAccounts}
    (h : s.Normal strip lower) {username password role displayName hash : String}
    {email : Option String} {auditedEmails : Option (List String)}
    (hstep : s.step strip lower
      (.create username password role displayName email auditedEmails hash) = some s') :
    s'.Normal strip lower ↔ EntersStripped strip s
      (.create username password role displayName email auditedEmails hash) := by
  simp only [EnteredAccounts.step, Option.some.injEq] at hstep
  subst hstep
  rw [EntersStripped]
  rcases createUser_cases strip lower s.users username password role displayName hash email
    auditedEmails with ⟨hcreates, hok⟩ | ⟨hrefused, e, herror⟩
  · rw [hok, normal_insert_iff h, normal_createdRow_iff hlaws hcreates]
    exact forall_congr' fun _ => ⟨fun hstripped _ _ _ => hstripped, fun hentered =>
      hentered hcreates.username_given hcreates.password_given hcreates.username_free⟩
  · rw [herror]
    refine iff_of_true h fun huser hname hpassword hfree => absurd ?_ hrefused
    have hnot : role ≠ "auditor" := by
      rw [huser]
      decide
    exact ⟨by rw [huser]; decide, hname, hpassword, fun h => absurd h hnot, hfree⟩

theorem normal_step_iff (hlaws : TextLaws strip lower) {s s' : EnteredAccounts} {op : AccountOp}
    (h : s.Normal strip lower) (hstep : s.step strip lower op = some s') :
    s'.Normal strip lower ↔ EntersStripped strip s op := by
  cases op with
  | create username password role displayName email auditedEmails hash =>
      exact normal_create_iff hlaws h hstep
  | setEmail userId email => exact iff_of_true (normal_setEmail hlaws h hstep) trivial
  | setAuditedEmails userId auditedEmails =>
      exact iff_of_true (normal_setAuditedEmails hlaws h hstep) trivial

/-- **When every non-admin perimeter is normalised**: after every sequence
of account operations, exactly when each account of role `user` is created
with an address without surrounding blanks. -/
theorem perimeters_normal_iff (hlaws : TextLaws strip lower) {s t : EnteredAccounts}
    {ops : List AccountOp} (hs : s.Normal strip lower)
    (hrun : run (EnteredAccounts.step strip lower) s ops = some t) :
    (∀ front back u, ops = front ++ back →
        run (EnteredAccounts.step strip lower) s front = some u → u.Normal strip lower) ↔
      Meets (EnteredAccounts.step strip lower) (EntersStripped strip) s ops :=
  always_iff_meets (fun _ _ _ h hstep => normal_step_iff hlaws h hstep) hrun hs

end

/-! ## An address entered with blanks -/

theorem asciiTextLaws : TextLaws asciiStrip String.toLower where
  strip_empty := by decide +kernel
  strip_strip := asciiStrip_asciiStrip
  lower_lower := toLower_toLower
  lower_eq_empty := fun s => by
    rw [← String.toList_inj, ← String.toList_inj,
      show s.toLower.toList = s.toList.map Char.toLower from String.toList_map]
    simp
  strip_lower := asciiStrip_toLower_iff

namespace NormalPerimeter

/-- No account yet. -/
def noAccounts : EnteredAccounts where
  users := ⟨[], 1, List.nodup_nil, by simp⟩
  entered := fun _ => []

theorem noAccounts_normal : noAccounts.Normal asciiStrip String.toLower := by
  intro u hu
  cases hu

/-- Bob's account, with a blank before and after his address. -/
def createBlank : AccountOp :=
  .create "bob" "secret" "user" "" (some " Bob@x.fr ") none "hash"

def blankRow : User :=
  createdRow asciiStrip String.toLower "bob" "user" "" (some " Bob@x.fr ") none "hash" 1

/-- The account Bob gets has a perimeter no address is in. -/
theorem createBlank_not_normal : ∃ t,
    run (EnteredAccounts.step asciiStrip String.toLower) noAccounts [createBlank] = some t ∧
      blankRow ∈ t.users.rows ∧ blankRow.scope String.toLower = some [" bob@x.fr "] ∧
      ¬t.Normal asciiStrip String.toLower := by
  have hrow : blankRow ∈ (noAccounts.users.insert
      (createdRow asciiStrip String.toLower "bob" "user" "" (some " Bob@x.fr ") none "hash")
      (createdRow_id _ _ _ _ _ _ _ _)).rows := List.mem_singleton_self _
  refine ⟨_, rfl, hrow, by decide +kernel, fun h => ?_⟩
  have hstripped := stripped_of_normal asciiTextLaws rfl (h blankRow hrow) " Bob@x.fr "
    (by decide +kernel)
  exact absurd hstripped (by decide +kernel)

/-- Bob's account, created without them; a later `set_email` may have them. -/
def createThenBlank : List AccountOp :=
  [.create "bob" "secret" "user" "" (some "Bob@x.fr") none "hash", .setEmail 1 (some " Bob@x.fr ")]

theorem createThenBlank_normal : ∃ t,
    run (EnteredAccounts.step asciiStrip String.toLower) noAccounts createThenBlank = some t ∧
      t.Normal asciiStrip String.toLower := by
  have hmeets : Meets (EnteredAccounts.step asciiStrip String.toLower) (EntersStripped asciiStrip)
      noAccounts createThenBlank := by
    refine ⟨?_, trivial, trivial⟩
    intro _ _ _ _ e he
    obtain rfl := Option.some.inj he
    decide +kernel
  refine ⟨_, rfl, ?_⟩
  exact (perimeters_normal_iff asciiTextLaws noAccounts_normal rfl).mpr hmeets _ [] _
    (List.append_nil _).symm rfl

end NormalPerimeter

end MailArchiver

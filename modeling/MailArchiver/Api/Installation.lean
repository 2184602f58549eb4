import MailArchiver.Api.Admins
import MailArchiver.Api.Credentials

/-!
# Api — Installation

`_startup` of `api/main.py` on an empty database, by any number of
replicas at once, and the requests those serve that have come through.
All are deployed with one `ADMIN_USERNAME`, which is also the account
`api/users.py` protects. Between `ensure_schema()` and the connection to
RabbitMQ stand the fixtures (`api/fixtures.py`): a replica counts the
accounts, looks for the name, and inserts, in transactions of their own;
the unique key of the name decides between two. Any step may raise, and
the replica then never serves. Of the schema and of the broker only
whether they answer is modelled here, and the task of the restore
consumer is not (`Api.RestoreConsumer`).
-/

namespace MailArchiver

open Transition

/-- `ADMIN_USERNAME` and `ADMIN_PASSWORD`. -/
structure Bootstrap where
  adminUsername : String
  adminPassword : String

/-- Where a replica is. -/
inductive Replica where
  /-- Before `ensure_schema()`. -/
  | starting
  /-- Before `users.count()`. -/
  | counting
  /-- Before the lookup of `users.create`. -/
  | checking
  /-- Before its commit. -/
  | inserting (hash : String)
  /-- Before `connect()` and the two channels. -/
  | connecting
  | serving
  /-- The startup raised. -/
  | failed (e : PyError)
  /-- The process has ended. -/
  | stopped
  deriving DecidableEq, Repr

/-- Within `_startup`. -/
def Replica.startsUp : Replica → Bool
  | .starting | .counting | .checking | .inserting _ | .connecting => true
  | .serving | .failed _ | .stopped => false

/-- Past the fixtures. -/
def Replica.seeded : Replica → Bool
  | .connecting | .serving => true
  | .starting | .counting | .checking | .inserting _ | .failed _ | .stopped => false

structure Installation where
  accounts : Accounts
  replicas : List Replica

inductive InstallationEvent where
  /-- A replica is started, or started again. -/
  | boot
  /-- Its next step, which gets an answer; `salt` is what bcrypt draws. -/
  | startup (r : Nat) (salt : String)
  /-- Its next step raises: the database or the broker does not answer, or
  the schema is refused. -/
  | fail (r : Nat) (e : PyError)
  | stop (r : Nat)
  /-- A replica that serves receives a request on the accounts. -/
  | receive (r : Nat) (request : AccountRequest)
  /-- The next transaction of a request. -/
  | advance (i : Nat)
  /-- A replica that serves makes another write to `users`. -/
  | write (r : Nat) (w : UserWrite)
  deriving DecidableEq, Repr

/-- Neither a creation, nor a deactivation, nor a deletion: those go
through the checks of their routes. -/
def UserWrite.unchecked : UserWrite → Bool
  | .create .. | .setActive .. | .delete .. => false
  | .setPassword .. | .setEmail .. | .setAuditedEmails .. | .countLogin .. => true

variable (B : Bcrypt) (strip lower : String → String) (cfg : Bootstrap)

/-- `users.create(username=username, password=password, role="admin",
display_name="Administrateur")`. -/
def Bootstrap.create (t : UserTable) (hash : String) : Except PyError UserTable :=
  createUser strip lower t cfg.adminUsername cfg.adminPassword "admin" "Administrateur" none none hash

namespace Installation

def users (s : Installation) : UserTable := s.accounts.users

def withReplica (s : Installation) (r : Nat) (phase : Replica) : Installation :=
  { s with replicas := s.replicas.set r phase }

def withUsers (s : Installation) (users : UserTable) : Installation :=
  { s with accounts := { s.accounts with users := users } }

/-- The next step of a startup. -/
def startup (s : Installation) (r : Nat) (salt : String) : Replica → Option Installation
  | .starting => some (s.withReplica r .counting)
  | .counting =>
      some (s.withReplica r (if 0 < s.users.rows.length then .connecting else .checking))
  | .checking =>
      match cfg.create strip lower s.users "" with
      | .error e => some (s.withReplica r (.failed e))
      | .ok _ =>
          match B.hashPassword cfg.adminPassword salt with
          | .error e => some (s.withReplica r (.failed e))
          | .ok hash => some (s.withReplica r (.inserting hash))
  | .inserting hash =>
      match cfg.create strip lower s.users hash with
      | .ok users => some ((s.withUsers users).withReplica r .connecting)
      | .error _ => some (s.withReplica r (.failed .integrityError))
  | .connecting => some (s.withReplica r .serving)
  | .serving | .failed _ | .stopped => none

/-- The requests of a replica that stops may still go on: what they do is
what they do if it stops later. -/
def step (s : Installation) : InstallationEvent → Option Installation
  | .boot => some { s with replicas := s.replicas ++ [.starting] }
  | .startup r salt =>
      match s.replicas[r]? with
      | some phase => s.startup B strip lower cfg r salt phase
      | none => none
  | .fail r e =>
      match s.replicas[r]? with
      | some phase => if phase.startsUp then some (s.withReplica r (.failed e)) else none
      | none => none
  | .stop r => some (s.withReplica r .stopped)
  | .receive r request =>
      if s.replicas[r]? = some .serving then
        (s.accounts.step strip lower (.receive cfg.adminUsername request)).map fun accounts =>
          { s with accounts := accounts }
      else none
  | .advance i =>
      (s.accounts.step strip lower (.advance i)).map fun accounts => { s with accounts := accounts }
  | .write r w =>
      if s.replicas[r]? = some .serving ∧ w.unchecked = true then
        match w.apply B strip lower s.users with
        | .ok users => some (s.withUsers users)
        | .error _ => some s
      else none

/-- Nothing is installed yet. -/
def fresh : Installation where
  accounts := ⟨Directory.empty.users, []⟩
  replicas := []

end Installation

/-! ## The account of that name -/

/-- An active administrator of this name. -/
def UserTable.HasAdminNamed (t : UserTable) (username : String) : Prop :=
  ∃ u ∈ t.rows, u.username = username ∧ u.isActiveAdmin = true

/-- The request may still take this account away: it is past the check of
its name. -/
def AccountCall.threatens (c : AccountCall) (userId : Nat) : Prop :=
  (c.phase = .writing ∨ c.phase = .counting) ∧ c.request.takesOff = some userId

/-- An account that is there, or was, and is not that of this name. -/
def UserTable.Other (t : UserTable) (username : String) (userId : Nat) : Prop :=
  userId < t.nextId ∧ ∀ u ∈ t.rows, u.id = userId → u.username ≠ username

/-- What a write leaves as it was: the accounts in their order, with their
names, roles and activity. -/
structure UserTable.SameAccounts (t t' : UserTable) : Prop where
  nextId : t'.nextId = t.nextId
  rows : t'.rows.map (fun u => (u.id, u.username, u.role, u.isActive))
    = t.rows.map fun u => (u.id, u.username, u.role, u.isActive)

variable {B strip lower cfg}

namespace UserTable

variable {t t' : UserTable} {username : String} {userId : Nat}

theorem SameAccounts.refl (t : UserTable) : t.SameAccounts t := ⟨rfl, rfl⟩

theorem SameAccounts.mem (h : t.SameAccounts t') {u : User} (hu : u ∈ t'.rows) :
    ∃ v ∈ t.rows, v.id = u.id ∧ v.username = u.username ∧ v.role = u.role
      ∧ v.isActive = u.isActive := by
  have hmem := List.mem_map_of_mem (f := fun u : User => (u.id, u.username, u.role, u.isActive)) hu
  rw [h.rows] at hmem
  obtain ⟨v, hv, heq⟩ := List.mem_map.mp hmem
  simp only [Prod.mk.injEq] at heq
  exact ⟨v, hv, heq⟩

theorem SameAccounts.symm (h : t.SameAccounts t') : t'.SameAccounts t :=
  ⟨h.nextId.symm, h.rows.symm⟩

theorem SameAccounts.names (h : t.SameAccounts t') :
    t'.rows.map User.username = t.rows.map User.username := by
  have := congrArg (List.map fun x : Nat × String × String × Bool => x.2.1) h.rows
  simpa [List.map_map, Function.comp_def] using this

theorem SameAccounts.update {f : User → User} {hf : ∀ u, (f u).id = u.id}
    (hrow : ∀ u, (f u).username = u.username ∧ (f u).role = u.role
      ∧ (f u).isActive = u.isActive) : t.SameAccounts (t.update userId f hf) := by
  refine ⟨rfl, ?_⟩
  show (t.rows.map _).map _ = _
  rw [List.map_map]
  refine List.map_congr_left fun u _ => ?_
  obtain ⟨h₁, h₂, h₃⟩ := hrow u
  simp only [Function.comp_apply]
  split
  · rw [hf, h₁, h₂, h₃]
  · rfl

theorem SameAccounts.hasAdminNamed (h : t.SameAccounts t') (hadmin : t.HasAdminNamed username) :
    t'.HasAdminNamed username := by
  obtain ⟨u, hu, hname, hactive⟩ := hadmin
  obtain ⟨v, hv, -, hname', hrole, hactive'⟩ := h.symm.mem hu
  refine ⟨v, hv, hname'.trans hname, ?_⟩
  rw [User.isActiveAdmin, hrole, hactive']
  exact hactive

theorem SameAccounts.other (h : t.SameAccounts t') (hother : t.Other username userId) :
    t'.Other username userId := by
  refine ⟨h.nextId ▸ hother.1, fun u hu hid => ?_⟩
  obtain ⟨v, hv, hid', hname, -⟩ := h.mem hu
  rw [← hname]
  exact hother.2 v hv (hid'.trans hid)

/-- Taking another account away leaves this one. -/
theorem Other.ne (h : t.Other username userId) {u : User} (hu : u ∈ t.rows)
    (hname : u.username = username) : u.id ≠ userId :=
  fun hid => h.2 u hu hid hname

end UserTable

/-- The writes without a check keep every account. -/
theorem UserWrite.sameAccounts {w : UserWrite} {t t' : UserTable} (hun : w.unchecked = true)
    (hw : w.apply B strip lower t = .ok t') : t.SameAccounts t' := by
  cases w with
  | create | setActive | delete => cases hun
  | setPassword userId password salt =>
      obtain ⟨hash, -, rfl⟩ := setPassword_ok hw
      exact .update fun _ => ⟨rfl, rfl, rfl⟩
  | setEmail userId email =>
      obtain ⟨address, rfl⟩ := setEmail_ok hw
      exact .update fun _ => ⟨rfl, rfl, rfl⟩
  | setAuditedEmails userId auditedEmails =>
      obtain ⟨audited, rfl⟩ := setAuditedEmails_ok hw
      exact .update fun _ => ⟨rfl, rfl, rfl⟩
  | countLogin read changed =>
      simp only [UserWrite.apply] at hw
      split at hw <;> cases hw
      exact .update fun _ => ⟨rfl, rfl, rfl⟩

/-- A write past its check keeps the account of this name, the names
apart, and what the other requests rely on. -/
theorem keeps_write {t t' : UserTable} {username : String} {request : AccountRequest}
    (hnames : (t.rows.map User.username).Nodup) (hadmin : t.HasAdminNamed username)
    (hother : ∀ userId, request.takesOff = some userId → t.Other username userId)
    (hw : request.write strip lower t = .ok t') :
    (t'.rows.map User.username).Nodup ∧ t'.HasAdminNamed username
      ∧ ∀ userId, t.Other username userId → t'.Other username userId := by
  cases request with
  | create name password role displayName email auditedEmails hash =>
      rcases createUser_cases strip lower t name password role displayName hash email auditedEmails
        with ⟨hcreates, hok⟩ | ⟨-, e, herror⟩
      · rw [AccountRequest.write, hok, Except.ok.injEq] at hw
        rw [← hw]
        refine ⟨Table.nodup_append hnames hcreates.username_free, ?_, ?_⟩
        · obtain ⟨u, hu, hfacts⟩ := hadmin
          exact ⟨u, List.mem_append_left _ hu, hfacts⟩
        · rintro userId ⟨hlt, hrows⟩
          refine ⟨Nat.lt_succ_of_lt hlt, fun u hu hid => ?_⟩
          rcases List.mem_append.mp hu with hu | hu
          · exact hrows u hu hid
          · -- the new row has a new id
            rw [List.mem_singleton.mp hu, createdRow_id] at hid
            omega
      · rw [AccountRequest.write, herror] at hw
        cases hw
  | setActive userId active =>
      obtain rfl := setActive_ok hw
      have hsame : ∀ u : User,
          (if u.id = userId then { u with isActive := active } else u).username = u.username := by
        intro u
        split <;> rfl
      refine ⟨?_, ?_, ?_⟩
      · show ((t.rows.map _).map User.username).Nodup
        rw [Table.map_key_update hsame]
        exact hnames
      · obtain ⟨u, hu, hname, hactive⟩ := hadmin
        refine ⟨_, List.mem_map_of_mem hu, ?_⟩
        by_cases hid : u.id = userId
        · -- only an activation reaches this account
          cases active with
          | false => exact absurd hid ((hother userId rfl).ne hu hname)
          | true =>
              rw [User.isActiveAdmin, Bool.and_eq_true] at hactive
              simp [hid, hname, User.isActiveAdmin, of_decide_eq_true hactive.1]
        · simp [hid, hname, hactive]
      · rintro id ⟨hlt, hrows⟩
        refine ⟨hlt, fun v hv hid => ?_⟩
        obtain ⟨u, hu, rfl⟩ := List.mem_map.mp hv
        rw [hsame]
        refine hrows u hu (Eq.trans ?_ hid)
        split <;> rfl
  | delete userId =>
      obtain rfl := deleteUser_ok hw
      refine ⟨Table.nodup_filter hnames _, ?_, ?_⟩
      · obtain ⟨u, hu, hname, hactive⟩ := hadmin
        have hne := (hother userId rfl).ne hu hname
        exact ⟨u, List.mem_filter.mpr ⟨hu, decide_eq_true hne⟩, hname, hactive⟩
      · rintro id ⟨hlt, hrows⟩
        exact ⟨hlt, fun u hu => hrows u (List.mem_of_mem_filter hu)⟩

/-- The check of a target passes other accounts only. -/
theorem other_of_listed {t : UserTable} {username : String} {request : AccountRequest}
    {userId : Nat} (htakes : request.takesOff = some userId)
    (hphase : request.listed username t = .writing ∨ request.listed username t = .counting) :
    t.Other username userId := by
  have htarget : ∃ target detail, t.get userId = some target
      ∧ request.listed username t = checkTarget username detail target := by
    cases request with
    | create => cases htakes
    | setActive id active =>
        cases active with
        | true => cases htakes
        | false =>
            cases htakes
            simp only [AccountRequest.listed] at hphase ⊢
            cases hget : t.get userId with
            | none => simp [hget] at hphase
            | some target => exact ⟨target, _, rfl, rfl⟩
    | delete id =>
        cases htakes
        simp only [AccountRequest.listed] at hphase ⊢
        cases hget : t.get userId with
        | none => simp [hget] at hphase
        | some target => exact ⟨target, _, rfl, rfl⟩
  obtain ⟨target, detail, hget, hlisted⟩ := htarget
  obtain ⟨hmem, rfl⟩ := UserTable.get_eq_some.mp hget
  refine ⟨t.fresh target hmem, fun u hu hid => ?_⟩
  rw [List.inj_on_of_nodup_map t.unique hu hmem hid]
  intro hname
  rw [hlisted, checkTarget, if_pos hname] at hphase
  simp at hphase

/-- The account of the fixtures is new, and an active administrator. -/
theorem Bootstrap.create_ok {t t' : UserTable} {hash : String}
    (h : cfg.create strip lower t hash = .ok t') :
    ∃ row hrow, (row t.nextId).username = cfg.adminUsername
      ∧ (row t.nextId).isActiveAdmin = true ∧ (∀ u ∈ t.rows, u.username ≠ cfg.adminUsername)
      ∧ t' = t.insert row hrow := by
  rcases createUser_cases strip lower t cfg.adminUsername cfg.adminPassword "admin"
    "Administrateur" hash none none with ⟨hcreates, hok⟩ | ⟨-, e, herror⟩
  · rw [Bootstrap.create, hok, Except.ok.injEq] at h
    exact ⟨_, _, rfl, rfl, hcreates.username_free, h.symm⟩
  · rw [Bootstrap.create, herror] at h
    cases h

/-! ## Every state of an installation -/

structure Installation.Guarded (cfg : Bootstrap) (s : Installation) : Prop where
  names : (s.users.rows.map User.username).Nodup
  admin : s.users.rows ≠ [] → s.users.HasAdminNamed cfg.adminUsername
  seeded : ∀ (r : Nat) (phase : Replica), s.replicas[r]? = some phase → phase.seeded = true →
    s.users.rows ≠ []
  /-- No request comes before there is an account. -/
  busy : s.accounts.calls ≠ [] → s.users.rows ≠ []
  protect : ∀ c ∈ s.accounts.calls, c.protectedName = cfg.adminUsername
  others : ∀ c ∈ s.accounts.calls, ∀ userId, c.threatens userId →
    s.users.Other cfg.adminUsername userId

namespace Installation.Guarded

variable {s s' : Installation}

theorem fresh : Installation.fresh.Guarded cfg where
  names := List.nodup_nil
  admin := fun h => absurd rfl h
  seeded := by
    intro r phase h
    cases h
  busy := fun h => absurd rfl h
  protect := fun c hc => absurd hc List.not_mem_nil
  others := fun c hc => absurd hc List.not_mem_nil

/-- A replica in another phase, which is not past the fixtures unless
there is an account. -/
theorem withReplica (h : s.Guarded cfg) (r : Nat) {phase : Replica}
    (hphase : phase.seeded = true → s.users.rows ≠ []) : (s.withReplica r phase).Guarded cfg := by
  refine ⟨h.names, h.admin, fun r' phase' hr' hseeded => ?_, h.busy, h.protect, h.others⟩
  rcases Slots.getElem?_set_or hr' with ⟨-, rfl⟩ | ⟨-, hold⟩
  · exact hphase hseeded
  · exact h.seeded r' phase' hold hseeded

/-- The first account is the administrator's, as nobody is served before. -/
theorem create (h : s.Guarded cfg) {hash : String} {users : UserTable}
    (hw : cfg.create strip lower s.users hash = .ok users) : (s.withUsers users).Guarded cfg := by
  obtain ⟨row, hrow, hname, hadmin, hfree, rfl⟩ := Bootstrap.create_ok hw
  have hempty : s.users.rows = [] := by
    by_contra hne
    obtain ⟨u, hu, huname, -⟩ := h.admin hne
    exact hfree u hu huname
  have hcalls : s.accounts.calls = [] := by
    by_contra hne
    exact h.busy hne hempty
  have hrows : (s.withUsers (s.users.insert row hrow)).users.rows = [row s.users.nextId] := by
    show s.users.rows ++ [row s.users.nextId] = _
    rw [hempty, List.nil_append]
  constructor
  · rw [hrows]
    exact List.nodup_singleton _
  · intro _
    exact ⟨_, hrows ▸ List.mem_singleton_self _, hname, hadmin⟩
  · intro r phase _ _ hnone
    rw [hrows] at hnone
    cases hnone
  · exact fun hne => absurd hcalls hne
  · exact h.protect
  · intro c hc
    change c ∈ s.accounts.calls at hc
    rw [hcalls] at hc
    cases hc

/-- Once there is the account of that name, the replicas are of no concern. -/
theorem of_accounts {accounts : Accounts} {replicas : List Replica}
    (hnames : (accounts.users.rows.map User.username).Nodup)
    (hadmin : accounts.users.HasAdminNamed cfg.adminUsername)
    (hprotect : ∀ c ∈ accounts.calls, c.protectedName = cfg.adminUsername)
    (hothers : ∀ c ∈ accounts.calls, ∀ userId, c.threatens userId →
      accounts.users.Other cfg.adminUsername userId) :
    (⟨accounts, replicas⟩ : Installation).Guarded cfg := by
  have hrows : accounts.users.rows ≠ [] := by
    obtain ⟨u, hu, -⟩ := hadmin
    exact List.ne_nil_of_mem hu
  exact ⟨hnames, fun _ => hadmin, fun _ _ _ _ => hrows, fun _ => hrows, hprotect, hothers⟩

/-- A request that goes on without a write. -/
theorem withPhase (h : s.Guarded cfg) {i : Nat} {c : AccountCall} (hi : s.accounts.calls[i]? = some c)
    {phase : AccountPhase} (hphase : phase = .writing ∨ phase = .counting →
      ∀ userId, c.request.takesOff = some userId → s.users.Other cfg.adminUsername userId) :
    ({ s with accounts := s.accounts.withPhase i c phase } : Installation).Guarded cfg := by
  have hc := List.mem_of_getElem? hi
  have hne := h.busy (List.ne_nil_of_mem hc)
  refine of_accounts h.names (h.admin hne) ?_ ?_
  · intro c' hc'
    rcases List.mem_or_eq_of_mem_set hc' with hc' | rfl
    · exact h.protect c' hc'
    · exact h.protect c hc
  · rintro c' hc' userId ⟨hp, htakes⟩
    rcases List.mem_or_eq_of_mem_set hc' with hc' | rfl
    · exact h.others c' hc' userId ⟨hp, htakes⟩
    · exact hphase hp userId htakes

theorem receive (h : s.Guarded cfg) (hne : s.users.rows ≠ []) {request : AccountRequest}
    {accounts : Accounts}
    (hs : s.accounts.step strip lower (.receive cfg.adminUsername request) = some accounts) :
    ({ s with accounts := accounts } : Installation).Guarded cfg := by
  cases hs
  refine of_accounts h.names (h.admin hne) ?_ ?_
  · intro c hc
    rcases List.mem_append.mp hc with hc | hc
    · exact h.protect c hc
    · rw [List.mem_singleton.mp hc]
  · intro c hc userId hthreat
    rcases List.mem_append.mp hc with hc | hc
    · exact h.others c hc userId hthreat
    · rw [List.mem_singleton.mp hc] at hthreat
      obtain ⟨hp, htakes⟩ := hthreat
      -- a creation takes nothing away, the others list the accounts first
      cases request with
      | create => cases htakes
      | setActive | delete => simp at hp

theorem advance (h : s.Guarded cfg) {i : Nat} {accounts : Accounts}
    (hs : s.accounts.step strip lower (.advance i) = some accounts) :
    ({ s with accounts := accounts } : Installation).Guarded cfg := by
  simp only [Accounts.step] at hs
  split at hs
  · rename_i c hi
    have hc := List.mem_of_getElem? hi
    have hname := h.protect c hc
    obtain ⟨name, request, phase⟩ := c
    cases phase with
    | listing =>
        cases hs
        refine h.withPhase hi fun hp userId htakes => ?_
        obtain rfl : name = cfg.adminUsername := hname
        exact other_of_listed htakes hp
    | counting =>
        cases hs
        exact h.withPhase hi fun _ userId htakes => h.others _ hc userId ⟨.inr rfl, htakes⟩
    | writing =>
        simp only [Accounts.advance] at hs
        split at hs
        · rename_i users hw
          cases hs
          have hne := h.busy (List.ne_nil_of_mem hc)
          obtain ⟨hnames, hadmin, hother⟩ := keeps_write h.names (h.admin hne)
            (fun userId htakes => h.others _ hc userId ⟨.inl rfl, htakes⟩) hw
          refine of_accounts hnames hadmin ?_ ?_
          · intro c' hc'
            rcases List.mem_or_eq_of_mem_set hc' with hc' | rfl
            · exact h.protect c' hc'
            · exact hname
          · rintro c' hc' userId ⟨hp, htakes⟩
            rcases List.mem_or_eq_of_mem_set hc' with hc' | rfl
            · exact hother userId (h.others c' hc' userId ⟨hp, htakes⟩)
            · simp at hp
        · cases hs
          exact h.withPhase hi fun hp => by simp at hp
    | answered answer => cases hs
  · cases hs

theorem step {e : InstallationEvent} (h : s.Guarded cfg)
    (hs : s.step B strip lower cfg e = some s') : s'.Guarded cfg := by
  cases e with
  | boot =>
      cases hs
      refine ⟨h.names, h.admin, fun r phase hr hseeded => ?_, h.busy, h.protect, h.others⟩
      change (s.replicas ++ [Replica.starting])[r]? = some phase at hr
      rw [List.getElem?_append] at hr
      split at hr
      · exact h.seeded r phase hr hseeded
      · have hmem := List.mem_of_getElem? hr
        rw [List.mem_singleton.mp hmem] at hseeded
        cases hseeded
  | startup r salt =>
      simp only [Installation.step] at hs
      split at hs
      · rename_i phase hr
        cases phase with
        | starting =>
            cases hs
            exact h.withReplica r nofun
        | counting =>
            cases hs
            refine h.withReplica r fun hseeded => ?_
            split at hseeded
            · exact List.ne_nil_of_length_pos ‹_›
            · cases hseeded
        | checking =>
            simp only [startup] at hs
            split at hs
            · cases hs
              exact h.withReplica r nofun
            · split at hs <;> cases hs
              · exact h.withReplica r nofun
              · exact h.withReplica r nofun
        | inserting hash =>
            simp only [startup] at hs
            split at hs <;> cases hs
            · rename_i users hw
              have hcreated := h.create hw
              obtain ⟨row, hrow, -, -, -, rfl⟩ := Bootstrap.create_ok hw
              exact hcreated.withReplica r fun _ => List.append_ne_nil_of_right_ne_nil _ (by simp)
            · exact h.withReplica r nofun
        | connecting =>
            cases hs
            exact h.withReplica r fun _ => h.seeded r _ hr rfl
        | serving | failed | stopped => cases hs
      · cases hs
  | fail r e =>
      simp only [Installation.step] at hs
      split at hs
      · split at hs <;> cases hs
        exact h.withReplica r nofun
      · cases hs
  | stop r =>
      cases hs
      exact h.withReplica r nofun
  | receive r request =>
      simp only [Installation.step] at hs
      split at hs
      · rename_i hserving
        obtain ⟨accounts, haccounts, rfl⟩ := Option.map_eq_some_iff.mp hs
        exact h.receive (h.seeded r _ hserving rfl) haccounts
      · cases hs
  | advance i =>
      obtain ⟨accounts, haccounts, rfl⟩ := Option.map_eq_some_iff.mp hs
      exact h.advance haccounts
  | write r w =>
      simp only [Installation.step] at hs
      split at hs
      · rename_i hserves
        have hne := h.seeded r _ hserves.1 rfl
        split at hs <;> cases hs
        · rename_i users hw
          have hsame := UserWrite.sameAccounts hserves.2 hw
          refine of_accounts ?_ (hsame.hasAdminNamed (h.admin hne)) h.protect ?_
          · rw [hsame.names]
            exact h.names
          · exact fun c hc userId hthreat => hsame.other (h.others c hc userId hthreat)
        · exact h
      · cases hs

end Installation.Guarded

/-! ## The first start -/

namespace Installation

theorem step_startup {s s' : Installation} {r : Nat} {salt : String} {phase : Replica}
    (hr : s.replicas[r]? = some phase)
    (hs : s.startup B strip lower cfg r salt phase = some s') :
    step B strip lower cfg s (.startup r salt) = some s' := by
  simp only [step, hr, hs]

theorem withReplica_self (s : Installation) {r : Nat} {phase : Replica}
    (hr : s.replicas[r]? = some phase) (phase' : Replica) :
    (s.withReplica r phase').replicas[r]? = some phase' :=
  List.getElem?_set_self (List.getElem?_eq_some_iff.mp hr).1

/-- On no accounts the creation of the fixtures succeeds. -/
theorem create_fresh {t : UserTable} (hempty : t.rows = [])
    (hgiven : cfg.adminUsername ≠ "" ∧ cfg.adminPassword ≠ "") (hash : String) :
    ∃ users, cfg.create strip lower t hash = .ok users := by
  rcases createUser_cases strip lower t cfg.adminUsername cfg.adminPassword "admin"
    "Administrateur" hash none none with ⟨-, hok⟩ | ⟨hnot, -⟩
  · exact ⟨_, hok⟩
  · refine absurd ⟨by decide, hgiven.1, hgiven.2, fun h => ?_, ?_⟩ hnot
    · exact absurd h (by decide)
    · intro u hu
      rw [hempty] at hu
      cases hu

/-- The last step of a startup. -/
theorem step_connecting {s : Installation} {r : Nat} (hr : s.replicas[r]? = some .connecting)
    (salt : String) :
    step B strip lower cfg s (.startup r salt) = some (s.withReplica r .serving) :=
  step_startup hr rfl

/-- A replica that is started now and runs its startup alone, each step
answered, serves. -/
theorem startup_alone (s : Installation)
    (hgiven : cfg.adminUsername ≠ "" ∧ cfg.adminPassword ≠ "") {salt hash : String}
    (hhash : B.hashPassword cfg.adminPassword salt = .ok hash) :
    ∃ n s', run (step B strip lower cfg) s
        (.boot :: List.replicate n (.startup s.replicas.length salt)) = some s'
      ∧ s'.replicas[s.replicas.length]? = some .serving := by
  let s₀ : Installation := { s with replicas := s.replicas ++ [.starting] }
  let s₁ := s₀.withReplica s.replicas.length .counting
  have hboot : step B strip lower cfg s .boot = some s₀ := rfl
  have hstarting : s₀.replicas[s.replicas.length]? = some .starting := by
    simp [s₀]
  have hschema : step B strip lower cfg s₀ (.startup s.replicas.length salt) = some s₁ :=
    step_startup hstarting rfl
  have hcounting : s₁.replicas[s.replicas.length]? = some .counting :=
    withReplica_self s₀ hstarting .counting
  by_cases hempty : s.users.rows = []
  · -- it finds no account, and creates the first one
    let s₂ := s₁.withReplica s.replicas.length .checking
    let s₃ := s₂.withReplica s.replicas.length (.inserting hash)
    have hcheck : s₁.startup B strip lower cfg s.replicas.length salt .counting = some s₂ := by
      have hzero : ¬0 < s₁.users.rows.length := by
        show ¬0 < s.users.rows.length
        simp [hempty]
      rw [startup, if_neg hzero]
    obtain ⟨users₀, hcreate₀⟩ := @create_fresh strip lower cfg s.users hempty hgiven ""
    obtain ⟨users, hcreate⟩ := @create_fresh strip lower cfg s.users hempty hgiven hash
    have hinsert : s₂.startup B strip lower cfg s.replicas.length salt .checking = some s₃ := by
      simp only [startup, hhash]
      rw [show cfg.create strip lower s₂.users "" = .ok users₀ from hcreate₀]
    have hcommit : s₃.startup B strip lower cfg s.replicas.length salt (.inserting hash)
        = some ((s₃.withUsers users).withReplica s.replicas.length .connecting) := by
      simp only [startup]
      rw [show cfg.create strip lower s₃.users hash = .ok users from hcreate]
    have hchecking := withReplica_self s₁ hcounting .checking
    have hinserting := withReplica_self s₂ hchecking (.inserting hash)
    have hconnecting := withReplica_self (s₃.withUsers users) hinserting .connecting
    refine ⟨5, _, run_cons_eq_some.mpr ⟨_, hboot, run_cons_eq_some.mpr ⟨_, hschema,
      run_cons_eq_some.mpr ⟨_, step_startup hcounting hcheck, run_cons_eq_some.mpr
        ⟨_, step_startup hchecking hinsert, run_cons_eq_some.mpr
          ⟨_, step_startup hinserting hcommit, run_cons_eq_some.mpr
            ⟨_, step_connecting hconnecting salt, rfl⟩⟩⟩⟩⟩⟩, ?_⟩
    exact withReplica_self _ hconnecting .serving
  · have hskip : s₁.startup B strip lower cfg s.replicas.length salt .counting
        = some (s₁.withReplica s.replicas.length .connecting) := by
      have hpos : 0 < s₁.users.rows.length := List.length_pos_iff.mpr hempty
      rw [startup, if_pos hpos]
    have hconnecting := withReplica_self s₁ hcounting .connecting
    refine ⟨3, _, run_cons_eq_some.mpr ⟨_, hboot, run_cons_eq_some.mpr ⟨_, hschema,
      run_cons_eq_some.mpr ⟨_, step_startup hcounting hskip, run_cons_eq_some.mpr
        ⟨_, step_connecting hconnecting salt, rfl⟩⟩⟩⟩, ?_⟩
    exact withReplica_self _ hconnecting .serving

/-- **A fresh installation has its administrator, and keeps it**: whatever
the interleaving of replicas that start, fail, stop and start again with
the requests of those that serve, whenever a replica serves there is
exactly one account of the name `ADMIN_USERNAME`, and it is an active
administrator; and a replica that is started now, is not overtaken and
gets an answer at each step, serves. -/
theorem default_admin_remains {events : List InstallationEvent} {s : Installation}
    (hrun : run (step B strip lower cfg) fresh events = some s) :
    ((∃ r : Nat, s.replicas[r]? = some .serving) →
        ∃ u ∈ s.users.rows, u.isActiveAdmin = true
          ∧ ∀ v ∈ s.users.rows, v.username = cfg.adminUsername ↔ v = u)
      ∧ (cfg.adminUsername ≠ "" ∧ cfg.adminPassword ≠ "" → ∀ salt hash,
        B.hashPassword cfg.adminPassword salt = .ok hash →
          ∃ n s', run (step B strip lower cfg) s
              (.boot :: List.replicate n (.startup s.replicas.length salt)) = some s'
            ∧ s'.replicas[s.replicas.length]? = some .serving) := by
  have h : s.Guarded cfg :=
    run_invariant (I := fun s : Installation => s.Guarded cfg) (fun _ _ _ h hs => h.step hs) hrun
      .fresh
  constructor
  · rintro ⟨r, hr⟩
    obtain ⟨u, hu, hname, hadmin⟩ := h.admin (h.seeded r _ hr rfl)
    refine ⟨u, hu, hadmin, fun v hv => ⟨fun hv' => ?_, ?_⟩⟩
    · exact List.inj_on_of_nodup_map h.names hv hu (hv'.trans hname.symm)
    · rintro rfl
      exact hname
  · exact fun hgiven salt hash hhash => startup_alone s hgiven hhash

/-! ### Two replicas at once -/

def sampleBootstrap : Bootstrap := ⟨"admin", "admin"⟩

/-- Both find no account; the second is refused by the unique key. The
first deactivates nothing: the name is protected. -/
def twoReplicas : List InstallationEvent :=
  [.boot, .boot, .startup 0 "s", .startup 1 "t", .startup 0 "s", .startup 1 "t", .startup 0 "s",
    .startup 1 "t", .startup 1 "t", .startup 0 "s", .startup 1 "t",
    .receive 1 (.setActive 1 false), .advance 0]

theorem default_admin_remains_two : ∃ s,
    run (step sampleBcrypt id id sampleBootstrap) fresh twoReplicas = some s
      ∧ s.replicas = [.failed .integrityError, .serving]
      ∧ s.accounts.calls.map (·.phase) = [.answered
        (.error 400 "le compte administrateur principal ne peut pas être désactivé")]
      ∧ ∃ u ∈ s.users.rows, u.isActiveAdmin = true
        ∧ ∀ v ∈ s.users.rows, v.username = "admin" ↔ v = u := by
  have hany : (run (step sampleBcrypt id id sampleBootstrap) fresh twoReplicas).any (fun s =>
      decide (s.replicas = [.failed .integrityError, .serving])
        && decide (s.accounts.calls.map (·.phase) = [.answered
          (.error 400 "le compte administrateur principal ne peut pas être désactivé")])) = true := by
    decide +kernel
  obtain ⟨s, hrun, hs⟩ := (Option.any_eq_true _ _).mp hany
  simp only [Bool.and_eq_true, decide_eq_true_eq] at hs
  obtain ⟨hreplicas, hcalls⟩ := hs
  exact ⟨s, hrun, hreplicas, hcalls,
    (default_admin_remains hrun).1 ⟨1, by rw [hreplicas]; rfl⟩⟩

end Installation

end MailArchiver

import MailArchiver.Api.Admins
import MailArchiver.Api.Lockout
import MailArchiver.Api.SearchService

/-!
# Api — Sessions

Who is served: `login`, `current_user` and `require_admin` of
`api/main.py` with `api/tokens.py`. A token carries the account as it was
at the login and its end of validity; the accounts are changed meanwhile.
Its signature is the `jwt` package's: what it adds to the claims and what
it accepts are parameters (`sign`, `verifies`). Whose a token is
(`Issued.account`) the program does not keep.
-/

namespace MailArchiver

open Transition

/-- A session token: its payload, `exp` in whole seconds, and the rest of
its text. -/
structure Token where
  claims : Claims
  exp : Int
  signature : String
  deriving DecidableEq, Repr

structure Issued where
  token : Token
  /-- The local account; `none` for one of the directory. -/
  account : Option Nat
  deriving DecidableEq, Repr

/-- A login between its authentication and its token. -/
structure Login where
  user : AuthenticatedUser
  account : Option Nat
  deriving DecidableEq, Repr

/-- What the routes ask of a token. -/
inductive Route where
  /-- `Depends(current_user)`: search, view, export, forward, import. -/
  | user
  | eventsStream
  /-- `Depends(require_admin)`. -/
  | admin
  | changeOwnPassword (oldPassword newPassword hash : String)
  deriving DecidableEq, Repr

/-- What the processes are configured with. -/
structure SessionConfig where
  lockout : LockoutPolicy
  /-- `SESSION_TTL_HOURS`. -/
  ttlHours : Int
  verifyPassword : String → String → Bool
  /-- What `jwt.encode` signs these claims with, under `API_SECRET_KEY`. -/
  sign : Claims → Int → String
  /-- `jwt.decode` accepts the signature. -/
  verifies : Token → Bool
  /-- `LdapAuthenticator.authenticate`. -/
  ldap : String → String → Option AuthenticatedUser
  strip : String → String
  lower : String → String

/-- `timedelta(hours=_TTL_HOURS)`, in microseconds. -/
def SessionConfig.ttl (cfg : SessionConfig) : Int := cfg.ttlHours * 3600000000

structure Sessions where
  users : UserTable
  clock : Int
  logins : List Login
  issued : List Issued
  /-- The tokens the open live streams were opened with. -/
  streams : List Token

inductive SessionEvent where
  | login (username password : String)
  /-- `create_token` for a login that was authenticated. -/
  | issue (i : Nat)
  | administer (request : AccountRequest)
  | request (token : Token) (route : Route)
  deriving DecidableEq, Repr

variable (cfg : SessionConfig)

/-- `create_token(user)`; `none` is the `OverflowError` of `now + ttl`. -/
def issueToken (now : Int) (user : AuthenticatedUser) : Option Token :=
  if 0 ≤ now + cfg.ttl ∧ now + cfg.ttl < instantEnd then
    let exp := (now + cfg.ttl) / 1000000
    some ⟨createToken user, exp, cfg.sign (createToken user) exp⟩
  else none

namespace Sessions

/-- `decode_token(token)`: signed and not expired. -/
def decode (s : Sessions) (token : Token) : Option AuthenticatedUser :=
  if cfg.verifies token = true ∧ s.clock < token.exp * 1000000 then
    some (decodeToken token.claims)
  else none

/-- `UserRepo.change_own_password`; `hash` is that of the new one. -/
def changeOwnPassword (users : UserTable) (username oldPassword newPassword hash : String) :
    Except PyError UserTable :=
  if newPassword = "" then .error (.valueError "nouveau mot de passe requis")
  else
    match users.activeNamed username with
    | none => .error (.keyError "compte introuvable")
    | some u =>
        if cfg.verifyPassword oldPassword u.passwordHash then
          .ok (users.update u.id (fun u => { u with passwordHash := hash }) fun _ => rfl)
        else .error (.valueError "ancien mot de passe incorrect")

/-- The checks of a route: the account it is served to, or the
`HTTPException`. -/
def authorize (s : Sessions) (token : Token) (route : Route) : Except HttpAnswer AuthenticatedUser :=
  match s.decode cfg token with
  | none => .error (.error 401 "jeton invalide ou expiré")
  | some user =>
      match route with
      | .user => .ok user
      | .eventsStream => .ok user
      | .admin =>
          if user.isAdmin then .ok user
          else .error (.error 403 "accès réservé aux administrateurs")
      | .changeOwnPassword oldPassword newPassword hash =>
          match changeOwnPassword cfg s.users user.username oldPassword newPassword hash with
          | .ok _ => .ok user
          | .error (.keyError _) => .error (.error 404 "compte introuvable")
          | .error e => .error (answerOf e)

def withLogin (s : Sessions) (user : AuthenticatedUser) (account : Option Nat) : Sessions :=
  { s with logins := s.logins ++ [⟨user, account⟩] }

/-- The directory is asked where the local account gives nothing. -/
def viaLdap (s : Sessions) (username password : String) : Sessions :=
  match cfg.ldap username password with
  | some user => s.withLogin user none
  | none => s

/-- The first half of `login`: the account, if the password is its own. -/
def authenticate (s : Sessions) (username password : String) : Sessions :=
  match s.users.activeNamed username with
  | none => s.viaLdap cfg username password
  | some u =>
      match authenticateWithLockout cfg.lockout cfg.verifyPassword s.clock password u with
      | .answer .ok => s.withLogin u.authenticated (some u.id)
      | .answer .bad => s.viaLdap cfg username password
      | .answer .locked => s
      | .overflowError => s
      | .commit changed status =>
          if changed.storable then
            let s := { s with
              users := s.users.update u.id (fun row => row.written u changed) fun _ => rfl }
            if status = .ok then s.withLogin u.authenticated (some u.id)
            else s.viaLdap cfg username password
          else s

/-- The routes here that change something. -/
def serve (s : Sessions) (token : Token) (user : AuthenticatedUser) : Route → Sessions
  | .user => s
  | .admin => s
  | .eventsStream => { s with streams := s.streams ++ [token] }
  | .changeOwnPassword oldPassword newPassword hash =>
      match changeOwnPassword cfg s.users user.username oldPassword newPassword hash with
      | .ok users => { s with users := users }
      | .error _ => s

/-- An event at the time of the clock. -/
def act (s : Sessions) : SessionEvent → Option Sessions
  | .login username password => some (s.authenticate cfg username password)
  | .issue i =>
      match s.logins[i]? with
      | none => none
      | some login =>
          let rest : Sessions := { s with logins := s.logins.eraseIdx i }
          match issueToken cfg s.clock login.user with
          | none => some rest
          | some token => some { rest with issued := s.issued ++ [⟨token, login.account⟩] }
  | .administer request =>
      match request.write cfg.strip cfg.lower s.users with
      | .ok users => some { s with users := users }
      | .error _ => some s
  | .request token route =>
      match s.authorize cfg token route with
      | .ok user => some (s.serve cfg token user route)
      | .error _ => some s

/-- Events come with the time; the clock does not go back. -/
def step (s : Sessions) (e : Int × SessionEvent) : Option Sessions :=
  if s.clock ≤ e.1 then ({ s with clock := e.1 } : Sessions).act cfg e.2 else none

def start (users : UserTable) : Sessions := ⟨users, 0, [], [], []⟩

end Sessions

/-! ## After an account is deactivated or deleted -/

/-- The account is deactivated or deleted. -/
def UserTable.Inactive (t : UserTable) (userId : Nat) : Prop :=
  userId < t.nextId ∧ ∀ u ∈ t.rows, u.id = userId → u.isActive = false

namespace UserTable

variable {t t' : UserTable} {userId : Nat}

theorem Inactive.update (h : t.Inactive userId) {id : Nat} {f : User → User}
    {hf : ∀ u, (f u).id = u.id} (hactive : id = userId → ∀ u, u.isActive = false →
      (f u).isActive = false) : (t.update id f hf).Inactive userId := by
  refine ⟨h.1, fun u hu huser => ?_⟩
  obtain ⟨v, hv, rfl⟩ := List.mem_map.mp hu
  by_cases hid : v.id = id
  · simp only [hid, if_true] at huser ⊢
    rw [hf] at huser
    exact hactive (hid.symm.trans huser) v (h.2 v hv huser)
  · simp only [hid, if_false] at huser ⊢
    exact h.2 v hv huser

theorem Inactive.insert (h : t.Inactive userId) {row : Nat → User}
    {hrow : ∀ id, (row id).id = id} : (t.insert row hrow).Inactive userId := by
  refine ⟨Nat.lt_succ_of_lt h.1, fun u hu huser => ?_⟩
  rcases List.mem_append.mp hu with hu | hu
  · exact h.2 u hu huser
  · -- the new row has an id of its own
    have hlt := h.1
    rw [List.mem_singleton.mp hu, hrow] at huser
    omega

theorem Inactive.remove (h : t.Inactive userId) (id : Nat) : (t.remove id).Inactive userId :=
  ⟨h.1, fun u hu => h.2 u (List.mem_of_mem_filter hu)⟩

/-- Nothing but its reactivation makes the account active again. -/
theorem Inactive.write {strip lower : String → String} (h : t.Inactive userId)
    {request : AccountRequest} (hnot : request ≠ .setActive userId true)
    (hw : request.write strip lower t = .ok t') : t'.Inactive userId := by
  cases request with
  | create username password role displayName email auditedEmails hash =>
      obtain ⟨row, hrow, rfl⟩ := createUser_ok hw
      exact h.insert
  | setActive id isActive =>
      simp only [AccountRequest.write, setActive] at hw
      split at hw
      · cases hw
      · cases hw
        refine h.update fun hid u _ => ?_
        cases isActive with
        | false => rfl
        | true => exact absurd (hid ▸ rfl) hnot
  | delete id =>
      simp only [AccountRequest.write, deleteUser] at hw
      split at hw
      · cases hw
      · cases hw
        exact h.remove id

theorem activeNamed_eq_some {username : String} {u : User} (h : t.activeNamed username = some u) :
    u ∈ t.rows ∧ u.isActive = true := by
  have hp := List.find?_some h
  rw [Bool.and_eq_true] at hp
  exact ⟨List.mem_of_find?_eq_some h, hp.2⟩

end UserTable
namespace Sessions

variable {cfg}

/-- An account that is not active, with no login under way and no tokens
but the old ones. -/
structure Quiet (userId : Nat) (old : List Issued) (s : Sessions) : Prop where
  inactive : s.users.Inactive userId
  logins : ∀ l ∈ s.logins, l.account ≠ some userId
  issued : ∀ x ∈ s.issued, x.account = some userId → x ∈ old

variable {userId : Nat} {old : List Issued} {s s' : Sessions}

theorem Quiet.withLogin (h : Quiet userId old s) {user : AuthenticatedUser} {account : Option Nat}
    (haccount : account ≠ some userId) : Quiet userId old (s.withLogin user account) := by
  refine ⟨h.inactive, fun l hl => ?_, h.issued⟩
  rcases List.mem_append.mp hl with hl | hl
  · exact h.logins l hl
  · rw [List.mem_singleton.mp hl]
    exact haccount

theorem Quiet.viaLdap (h : Quiet userId old s) (username password : String) :
    Quiet userId old (s.viaLdap cfg username password) := by
  rw [Sessions.viaLdap]
  split
  · exact h.withLogin nofun
  · exact h

theorem Quiet.withUsers (h : Quiet userId old s) {users : UserTable} (husers : users.Inactive userId) :
    Quiet userId old { s with users := users } :=
  ⟨husers, h.logins, h.issued⟩

theorem Quiet.authenticate (h : Quiet userId old s) (username password : String) :
    Quiet userId old (s.authenticate cfg username password) := by
  cases hnamed : s.users.activeNamed username with
  | none =>
      rw [Sessions.authenticate, hnamed]
      exact h.viaLdap username password
  | some u =>
      obtain ⟨hu, hactive⟩ := UserTable.activeNamed_eq_some hnamed
      have hne : some u.id ≠ some userId := by
        intro heq
        have := h.inactive.2 u hu (Option.some.inj heq)
        rw [hactive] at this
        cases this
      simp only [Sessions.authenticate, hnamed]
      cases authenticateWithLockout cfg.lockout cfg.verifyPassword s.clock password u with
      | answer status =>
          cases status with
          | ok => exact h.withLogin hne
          | bad => exact h.viaLdap username password
          | locked => exact h
      | overflowError => exact h
      | commit changed status =>
          have hwritten : Quiet userId old { s with
              users := s.users.update u.id (fun row => row.written u changed) fun _ => rfl } :=
            h.withUsers (h.inactive.update fun _ _ hv => hv)
          simp only
          split
          · split
            · exact hwritten.withLogin hne
            · exact hwritten.viaLdap username password
          · exact h

theorem Quiet.changeOwnPassword (h : Quiet userId old s) {users : UserTable}
    {username oldPassword newPassword hash : String}
    (hok : changeOwnPassword cfg s.users username oldPassword newPassword hash = .ok users) :
    Quiet userId old { s with users := users } := by
  unfold Sessions.changeOwnPassword at hok
  split at hok
  · cases hok
  · split at hok
    · cases hok
    · split at hok
      · cases hok
        exact h.withUsers (h.inactive.update fun _ _ hv => hv)
      · cases hok

theorem Quiet.serve (h : Quiet userId old s) (token : Token) (user : AuthenticatedUser)
    (route : Route) : Quiet userId old (s.serve cfg token user route) := by
  cases route with
  | user => exact h
  | admin => exact h
  | eventsStream => exact ⟨h.inactive, h.logins, h.issued⟩
  | changeOwnPassword oldPassword newPassword hash =>
      rw [Sessions.serve]
      split
      · exact h.changeOwnPassword ‹_›
      · exact h

theorem Quiet.act (h : Quiet userId old s) {e : SessionEvent}
    (hnot : e ≠ .administer (.setActive userId true)) (hs : s.act cfg e = some s') :
    Quiet userId old s' := by
  cases e with
  | login username password =>
      cases hs
      exact h.authenticate username password
  | issue i =>
      simp only [Sessions.act] at hs
      split at hs
      · cases hs
      · rename_i login hlogin
        have hrest : Quiet userId old { s with logins := s.logins.eraseIdx i } :=
          ⟨h.inactive, fun l hl => h.logins l (List.mem_of_mem_eraseIdx hl), h.issued⟩
        split at hs
        · cases hs
          exact hrest
        · cases hs
          refine ⟨h.inactive, hrest.logins, fun x hx hacc => ?_⟩
          rcases List.mem_append.mp hx with hx | hx
          · exact h.issued x hx hacc
          · rw [List.mem_singleton.mp hx] at hacc
            exact absurd hacc (h.logins login (List.mem_of_getElem? hlogin))
  | administer request =>
      simp only [Sessions.act] at hs
      split at hs
      · cases hs
        exact h.withUsers (h.inactive.write (fun heq => hnot (heq ▸ rfl)) ‹_›)
      · cases hs
        exact h
  | request token route =>
      simp only [Sessions.act] at hs
      split at hs
      · cases hs
        exact h.serve token _ route
      · cases hs
        exact h

/-- A run over which the account stays as it is. -/
theorem Quiet.run {events : List (Int × SessionEvent)} (h : Quiet userId old s)
    (hnot : ∀ e ∈ events, e.2 ≠ .administer (.setActive userId true))
    (hrun : run (step cfg) s events = some s') : Quiet userId old s' := by
  refine run_invariant_of_meets (fun s e s' h hC hs => ?_) hrun (meets_of_forall hnot) h
  simp only [step] at hs
  split at hs
  · have htime : Quiet userId old { s with clock := e.1 } := ⟨h.inactive, h.logins, h.issued⟩
    exact htime.act hC hs
  · cases hs

/-! ### The end of validity -/

theorem viaLdap_tokens (s : Sessions) (username password : String) :
    (s.viaLdap cfg username password).issued = s.issued
      ∧ (s.viaLdap cfg username password).clock = s.clock := by
  rw [viaLdap]
  split
  · exact ⟨rfl, rfl⟩
  · exact ⟨rfl, rfl⟩

theorem authenticate_tokens (s : Sessions) (username password : String) :
    (s.authenticate cfg username password).issued = s.issued
      ∧ (s.authenticate cfg username password).clock = s.clock := by
  cases hnamed : s.users.activeNamed username with
  | none =>
      rw [authenticate, hnamed]
      exact viaLdap_tokens s username password
  | some u =>
      simp only [authenticate, hnamed]
      cases authenticateWithLockout cfg.lockout cfg.verifyPassword s.clock password u with
      | answer status =>
          cases status with
          | ok => exact ⟨rfl, rfl⟩
          | bad => exact viaLdap_tokens s username password
          | locked => exact ⟨rfl, rfl⟩
      | overflowError => exact ⟨rfl, rfl⟩
      | commit changed status =>
          simp only
          split
          · split
            · exact ⟨rfl, rfl⟩
            · exact viaLdap_tokens _ username password
          · exact ⟨rfl, rfl⟩

theorem serve_tokens (s : Sessions) (token : Token) (user : AuthenticatedUser) (route : Route) :
    (s.serve cfg token user route).issued = s.issued
      ∧ (s.serve cfg token user route).clock = s.clock := by
  cases route with
  | user => exact ⟨rfl, rfl⟩
  | admin => exact ⟨rfl, rfl⟩
  | eventsStream => exact ⟨rfl, rfl⟩
  | changeOwnPassword oldPassword newPassword hash =>
      rw [serve]
      split
      · exact ⟨rfl, rfl⟩
      · exact ⟨rfl, rfl⟩

/-- A token ends within the time to live, counted in whole seconds. -/
theorem exp_of_issueToken {now : Int} {user : AuthenticatedUser} {token : Token}
    (h : issueToken cfg now user = some token) : token.exp * 1000000 ≤ now + cfg.ttl := by
  simp only [issueToken] at h
  split at h
  · cases h
    exact Int.ediv_mul_le _ (by decide)
  · cases h

/-- Every token ends within the time to live from now. -/
def Dated (cfg : SessionConfig) (s : Sessions) : Prop :=
  ∀ x ∈ s.issued, x.token.exp * 1000000 ≤ s.clock + cfg.ttl

theorem Dated.of_tokens (h : Dated cfg s) (htokens : s'.issued = s.issued ∧ s'.clock = s.clock) :
    Dated cfg s' := by
  intro x hx
  rw [htokens.1] at hx
  rw [htokens.2]
  exact h x hx

theorem Dated.act (h : Dated cfg s) {e : SessionEvent} (hs : s.act cfg e = some s') :
    Dated cfg s' ∧ s'.clock = s.clock := by
  cases e with
  | login username password =>
      cases hs
      have htokens := @authenticate_tokens cfg s username password
      exact ⟨h.of_tokens htokens, htokens.2⟩
  | issue i =>
      simp only [Sessions.act] at hs
      split at hs
      · cases hs
      · split at hs
        · cases hs
          exact ⟨h, rfl⟩
        · rename_i token htoken
          cases hs
          refine ⟨fun x hx => ?_, rfl⟩
          rcases List.mem_append.mp hx with hx | hx
          · exact h x hx
          · rw [List.mem_singleton.mp hx]
            exact exp_of_issueToken htoken
  | administer request =>
      simp only [Sessions.act] at hs
      split at hs
      · cases hs
        exact ⟨h, rfl⟩
      · cases hs
        exact ⟨h, rfl⟩
  | request token route =>
      simp only [Sessions.act] at hs
      split at hs
      · rename_i user _
        cases hs
        have htokens := @serve_tokens cfg s token user route
        exact ⟨h.of_tokens htokens, htokens.2⟩
      · cases hs
        exact ⟨h, rfl⟩

theorem Dated.step (h : Dated cfg s) {e : Int × SessionEvent} (hs : step cfg s e = some s') :
    Dated cfg s' := by
  simp only [Sessions.step] at hs
  split at hs
  · rename_i hle
    have htime : Dated cfg { s with clock := e.1 } :=
      fun x hx => (h x hx).trans (Int.add_le_add_right hle _)
    exact (htime.act hs).1
  · cases hs

/-- An expired token is refused on every route. -/
theorem authorize_expired {token : Token} (h : token.exp * 1000000 ≤ s.clock) (route : Route) :
    s.authorize cfg token route = .error (.error 401 "jeton invalide ou expiré") := by
  have hdecode : s.decode cfg token = none := if_neg fun hvalid => absurd hvalid.2 (by omega)
  rw [authorize, hdecode]

/-- A password is changed on the row of an active account. -/
theorem authorize_changeOwnPassword {token : Token}
    (h : s.users.activeNamed token.claims.sub = none) (oldPassword newPassword hash : String) :
    ∃ answer, s.authorize cfg token (.changeOwnPassword oldPassword newPassword hash)
      = .error answer := by
  by_cases hvalid : cfg.verifies token = true ∧ s.clock < token.exp * 1000000
  · have hdecode : s.decode cfg token = some (decodeToken token.claims) := if_pos hvalid
    simp only [authorize, hdecode]
    by_cases hnew : newPassword = ""
    · exact ⟨_, by simp [changeOwnPassword, hnew]; rfl⟩
    · exact ⟨_, by simp [changeOwnPassword, hnew, decodeToken, h]; rfl⟩
  · have hdecode : s.decode cfg token = none := if_neg hvalid
    exact ⟨_, by rw [authorize, hdecode]⟩

/-- **A revoked account loses access when its tokens end**: from a state
in which it is not active and no login of it is under way, over every run
that does not reactivate it, no token is issued for it any more, and from
one time to live later on no token of its own is served, on any route.
Until then a token is served on its own: the answer does not depend on
the accounts, but for the change of its password, which needs an active
account of its name. -/
theorem revoked_access_ends {users : UserTable} {before events : List (Int × SessionEvent)}
    (hbefore : Transition.run (step cfg) (start users) before = some s)
    (hinactive : s.users.Inactive userId) (hlogins : ∀ l ∈ s.logins, l.account ≠ some userId)
    (hnot : ∀ e ∈ events, e.2 ≠ .administer (.setActive userId true))
    (hrun : Transition.run (step cfg) s events = some s') :
    (∀ x ∈ s'.issued, x.account = some userId → x ∈ s.issued
        ∧ (s.clock + cfg.ttl ≤ s'.clock → ∀ route, s'.authorize cfg x.token route
          = .error (.error 401 "jeton invalide ou expiré")))
      ∧ (∀ (token : Token) (route : Route) (others : UserTable),
          (∀ oldPassword newPassword hash, route ≠ .changeOwnPassword oldPassword newPassword hash) →
            ({ s' with users := others } : Sessions).authorize cfg token route
              = s'.authorize cfg token route)
      ∧ ∀ (token : Token) (oldPassword newPassword hash : String),
          s'.users.activeNamed token.claims.sub = none →
            ∃ answer, s'.authorize cfg token (.changeOwnPassword oldPassword newPassword hash)
              = .error answer := by
  have hdated : Dated cfg s :=
    run_invariant (fun _ _ _ h hs => Dated.step h hs) hbefore (by simp [Dated, start])
  have hquiet : Quiet userId s.issued s' :=
    Quiet.run ⟨hinactive, hlogins, fun _ hx _ => hx⟩ hnot hrun
  refine ⟨fun x hx hacc => ?_, fun token route others hroute => ?_, fun token old new hash hnone =>
    authorize_changeOwnPassword hnone old new hash⟩
  · have hold := hquiet.issued x hx hacc
    exact ⟨hold, fun hlate route => authorize_expired ((hdated x hold).trans hlate) route⟩
  · cases route with
    | user => rfl
    | eventsStream => rfl
    | admin => rfl
    | changeOwnPassword old new hash => exact absurd rfl (hroute old new hash)

/-! ### Carol is deactivated -/

def carolTable : UserTable where
  rows := [Lockout.carol]
  nextId := 2
  unique := by decide
  fresh := by decide

def eightHours : SessionConfig where
  lockout := ⟨5, 15⟩
  ttlHours := 8
  verifyPassword := Lockout.sameText
  sign := fun _ _ => "signature"
  verifies := fun token => token.signature = "signature"
  ldap := fun _ _ => none
  strip := id
  lower := id

/-- Carol logs in, and her account is deactivated. -/
def carolRevoked : List (Int × SessionEvent) :=
  [(0, .login "carol" "secret"), (1, .issue 0), (2, .administer (.setActive 1 false))]

def carolToken : Token := ⟨createToken Lockout.carol.authenticated, 28800, "signature"⟩

/-- Her token is still served. -/
theorem revoked_account_served :
    (Transition.run (step eightHours) (start carolTable) carolRevoked).map (fun s =>
      (s.issued, s.users.rows.map User.isActive,
        s.authorize eightHours carolToken .user))
      = some ([⟨carolToken, some 1⟩], [false], .ok (decodeToken carolToken.claims)) := by
  decide +kernel

/-- Eight hours later it is not. -/
theorem revoked_access_ends_carol : ∃ s s' : Sessions,
    Transition.run (step eightHours) (start carolTable) carolRevoked = some s
      ∧ Transition.run (step eightHours) s [(28800000002, .request carolToken .user)] = some s'
      ∧ ⟨carolToken, some 1⟩ ∈ s'.issued
      ∧ s'.authorize eightHours carolToken .eventsStream
        = .error (.error 401 "jeton invalide ou expiré") := by
  have hend : ∃ s s' : Sessions,
      Transition.run (step eightHours) (start carolTable) carolRevoked = some s
        ∧ Transition.run (step eightHours) s [(28800000002, .request carolToken .user)] = some s'
        ∧ s.users.Inactive 1 ∧ (∀ l ∈ s.logins, l.account ≠ some 1)
        ∧ s.clock + eightHours.ttl ≤ s'.clock ∧ ⟨carolToken, some 1⟩ ∈ s'.issued := by
    exact ⟨_, _, rfl, rfl, ⟨by decide, by decide +kernel⟩, by decide +kernel, by decide +kernel,
      by decide +kernel⟩
  obtain ⟨s, s', hbefore, hrun, hinactive, hlogins, hlate, hissued⟩ := hend
  obtain ⟨htokens, -, -⟩ := revoked_access_ends hbefore hinactive hlogins (by decide) hrun
  exact ⟨s, s', hbefore, hrun, hissued, (htokens _ hissued rfl).2 hlate .eventsStream⟩

end Sessions
end MailArchiver

import MailArchiver.Api.Sessions
import MailArchiver.System.Readings

/-!
# System — Readers

Who is given a mail: the routes of `System.Readings` behind
`current_user`, beside logins and whatever changes the accounts. A token
says what the account was at its login, and a request goes by that.
-/

namespace MailArchiver

open Transition

variable {env : Env} {cfg : SessionConfig}

/-! ## Logins and tokens -/

namespace Sessions

variable (cfg) in
/-- The password opens an account of this name at this time: a local one,
not locked, or one of the directory. -/
inductive Opens (s : Sessions) (now : Int) (username password : String) : AuthenticatedUser → Prop where
  | account {u : User} (hnamed : s.users.activeNamed username = some u)
      (hunlocked : u.lockedUntil.any (now < ·) = false)
      (hverify : cfg.verifyPassword password u.passwordHash = true) :
      Opens s now username password u.authenticated
  | directory {user : AuthenticatedUser} (hldap : cfg.ldap username password = some user) :
      Opens s now username password user

variable {s s' : Sessions} {now : Int} {username password : String} {e : SessionEvent}

theorem Opens.withClock {clock : Int} {user : AuthenticatedUser}
    (h : ({ s with clock := clock } : Sessions).Opens cfg now username password user) :
    s.Opens cfg now username password user := by
  cases h with
  | account hnamed hunlocked hverify => exact .account hnamed hunlocked hverify
  | directory hldap => exact .directory hldap

/-- An attempt that is admitted was made with the password. -/
theorem verified_of_ok {u : User}
    (h : authenticateWithLockout cfg.lockout cfg.verifyPassword now password u = .answer .ok
      ∨ ∃ changed, authenticateWithLockout cfg.lockout cfg.verifyPassword now password u
        = .commit changed .ok) :
    u.lockedUntil.any (now < ·) = false ∧ cfg.verifyPassword password u.passwordHash = true := by
  unfold authenticateWithLockout at h
  by_cases hactive : u.isActive = true
  · by_cases hlocked : u.lockedUntil.any (now < ·) = true
    · simp [hactive, hlocked] at h
    · by_cases hverify : cfg.verifyPassword password u.passwordHash = true
      · exact ⟨by simpa using hlocked, hverify⟩
      · simp only [hactive, hlocked, hverify, Bool.not_true, Bool.false_eq_true, if_false] at h
        split at h
        · split at h
          · simp at h
          · simp at h
        · simp at h
  · simp [hactive] at h

/-- A login that was not there before was opened. -/
theorem mem_logins_withLogin {user : AuthenticatedUser} {account : Option Nat} {l : Login}
    (h : l ∈ (s.withLogin user account).logins) : l ∈ s.logins ∨ l.user = user := by
  rcases List.mem_append.mp h with h | h
  · exact .inl h
  · exact .inr (by rw [List.mem_singleton.mp h])

theorem logins_viaLdap {l : Login} (h : l ∈ (s.viaLdap cfg username password).logins) :
    l ∈ s.logins ∨ cfg.ldap username password = some l.user := by
  rw [viaLdap] at h
  split at h
  · rename_i user hldap
    rcases mem_logins_withLogin h with h | h
    · exact .inl h
    · exact .inr (h ▸ hldap)
  · exact .inl h

theorem logins_authenticate {l : Login} (h : l ∈ (s.authenticate cfg username password).logins) :
    l ∈ s.logins ∨ s.Opens cfg s.clock username password l.user := by
  cases hnamed : s.users.activeNamed username with
  | none =>
      rw [authenticate, hnamed] at h
      exact (logins_viaLdap h).imp_right .directory
  | some u =>
      simp only [authenticate, hnamed] at h
      have hok := @verified_of_ok cfg s.clock password u
      have hopened : ∀ {s' : Sessions}, s'.logins = s.logins →
          (authenticateWithLockout cfg.lockout cfg.verifyPassword s.clock password u = .answer .ok
            ∨ ∃ changed, authenticateWithLockout cfg.lockout cfg.verifyPassword s.clock password u
              = .commit changed .ok) →
          l ∈ (s'.withLogin u.authenticated (some u.id)).logins →
          l ∈ s.logins ∨ s.Opens cfg s.clock username password l.user := by
        intro s' hsame hdecision hl
        obtain ⟨hunlocked, hverify⟩ := hok hdecision
        rcases mem_logins_withLogin hl with hl | hl
        · exact .inl (hsame ▸ hl)
        · exact .inr (hl ▸ .account hnamed hunlocked hverify)
      cases hdecision : authenticateWithLockout cfg.lockout cfg.verifyPassword s.clock password u with
      | answer status =>
          simp only [hdecision] at h
          cases status with
          | ok => exact hopened rfl (.inl hdecision) h
          | bad => exact (logins_viaLdap h).imp_right .directory
          | locked => exact .inl h
      | overflowError =>
          simp only [hdecision] at h
          exact .inl h
      | commit changed status =>
          simp only [hdecision] at h
          split at h
          · split at h
            · rename_i hstatus
              exact hopened rfl (.inr ⟨changed, hstatus ▸ hdecision⟩) h
            · exact (logins_viaLdap h).imp_right .directory
          · exact .inl h

/-- What a step adds to the logins under way was opened by it. -/
theorem logins_step {now : Int} (hs : s.step cfg (now, e) = some s') {l : Login}
    (hl : l ∈ s'.logins) : l ∈ s.logins ∨ ∃ username password, e = .login username password
      ∧ s.Opens cfg now username password l.user := by
  simp only [step] at hs
  split at hs
  · cases e with
    | login username password =>
        cases hs
        rcases logins_authenticate hl with hl | hopens
        · exact .inl hl
        · exact .inr ⟨username, password, rfl, hopens.withClock⟩
    | issue i =>
        simp only [act] at hs
        split at hs
        · cases hs
        · split at hs
          · cases hs
            exact .inl (List.mem_of_mem_eraseIdx hl)
          · cases hs
            exact .inl (List.mem_of_mem_eraseIdx hl)
    | administer request =>
        simp only [act] at hs
        split at hs
        · cases hs
          exact .inl hl
        · cases hs
          exact .inl hl
    | request token route =>
        simp only [act] at hs
        split at hs
        · rename_i user _
          cases hs
          cases route with
          | user | admin | eventsStream => exact .inl hl
          | changeOwnPassword oldPassword newPassword hash =>
              simp only [serve] at hl
              split at hl
              · exact .inl hl
              · exact .inl hl
        · cases hs
          exact .inl hl
  · cases hs

/-- What a step adds to the tokens was made for a login under way. -/
theorem issued_step {now : Int} (hs : s.step cfg (now, e) = some s') {x : Issued}
    (hx : x ∈ s'.issued) : x ∈ s.issued ∨ ∃ i, e = .issue i ∧ ∃ login ∈ s.logins,
      issueToken cfg now login.user = some x.token := by
  simp only [step] at hs
  split at hs
  · cases e with
    | login username password =>
        cases hs
        rw [(authenticate_tokens _ username password).1] at hx
        exact .inl hx
    | issue i =>
        simp only [act] at hs
        split at hs
        · cases hs
        · rename_i login hlogin
          split at hs
          · cases hs
            exact .inl hx
          · rename_i token htoken
            cases hs
            rcases List.mem_append.mp hx with hx | hx
            · exact .inl hx
            · rw [List.mem_singleton.mp hx]
              exact .inr ⟨i, rfl, login, List.mem_of_getElem? hlogin, htoken⟩
    | administer request =>
        simp only [act] at hs
        split at hs
        · cases hs
          exact .inl hx
        · cases hs
          exact .inl hx
    | request token route =>
        simp only [act] at hs
        split at hs
        · rename_i user _
          cases hs
          rw [(serve_tokens _ token user route).1] at hx
          exact .inl hx
        · cases hs
          exact .inl hx
  · cases hs

/-- A request on one of the reading routes moves the clock alone. -/
theorem step_request_user {now : Int} {token : Token}
    (hs : s.step cfg (now, .request token .user) = some s') : s' = { s with clock := now } := by
  simp only [step] at hs
  split at hs
  · simp only [act] at hs
    split at hs
    · cases hs
      rfl
    · cases hs
      rfl
  · cases hs

/-- It is served on a token that is signed and has not ended. -/
theorem verifies_of_authorize {token : Token} {user : AuthenticatedUser}
    (h : s.authorize cfg token .user = .ok user) :
    cfg.verifies token = true ∧ s.clock < token.exp * 1000000
      ∧ user = decodeToken token.claims := by
  by_cases hvalid : cfg.verifies token = true ∧ s.clock < token.exp * 1000000
  · have hdecode : s.decode cfg token = some (decodeToken token.claims) := if_pos hvalid
    simp only [authorize, hdecode, Except.ok.injEq] at h
    exact ⟨hvalid.1, hvalid.2, h.symm⟩
  · have hdecode : s.decode cfg token = none := if_neg hvalid
    rw [authorize, hdecode] at h
    cases h

end Sessions

/-! ## The routes behind their tokens -/

structure Readers (env : Env) where
  sessions : Sessions
  readings : Readings env

inductive ReadersEvent where
  | session (e : Int × SessionEvent)
  /-- Another route writes the accounts, in any way. -/
  | accounts (users : UserTable)
  /-- A request comes in with a token. -/
  | ask (now : Int) (token : Token) (ask : Ask)
  /-- Anything but the arrival of a request. -/
  | readings (e : ReadingsEvent)

namespace Readers

def init (env : Env) (users : UserTable) (settings : AppSettings) : Readers env where
  sessions := .start users
  readings := .init env settings

variable (cfg) in
def step (s : Readers env) : ReadersEvent → Option (Readers env)
  | .session e => (s.sessions.step cfg e).map fun sessions => { s with sessions := sessions }
  | .accounts users => some { s with sessions := { s.sessions with users := users } }
  | .ask now token ask =>
      match s.sessions.step cfg (now, .request token .user) with
      | none => none
      | some sessions =>
          match sessions.authorize cfg token .user with
          | .error _ => some { s with sessions := sessions }
          | .ok user =>
              (s.readings.step cfg.lower (.arrive user ask)).map fun readings => ⟨sessions, readings⟩
  | .readings (.arrive _ _) => none
  | .readings e => (s.readings.step cfg.lower e).map fun readings => { s with readings := readings }

variable (cfg) in
/-- No request comes with a forged token: one whose signature is accepted
was issued. -/
def unforged (s : Readers env) : ReadersEvent → Bool
  | .ask _ token _ => !cfg.verifies token || decide (token ∈ s.sessions.issued.map Issued.token)
  | .session _ | .accounts _ | .readings _ => true

section History

variable (cfg) (start : Readers env) (es : List ReadersEvent)

/-- The account logged in among these events, and this is what it was. -/
def LoggedIn (user : AuthenticatedUser) : Prop :=
  ∃ front back s now username password,
    es = front ++ .session (now, .login username password) :: back
      ∧ Transition.run (step cfg) start front = some s
      ∧ s.sessions.Opens cfg now username password user

/-- The request came with a token of a login of `user`, made less than the
time to live before. -/
def Admitted (q : Reading) (user : AuthenticatedUser) : Prop :=
  LoggedIn cfg start es user ∧ q.user = decodeToken (createToken user)
    ∧ ∃ made i came token, .session (made, .issue i) ∈ es ∧ .ask came token q.ask ∈ es
      ∧ token.claims = createToken user ∧ came < made + cfg.ttl

/-- What the sessions and the requests maintain. -/
structure Sound (s : Readers env) : Prop where
  readings : s.readings.Sound cfg.lower
  logins : ∀ l ∈ s.sessions.logins, LoggedIn cfg start es l.user
  issued : ∀ x ∈ s.sessions.issued, ∃ user, LoggedIn cfg start es user
    ∧ x.token.claims = createToken user
    ∧ ∃ made i, .session (made, .issue i) ∈ es ∧ x.token.exp * 1000000 ≤ made + cfg.ttl
  requests : ∀ q ∈ s.readings.requests, ∃ user, Admitted cfg start es q user

end History

variable {start s s' : Readers env} {es : List ReadersEvent}

theorem step_readings {e : ReadingsEvent} (hs : s.step cfg (.readings e) = some s') :
    (∀ user ask, e ≠ .arrive user ask) ∧ ∃ readings,
      s.readings.step cfg.lower e = some readings ∧ s' = { s with readings := readings } := by
  have hmap : (s.readings.step cfg.lower e).map (fun readings => { s with readings := readings })
      = some s' ∧ ∀ user ask, e ≠ .arrive user ask := by
    cases e with
    | arrive user ask => cases hs
    | archive | changeSettings | turn => exact ⟨hs, fun _ _ heq => by cases heq⟩
  obtain ⟨hmap, hnot⟩ := hmap
  obtain ⟨readings, hreadings, rfl⟩ := Option.map_eq_some_iff.mp hmap
  exact ⟨hnot, readings, hreadings, rfl⟩

theorem claims_of_issueToken {now : Int} {user : AuthenticatedUser} {token : Token}
    (h : issueToken cfg now user = some token) : token.claims = createToken user := by
  simp only [issueToken] at h
  split at h <;> cases h
  rfl

/-- A step of the sessions leaves every login and token accounted for. -/
theorem Sound.session (h : Sound cfg start es s) {e : Int × SessionEvent} {sessions : Sessions}
    (hplace : ∃ front back, es = front ++ .session e :: back
      ∧ Transition.run (Readers.step cfg) start front = some s)
    (hs : s.sessions.step cfg e = some sessions) :
    Sound cfg start es { s with sessions := sessions } := by
  obtain ⟨now, e⟩ := e
  obtain ⟨front, back, hsplit, hfront⟩ := hplace
  refine ⟨h.readings, fun l hl => ?_, fun x hx => ?_, h.requests⟩
  · rcases Sessions.logins_step hs hl with hl | ⟨username, password, rfl, hopens⟩
    · exact h.logins l hl
    · exact ⟨front, back, s, now, username, password, hsplit, hfront, hopens⟩
  · rcases Sessions.issued_step hs hx with hx | ⟨i, rfl, login, hlogin, htoken⟩
    · exact h.issued x hx
    · refine ⟨login.user, h.logins login hlogin, claims_of_issueToken htoken, now, i, ?_, ?_⟩
      · exact hsplit ▸ List.mem_append_right _ List.mem_cons_self
      · exact Sessions.exp_of_issueToken htoken

/-- The requests after a step are those before it, and what arrives. -/
theorem requests_step {r r' : Readings env} {e : ReadingsEvent} (hs : r.step cfg.lower e = some r')
    {q : Reading} (hq : q ∈ r'.requests) :
    (∃ q₀ ∈ r.requests, q₀.user = q.user ∧ q₀.ask = q.ask)
      ∨ ∃ user ask, e = .arrive user ask ∧ q = ⟨user, ask, .received⟩ := by
  cases e with
  | archive e =>
      obtain ⟨world, -, rfl⟩ := Option.map_eq_some_iff.mp hs
      exact .inl ⟨q, hq, rfl, rfl⟩
  | changeSettings settings =>
      cases hs
      exact .inl ⟨q, hq, rfl, rfl⟩
  | arrive user ask =>
      cases hs
      rcases List.mem_append.mp hq with hq | hq
      · exact .inl ⟨q, hq, rfl, rfl⟩
      · exact .inr ⟨user, ask, rfl, List.mem_singleton.mp hq⟩
  | turn i t =>
      simp only [Readings.step] at hs
      split at hs
      · cases hs
      · rename_i q₀ hq₀
        obtain ⟨reached, -, rfl⟩ := Option.map_eq_some_iff.mp hs
        rcases List.mem_or_eq_of_mem_set hq with hq | rfl
        · exact .inl ⟨q, hq, rfl, rfl⟩
        · exact .inl ⟨q₀, List.mem_of_getElem? hq₀, rfl, rfl⟩

theorem Admitted.congr {q q₀ : Reading} {user : AuthenticatedUser}
    (h : Admitted cfg start es q₀ user) (huser : q₀.user = q.user) (hask : q₀.ask = q.ask) :
    Admitted cfg start es q user := by
  obtain ⟨hlogged, htoken, hcame⟩ := h
  rw [huser] at htoken
  rw [hask] at hcame
  exact ⟨hlogged, htoken, hcame⟩

/-- A request that is let in brings the login its token was made for. -/
theorem Sound.admits (h : Sound cfg start es s) {now : Int} {token : Token} {ask : Ask}
    (hask : .ask now token ask ∈ es) (hunforged : s.unforged cfg (.ask now token ask) = true)
    {user : AuthenticatedUser}
    (hok : ({ s.sessions with clock := now } : Sessions).authorize cfg token .user = .ok user) :
    ∃ account, Admitted cfg start es ⟨user, ask, .received⟩ account := by
  obtain ⟨hverifies, hclock, rfl⟩ := Sessions.verifies_of_authorize hok
  have hissued : token ∈ s.sessions.issued.map Issued.token := by
    simpa [unforged, hverifies] using hunforged
  obtain ⟨x, hx, rfl⟩ := List.mem_map.mp hissued
  obtain ⟨account, hlogged, hclaims, made, i, hmade, hexp⟩ := h.issued x hx
  refine ⟨account, hlogged, congrArg decodeToken hclaims, made, i, now, x.token, hmade, hask,
    hclaims, ?_⟩
  change now < x.token.exp * 1000000 at hclock
  omega

theorem Sound.step (h : Sound cfg start es s) {e : ReadersEvent}
    (hplace : ∃ front back, es = front ++ e :: back
      ∧ Transition.run (Readers.step cfg) start front = some s)
    (hunforged : s.unforged cfg e = true) (hs : s.step cfg e = some s') :
    Sound cfg start es s' := by
  cases e with
  | session e =>
      obtain ⟨sessions, hstep, rfl⟩ := Option.map_eq_some_iff.mp hs
      exact h.session hplace hstep
  | accounts users =>
      cases hs
      exact ⟨h.readings, h.logins, h.issued, h.requests⟩
  | ask now token ask =>
      simp only [Readers.step] at hs
      split at hs
      · cases hs
      · rename_i sessions hsessions
        obtain rfl := Sessions.step_request_user hsessions
        split at hs
        · cases hs
          exact ⟨h.readings, h.logins, h.issued, h.requests⟩
        · rename_i user hok
          obtain ⟨readings, hreadings, rfl⟩ := Option.map_eq_some_iff.mp hs
          refine ⟨(h.readings.step hreadings).1, h.logins, h.issued, fun q hq => ?_⟩
          rcases requests_step hreadings hq with ⟨q₀, hq₀, huser, hask⟩ | ⟨user', ask', heq, rfl⟩
          · obtain ⟨account, hadmitted⟩ := h.requests q₀ hq₀
            exact ⟨account, hadmitted.congr huser hask⟩
          · cases heq
            obtain ⟨front, back, hsplit, -⟩ := hplace
            exact h.admits (hsplit ▸ List.mem_append_right _ List.mem_cons_self) hunforged hok
  | readings e =>
      obtain ⟨hnot, readings, hreadings, rfl⟩ := step_readings hs
      refine ⟨(h.readings.step hreadings).1, h.logins, h.issued, fun q hq => ?_⟩
      rcases requests_step hreadings hq with ⟨q₀, hq₀, huser, hask⟩ | ⟨user, ask, heq, -⟩
      · obtain ⟨account, hadmitted⟩ := h.requests q₀ hq₀
        exact ⟨account, hadmitted.congr huser hask⟩
      · exact absurd heq (hnot user ask)

theorem Sound.init (start : Readers env) (es : List ReadersEvent) (users : UserTable)
    (settings : AppSettings) : Sound cfg start es (Readers.init env users settings) where
  readings := .init env settings
  logins := fun _ hl => absurd hl List.not_mem_nil
  issued := fun _ hx => absurd hx List.not_mem_nil
  requests := fun _ hq => absurd hq List.not_mem_nil

/-- **Who is given a mail has logged in**: whatever the interleaving of
logins, changes of the accounts, requests and the archive at work, if no
token is forged, every request that is let in came with a token made, less
than the time to live before, for a login whose password opened the
account; it is granted only where a mail was archived under the id, with
an address in the perimeter the account had at that login; and the lines
of the reading routes name such accounts alone. -/
theorem readers_logged_in {users : UserTable} {settings : AppSettings} {es : List ReadersEvent}
    {s : Readers env} (hrun : Transition.run (step cfg) (init env users settings) es = some s)
    (hunforged : Meets (step cfg) (fun s e => s.unforged cfg e = true) (init env users settings)
      es) :
    (∀ q ∈ s.readings.requests, ∃ user, Admitted cfg (init env users settings) es q user
        ∧ (q.reached.granted = true → ∃ job, s.readings.world.ArchivedAs q.ask.messageId job
          ∧ job.OpenTo cfg.lower (scopeAddresses cfg.lower user)))
      ∧ ∀ line ∈ s.readings.journal, ∃ user, LoggedIn cfg (init env users settings) es user
        ∧ line.actor = user.username := by
  have hsound : Sound cfg (init env users settings) es s := by
    refine run_invariant_of_meets (fun s e s' h hC hs => h.step hC.1 hC.2 hs) hrun
      (Meets.and (@meets_place _ _ (Readers.step cfg) _ _ [] es rfl) hunforged)
      (Sound.init _ es users settings)
  constructor
  · intro q hq
    obtain ⟨user, hadmitted⟩ := hsound.requests q hq
    refine ⟨user, hadmitted, fun hgranted => ?_⟩
    obtain ⟨job, harch, hopen⟩ := hsound.readings.allowed q hq hgranted
    rw [hadmitted.2.1, scopeAddresses_decodeToken] at hopen
    exact ⟨job, harch, hopen⟩
  · intro line hline
    obtain ⟨q, hq, hqline⟩ := List.mem_filterMap.mp (hsound.readings.journal.mem_iff.mp hline)
    obtain ⟨user, hlogged, htoken, -⟩ := hsound.requests q hq
    refine ⟨user, hlogged, ?_⟩
    obtain ⟨⟨c, ts⟩, -, rfl⟩ := Option.map_eq_some_iff.mp hqline
    show q.user.username = user.username
    rw [htoken]
    rfl

/-! ### Carol, an administrator -/

def carolAdmin : UserTable where
  rows := [{ Lockout.carol with role := "admin" }]
  nextId := 2
  unique := by decide
  fresh := by decide

def adminToken : Token :=
  ⟨createToken { Lockout.carol with role := "admin" }.authenticated, 28800, "signature"⟩

/-- A mail is archived; Carol logs in and exports it, and a request a
working day later is turned down. -/
def loggedInRun : List ReadersEvent :=
  World.archivedRun.map (fun e => .readings (.archive e))
    ++ [.session (0, .login "carol" "secret"), .session (1, .issue 0),
      .ask 2 adminToken (.exportEml 1), .readings (.turn 0 .read),
      .readings (.turn 0 (.record sampleTime true)), .readings (.turn 0 .answer),
      .ask 28800000000 adminToken (.exportEml 1)]

/-- There is one request, of her login. -/
theorem readers_logged_in_carol : ∃ s q user,
    Transition.run (step Sessions.eightHours) (init sampleEnv carolAdmin noSettings) loggedInRun
        = some s
      ∧ s.readings.requests = [q] ∧ q.reached = .answered (.eml plainMail true) sampleTime
      ∧ Admitted Sessions.eightHours (init sampleEnv carolAdmin noSettings) loggedInRun q user
      ∧ ∃ job, s.readings.world.ArchivedAs 1 job := by
  have hany : (Transition.run (step Sessions.eightHours) (init sampleEnv carolAdmin noSettings)
      loggedInRun).any (fun s => decide (s.readings.requests =
        [⟨decodeToken adminToken.claims, .exportEml 1,
          .answered (.eml plainMail true) sampleTime⟩])) = true := by
    decide +kernel
  obtain ⟨s, hrun, hs⟩ := (Option.any_eq_true _ _).mp hany
  have hrequests := of_decide_eq_true hs
  have hunforged : meetsAll (step Sessions.eightHours) (unforged Sessions.eightHours)
      (init sampleEnv carolAdmin noSettings) loggedInRun = true := by
    decide +kernel
  obtain ⟨hall, -⟩ := readers_logged_in hrun (meets_of_check (fun _ _ h => h) hunforged)
  obtain ⟨user, hadmitted, hgranted⟩ := hall _ (hrequests ▸ List.mem_singleton_self _)
  obtain ⟨job, harch, -⟩ := hgranted rfl
  exact ⟨s, _, user, hrun, hrequests, rfl, hadmitted, job, harch⟩

end Readers

end MailArchiver

import MailArchiver.Api.Restore
import MailArchiver.RetentionWorker.Setting

/-!
# System — EffectiveSettings

The readers of the settings table: `get_all` and `get_smtp` of
`api/settings_store.py`, `_load_config` of the SMTP gateway, and the
retention worker. Each has a default, and a parser, of its own for the
texts `PATCH /settings` stores; what they read is the last value given
for each field, whatever came before.
-/

namespace MailArchiver

/-! ## `api/settings_store.py` -/

/-- `DEFAULTS`. -/
def settingsDefaults : List (String × String) :=
  [("retention_days", "365"), ("smtp_host", ""), ("smtp_port", "587"), ("smtp_username", ""),
    ("smtp_starttls", "true"), ("smtp_from", "archiver@localhost"), ("smtpd_host", "0.0.0.0"),
    ("smtpd_port", "2525"), ("smtpd_require_starttls", "false"),
    ("smtpd_max_message_bytes", "52428800")]

/-- `v.lower()`, where it is compared with ASCII words: no other letter of
Unicode is lowered to one of theirs. -/
def lowered (v : String) : List Char := v.toList.map Char.toLower

/-- `_as_bool(v)`. -/
def asBool (v : String) : Bool :=
  lowered v ∈ ["1".toList, "true".toList, "yes".toList, "on".toList]

namespace AppSettings

/-- `g(k)`: `s.get(k, DEFAULTS.get(k, ""))`. -/
def getOr (s : AppSettings) (k : String) : String :=
  (s.value k).getD ((settingsDefaults.lookup k).getD "")

/-- `s.get(k)` where it is truthy. -/
def given (s : AppSettings) (k : String) : Option String := (s.value k).filter (· ≠ "")

end AppSettings

/-- `"smtp"` of the page. -/
structure SmtpSettings where
  host : String
  port : Int
  username : String
  starttls : Bool
  sender : String
  passwordSet : Bool
  deriving DecidableEq, Repr

/-- `"smtpd"` of the page. -/
structure SmtpdSettings where
  host : String
  port : Int
  requireStarttls : Bool
  maxMessageBytes : Int
  deriving DecidableEq, Repr

/-- What `get_all` returns. -/
structure SettingsPage where
  retentionDays : Int
  smtp : SmtpSettings
  smtpd : SmtpdSettings
  deriving DecidableEq, Repr

variable (P : Primitives)

/-- `password` of `get_smtp`. -/
def smtpPassword (s : AppSettings) : Except PyError String :=
  match s.given "smtp_password_enc" with
  | some token => decryptSecret P token
  | none => .ok ""

/-- `SettingsStore.get_smtp()`. -/
def getSmtp (s : AppSettings) : Except PyError (Option SmtpConfig) :=
  let host := (s.value "smtp_host").getD ""
  if host = "" then .ok none
  else do
    let password ← smtpPassword P s
    let port ← pyInt (s.getOr "smtp_port")
    return some {
      host
      port
      username := (s.value "smtp_username").getD ""
      password
      starttls := asBool ((s.value "smtp_starttls").getD "true")
      sender := s.getOr "smtp_from" }

namespace SettingsUpdateRequest

/-- The password a request gives; an empty one is none. -/
def password (req : SettingsUpdateRequest) : Option String := req.smtpPassword.filter (· ≠ "")

/-- A request that is carried out: it asks for no negative retention,
each of its numbers and texts can be written, and its password can be
sealed. -/
def accepted (draw : Draw) (req : SettingsUpdateRequest) : Bool :=
  !req.retentionDays.any (· < 0) && req.texts.all (fun f => f.2.all writable)
    && req.password.all fun pw => (encryptSecret P draw pw).isOk

/-- The page of the values given. -/
def page (m : SettingsUpdateRequest) : SettingsPage where
  retentionDays := m.retentionDays.getD 365
  smtp := {
    host := m.smtpHost.getD ""
    port := m.smtpPort.getD 587
    username := m.smtpUsername.getD ""
    starttls := m.smtpStarttls.getD true
    sender := m.smtpFrom.getD "archiver@localhost"
    passwordSet := m.smtpPassword.isSome }
  smtpd := {
    host := m.smtpdHost.getD "0.0.0.0"
    port := m.smtpdPort.getD 2525
    requireStarttls := m.smtpdRequireStarttls.getD false
    maxMessageBytes := m.smtpdMaxMessageBytes.getD 52428800 }

end SettingsUpdateRequest

variable {P}

namespace Represents

variable {m : SettingsUpdateRequest} {s : AppSettings}

end Represents

end MailArchiver

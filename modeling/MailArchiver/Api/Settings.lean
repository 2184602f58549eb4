import MailArchiver.Common.Models
import MailArchiver.Common.Numerals
import MailArchiver.Common.SealedFormat

/-!
# Api — Settings

`SettingsStore.update` of `api/settings_store.py` and the route
`PATCH /settings`: the global settings, each a text under its key.
-/

namespace MailArchiver

/-- The table `app_settings`. -/
structure AppSettings where
  value : String → Option String

/-- `_set(session, key, value)`. -/
def AppSettings.set (s : AppSettings) (key value : String) : AppSettings :=
  ⟨fun k => if k = key then some value else s.value k⟩

@[simp] theorem AppSettings.value_set (s : AppSettings) (key value k : String) :
    (s.set key value).value k = if k = key then some value else s.value k := rfl

/-- `SettingsUpdateRequest`; an absent field and a null are the same. -/
structure SettingsUpdateRequest where
  retentionDays : Option Int
  smtpHost : Option String
  smtpPort : Option Int
  smtpUsername : Option String
  smtpPassword : Option String
  smtpStarttls : Option Bool
  smtpFrom : Option String
  smtpdHost : Option String
  smtpdPort : Option Int
  smtpdRequireStarttls : Option Bool
  smtpdMaxMessageBytes : Option Int
  deriving DecidableEq, Repr

/-- The fields of `mapping`, with `str(data[field])` of those given. -/
def SettingsUpdateRequest.texts (req : SettingsUpdateRequest) :
    List (String × Option (Except PyError String)) :=
  [("retention_days", req.retentionDays.map pyStr), ("smtp_host", req.smtpHost.map .ok),
    ("smtp_port", req.smtpPort.map pyStr), ("smtp_username", req.smtpUsername.map .ok),
    ("smtp_from", req.smtpFrom.map .ok), ("smtpd_host", req.smtpdHost.map .ok),
    ("smtpd_port", req.smtpdPort.map pyStr),
    ("smtpd_max_message_bytes", req.smtpdMaxMessageBytes.map pyStr)]

/-- One round of the loop over `mapping`. The column refuses a NUL, at the
commit at the latest. -/
def AppSettings.setText (s : AppSettings) (field : String × Option (Except PyError String)) :
    Except PyError AppSettings :=
  match field.2 with
  | none => .ok s
  | some text => do
      let value ← text
      if fitsText value then return s.set field.1 value else throw .dataError

/-- `"true" if flag else "false"`, when the flag is given. -/
def AppSettings.setFlag (s : AppSettings) (key : String) (flag : Option Bool) : AppSettings :=
  match flag with
  | none => s
  | some b => s.set key (if b then "true" else "false")

variable (P : Primitives)

/-- The password is encrypted when it is given and not empty. -/
def AppSettings.setPassword (s : AppSettings) (draw : Draw) (password : Option String) :
    Except PyError AppSettings :=
  match password with
  | none => .ok s
  | some pw =>
      if pw = "" then .ok s
      else (encryptSecret P draw pw).map (s.set "smtp_password_enc")

/-- `SettingsStore.update(data)`: one transaction, so an exception leaves
the settings as they are. -/
def updateSettings (draw : Draw) (s : AppSettings) (req : SettingsUpdateRequest) :
    Except PyError AppSettings := do
  let s ← req.texts.foldlM AppSettings.setText s
  let s := s.setFlag "smtp_starttls" req.smtpStarttls
  let s := s.setFlag "smtpd_require_starttls" req.smtpdRequireStarttls
  s.setPassword P draw req.smtpPassword

/-- The answer of `PATCH /settings`. -/
inductive SettingsAnswer where
  | stored (s : AppSettings)
  | httpException (status : Nat) (detail : String)
  | raised (e : PyError)

/-- `update_app_settings(req)`, the audit record aside. -/
def updateAppSettings (draw : Draw) (s : AppSettings) (req : SettingsUpdateRequest) :
    SettingsAnswer :=
  if req.retentionDays.any (· < 0) then
    .httpException 400 "la durée de conservation doit être ≥ 0 (0 = illimité)"
  else
    match updateSettings P draw s req with
    | .ok s => .stored s
    | .error e => .raised e

/-! ## The setting that is stored -/

variable {P}

theorem value_setFlag {s : AppSettings} {key k : String} {flag : Option Bool} (h : k ≠ key) :
    (s.setFlag key flag).value k = s.value k := by
  cases flag with
  | none => rfl
  | some b => simp [AppSettings.setFlag, h]

theorem value_setPassword {s s' : AppSettings} {draw : Draw} {password : Option String}
    {k : String} (hk : k ≠ "smtp_password_enc") (h : s.setPassword P draw password = .ok s') :
    s'.value k = s.value k := by
  unfold AppSettings.setPassword at h
  split at h
  · cases h
    rfl
  · split at h
    · cases h
      rfl
    · obtain ⟨token, -, rfl⟩ := map_eq_ok.mp h
      simp [hk]

/-- A field given is written: `str` has a text of it, and the column takes
it. -/
def writable (text : Except PyError String) : Bool :=
  match text with
  | .ok value => fitsText value
  | .error _ => false

theorem setText_some_eq_ok {s s' : AppSettings} {key : String} {text : Except PyError String} :
    s.setText (key, some text) = .ok s' ↔
      ∃ value, text = .ok value ∧ fitsText value = true ∧ s' = s.set key value := by
  rw [AppSettings.setText, bind_eq_ok]
  refine exists_congr fun value => and_congr_right fun _ => ?_
  by_cases hfits : fitsText value = true
  · rw [if_pos hfits, pure_eq_ok, eq_comm]
    exact (and_iff_right hfits).symm
  · rw [if_neg hfits]
    exact iff_of_false nofun fun h => hfits h.1

/-- A key outside the list keeps its value. -/
theorem value_setTexts {fields : List (String × Option (Except PyError String))}
    {s s' : AppSettings} {k : String} (hk : ∀ f ∈ fields, f.1 ≠ k)
    (h : fields.foldlM AppSettings.setText s = .ok s') : s'.value k = s.value k := by
  induction fields generalizing s with
  | nil =>
      cases h
      rfl
  | cons f fields ih =>
      obtain ⟨hf, hfields⟩ := List.forall_mem_cons.mp hk
      rw [List.foldlM_cons, bind_eq_ok] at h
      obtain ⟨s₁, hs₁, hrest⟩ := h
      rw [ih hfields hrest]
      obtain ⟨key, _ | text⟩ := f
      · cases hs₁
        rfl
      · obtain ⟨value, -, -, rfl⟩ := setText_some_eq_ok.mp hs₁
        simp [Ne.symm hf]

/-- **What an accepted request stores**: the number given, as a text. -/
theorem stored_retentionDays {draw : Draw} {s s' : AppSettings} {req : SettingsUpdateRequest}
    {n : Int} (hn : req.retentionDays = some n) (h : updateAppSettings P draw s req = .stored s') :
    0 ≤ n ∧ ∃ text, pyStr n = .ok text ∧ s'.value "retention_days" = some text := by
  unfold updateAppSettings at h
  split at h
  · cases h
  · rename_i hpos
    refine ⟨by simpa [hn] using hpos, ?_⟩
    split at h
    · rename_i s₂ hs₂
      obtain rfl := SettingsAnswer.stored.inj h
      simp only [updateSettings, bind_eq_ok] at hs₂
      obtain ⟨s₁, htexts, hpassword⟩ := hs₂
      rw [value_setPassword (by decide) hpassword, value_setFlag (by decide),
        value_setFlag (by decide)]
      rw [SettingsUpdateRequest.texts, List.foldlM_cons, bind_eq_ok] at htexts
      obtain ⟨s₀, hfirst, hrest⟩ := htexts
      rw [value_setTexts (by simp) hrest]
      rw [hn, Option.map_some] at hfirst
      obtain ⟨text, htext, -, rfl⟩ := setText_some_eq_ok.mp hfirst
      exact ⟨text, htext, by simp⟩
    · cases h

end MailArchiver

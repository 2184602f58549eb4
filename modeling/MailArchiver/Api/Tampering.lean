import MailArchiver.Api.MailAccess

/-!
# Api — Tampering

What an altered `archive_hash` or `signature` does to the reading of a
mail whose blob is intact. `verify` catches `InvalidSignature` alone; the
decoders before it, `b64decode` and `bytes.fromhex`, raise something else
on a column that is no longer base64 or hexadecimal, and the mail is not
served at all.
-/

namespace MailArchiver

variable (P : Primitives) (lower : String → String)

/-- The answer of a route that serves a mail. -/
inductive ExportAnswer where
  /-- The `.eml`, and the header `X-Archive-Integrity`. -/
  | response (content : Bytes) (integrity : String)
  | httpException (status : Nat) (detail : String)
  /-- An exception the route lets through: a server error. -/
  | raised (e : PyError)
  deriving DecidableEq, Repr

/-- `export_eml(message_id, user)`, the account's perimeter being `scope`;
the audit record aside. -/
def exportEml (db : Db) (blobs : BlobStore) (messageId : Nat) (scope : Option (List String)) :
    ExportAnswer :=
  match getEml P lower db blobs messageId scope with
  | .ok (raw, integrityOk) => .response raw (if integrityOk then "valid" else "INVALID")
  | .error (.keyError _) => .httpException 404 "message introuvable"
  | .error .accessDenied => .httpException 403 "accès non autorisé à ce message"
  | .error e => .raised e

/-- The raw mail is served with the verdict on its row, by `get_eml` and by
the route. -/
def ReportsVerdict (db : Db) (blobs : BlobStore) (id : Nat) (scope : Option (List String))
    (msg : Message) (raw : Bytes) : Prop :=
  ∃ ok, getEml P lower db blobs id scope = .ok (raw, ok) ∧ (ok = true ↔ SignedRow P msg)
    ∧ exportEml P lower db blobs id scope = .response raw (if ok then "valid" else "INVALID")

variable {P lower}

/-- `verify` answers exactly on a signature that is base64. -/
theorem verify_returns_iff (fingerprint : Bytes) (signature : String) :
    (∃ b, verify P fingerprint signature = .ok b) ↔ (b64decode signature).isOk = true := by
  simp only [verify, bind_eq_ok, pure_eq_ok, isOk_iff]
  constructor
  · rintro ⟨b, raw, hraw, -⟩
    exact ⟨raw, hraw⟩
  · rintro ⟨raw, hraw⟩
    exact ⟨_, raw, hraw, rfl⟩

/-- What `get_eml` returns for a row whose blob is intact. -/
theorem getEml_ok_iff {db : Db} {blobs : BlobStore} {id : Nat} {scope : Option (List String)}
    {msg : Message} {blob raw : Bytes} {ok : Bool} (hmsg : getMessage db id = some msg)
    (hacc : canAccess lower msg scope = true) (hblob : blobs.lookup msg.bodySha256 = some blob)
    (hseal : unsealBytes P blob = .ok raw) :
    getEml P lower db blobs id scope = .ok (raw, ok) ↔
      ∃ fingerprint, fromhex msg.archiveHash = .ok fingerprint
        ∧ verify P fingerprint msg.signature = .ok ok := by
  have hget : blobs.get msg.bodySha256 = .ok blob := (blobs.get_ok_iff ..).mpr hblob
  obtain ⟨sealed, hdes, hun⟩ := bind_eq_ok.mp (unsealBytes.eq_1 P blob ▸ hseal)
  simp only [getEml, hmsg, hacc, if_true, bind_eq_ok, pure_eq_ok, Prod.mk.injEq]
  constructor
  · rintro ⟨_, -, _, -, _, -, fp, hhex, b, hver, -, rfl⟩
    exact ⟨fp, hhex, hver⟩
  · rintro ⟨fp, hhex, hver⟩
    exact ⟨blob, hget, sealed, hdes, raw, hun, fp, hhex, ok, hver, rfl, rfl⟩

/-- **When an altered row is reported**: a mail whose blob is intact is
served with the verdict on its row exactly when the `archive_hash` is
hexadecimal and the `signature` is base64; `verify` answers exactly on a
base64 signature. -/
theorem get_eml_reports_iff {db : Db} {blobs : BlobStore} {id : Nat}
    {scope : Option (List String)} {msg : Message} {blob raw : Bytes}
    (hmsg : getMessage db id = some msg) (hacc : canAccess lower msg scope = true)
    (hblob : blobs.lookup msg.bodySha256 = some blob) (hseal : unsealBytes P blob = .ok raw) :
    (ReportsVerdict P lower db blobs id scope msg raw ↔
      (fromhex msg.archiveHash).isOk = true ∧ (b64decode msg.signature).isOk = true) ∧
    ∀ fingerprint signature, (∃ b, verify P fingerprint signature = .ok b) ↔
      (b64decode signature).isOk = true := by
  refine ⟨?_, verify_returns_iff⟩
  constructor
  · rintro ⟨ok, hget, -, -⟩
    obtain ⟨fp, hhex, hver⟩ := (getEml_ok_iff hmsg hacc hblob hseal).mp hget
    exact ⟨isOk_iff.mpr ⟨fp, hhex⟩, (verify_returns_iff fp msg.signature).mp ⟨ok, hver⟩⟩
  · rintro ⟨hhex, hb64⟩
    obtain ⟨fp, hhex⟩ := isOk_iff.mp hhex
    obtain ⟨ok, hver⟩ := (@verify_returns_iff P fp msg.signature).mpr hb64
    have hget := (getEml_ok_iff hmsg hacc hblob hseal).mpr ⟨fp, hhex, hver⟩
    refine ⟨ok, hget, ?_, by rw [exportEml, hget]⟩
    rw [SignedRow]
    constructor
    · rintro rfl
      exact ⟨fp, hhex, hver⟩
    · rintro ⟨fp', hhex', hver'⟩
      obtain rfl := Except.ok.inj (hhex.symm.trans hhex')
      exact Except.ok.inj (hver.symm.trans hver')

/-! ## Altered rows -/

/-- The row of `plainMail` with its two columns replaced. -/
def alteredDb (archiveHash signature : String) : Db :=
  { Db.empty with messages := [{ plainRow with archiveHash := archiveHash, signature := signature }] }

/-- The intact blob. -/
def intactBlobs : BlobStore := BlobStore.empty.put (hex plainDigest) (sampleSealed plainMail)

/-- A signature cut to one character, or a hash that is not hexadecimal:
the mail is not served. -/
theorem altered_row_raises :
    exportEml sampleAnswers.primitives String.toLower (alteredDb plainRow.archiveHash "A")
        intactBlobs 1 none
      = .raised (.binasciiError
          "number of data characters cannot be 1 more than a multiple of 4") ∧
    exportEml sampleAnswers.primitives String.toLower (alteredDb "zz" plainRow.signature)
        intactBlobs 1 none
      = .raised (.valueError "non-hexadecimal number found in fromhex() arg") ∧
    ¬ReportsVerdict sampleAnswers.primitives String.toLower (alteredDb plainRow.archiveHash "A")
      intactBlobs 1 none { plainRow with signature := "A" } plainMail := by
  refine ⟨by decide +kernel, by decide +kernel, ?_⟩
  rintro ⟨ok, hget, -, -⟩
  have hraised : getEml sampleAnswers.primitives String.toLower
      (alteredDb plainRow.archiveHash "A") intactBlobs 1 none
      = .error (.binasciiError
          "number of data characters cannot be 1 more than a multiple of 4") := by
    decide +kernel
  rw [hraised] at hget
  cases hget

/-- Another signature that is base64 is reported. -/
theorem altered_row_reported :
    ReportsVerdict sampleAnswers.primitives String.toLower (alteredDb plainRow.archiveHash "AAAA")
      intactBlobs 1 none { plainRow with signature := "AAAA" } plainMail := by
  have hmsg : getMessage (alteredDb plainRow.archiveHash "AAAA") 1
      = some { plainRow with signature := "AAAA" } := by decide +kernel
  have hblob : intactBlobs.lookup plainRow.bodySha256 = some (sampleSealed plainMail) := by
    simp [intactBlobs, plainRow]
  have hseal : unsealBytes sampleAnswers.primitives (sampleSealed plainMail) = .ok plainMail := by
    decide +kernel
  exact (@get_eml_reports_iff sampleAnswers.primitives String.toLower _ intactBlobs 1 none _ _ _
    hmsg rfl hblob hseal).1.mpr ⟨by decide +kernel, by decide +kernel⟩

end MailArchiver

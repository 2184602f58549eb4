import MailArchiver.ArchiverWorker.Job
import MailArchiver.Common.Models
import MailArchiver.Common.Storage

/-!
# Api — MailAccess

`api/mail_access.py`: serving the original mail. `get_eml` reads the blob
under the row's `body_sha256`, unseals it, and reports whether the row's
signature is valid for the row's `archive_hash`. The bytes it returns take
no part in that verdict, and `get_eml_sound_iff` says what has to be true
of the store for the verdict to be about them.

`str.lower` is a parameter: it is Python's Unicode lower-casing.
-/

namespace MailArchiver

variable (P : Primitives) (E : EmailPackage) (lower : String → String)

/-- `_get_message`: the row of that id, the first one in any order. -/
def getMessage (db : Db) (messageDbId : Nat) : Option Message :=
  db.messages.find? (·.id = messageDbId)

/-- The addresses of a mail, lower-cased, as the access checks see them. -/
def parties (fromAddr : String) (toAddrs ccAddrs : List String) : List String :=
  lower fromAddr :: (toAddrs.map lower ++ ccAddrs.map lower)

/-- `_can_access(msg, scope)`: no scope is an administrator's, an empty
one gives access to nothing. -/
def canAccess (msg : Message) (scope : Option (List String)) : Bool :=
  match scope with
  | none => true
  | some [] => false
  | some (a :: as) =>
      (a :: as).any fun x => lower x ∈ parties lower msg.fromAddr msg.toAddrs msg.ccAddrs

/-- `MailAccess.get_eml`: the raw mail and `integrity_ok`. -/
def getEml (db : Db) (blobs : BlobStore) (messageDbId : Nat) (scope : Option (List String)) :
    Except PyError (Bytes × Bool) :=
  match getMessage db messageDbId with
  | none => .error (.keyError "message introuvable")
  | some msg =>
      if canAccess lower msg scope then do
        let sealed ← SealedBlob.deserialize (← blobs.get msg.bodySha256)
        let raw ← unsealBlob P sealed
        let integrityOk ← verify P (← fromhex msg.archiveHash) msg.signature
        return (raw, integrityOk)
      else .error .accessDenied

/-! ## What the verdict depends on -/

/-- The row's signature is valid for the row's archive hash. -/
def SignedRow (msg : Message) : Prop :=
  ∃ fingerprint, fromhex msg.archiveHash = .ok fingerprint
    ∧ verify P fingerprint msg.signature = .ok true

/-- `raw` is a mail whose fingerprint, as `process` computes it, is the
row's archive hash. -/
def HasArchiveHash (now : DateTime) (msg : Message) (raw : Bytes) : Prop :=
  ∃ mail, parse E now raw = .ok mail ∧ hex (mail.fingerprint P) = msg.archiveHash

/-- `raw` is the mail that was signed: it has the row's archive hash, and
the row's signature is a valid signature of its fingerprint. -/
def IsSignedMail (now : DateTime) (msg : Message) (raw : Bytes) : Prop :=
  ∃ mail, parse E now raw = .ok mail ∧ hex (mail.fingerprint P) = msg.archiveHash
    ∧ verify P (mail.fingerprint P) msg.signature = .ok true

variable {P E lower}

/-- Reading a mail with a positive verdict: the checks that passed, and
the bytes they passed on. -/
theorem getEml_ok_true_iff (hlaws : SealingLaws P) {db : Db} {blobs : BlobStore} {id : Nat}
    {scope : Option (List String)} {msg : Message} (hmsg : getMessage db id = some msg)
    {raw : Bytes} :
    getEml P lower db blobs id scope = .ok (raw, true) ↔
      canAccess lower msg scope = true ∧ SignedRow P msg
        ∧ ∃ blob, blobs.lookup msg.bodySha256 = some blob ∧ Seals P blob raw := by
  have hget : ∀ blob, blobs.get msg.bodySha256 = .ok blob ↔
      blobs.lookup msg.bodySha256 = some blob := fun blob => blobs.get_ok_iff ..
  by_cases hacc : canAccess lower msg scope = true
  · simp only [getEml, hmsg, hacc, if_true, true_and, SignedRow, bind_eq_ok, pure_eq_ok, hget,
      ← unsealBytes_ok_iff P hlaws, unsealBytes, Prod.mk.injEq]
    constructor
    · rintro ⟨blob, hblob, sealed, hdes, plain, hun, fp, hhex, b, hver, rfl, rfl⟩
      exact ⟨⟨fp, hhex, hver⟩, blob, hblob, sealed, hdes, hun⟩
    · rintro ⟨⟨fp, hhex, hver⟩, blob, hblob, sealed, hdes, hun⟩
      exact ⟨blob, hblob, sealed, hdes, raw, hun, fp, hhex, true, hver, rfl, rfl⟩
  · simp [getEml, hmsg, hacc]

/-- The signature of a row is one of the fingerprint its hash spells. -/
theorem IsSignedMail.of_signedRow {now : DateTime} {msg : Message} {raw : Bytes}
    (hrow : SignedRow P msg) (hraw : HasArchiveHash P E now msg raw) :
    IsSignedMail P E now msg raw := by
  obtain ⟨fp, hhex, hver⟩ := hrow
  obtain ⟨mail, hparse, hhash⟩ := hraw
  refine ⟨mail, hparse, hhash, ?_⟩
  rw [← hhash, fromhex_hex, Except.ok.injEq] at hhex
  rwa [hhex]

/-- **A positive verdict is about the mail that is served exactly when no
other sealed mail lies under the row's key**: for every row, every store
and every scope, whatever `get_eml` returns with `True` is the signed mail
iff, on a row with a valid signature, a blob that unseals at all unseals to
a mail with the row's archive hash. -/
theorem get_eml_sound_iff (hlaws : SealingLaws P) {db : Db} {blobs : BlobStore} {id : Nat}
    {scope : Option (List String)} {msg : Message} (hmsg : getMessage db id = some msg)
    (now : DateTime) :
    (∀ raw, getEml P lower db blobs id scope = .ok (raw, true) → IsSignedMail P E now msg raw) ↔
      (canAccess lower msg scope = true → SignedRow P msg →
        ∀ blob, blobs.lookup msg.bodySha256 = some blob →
          ∀ raw, Seals P blob raw → HasArchiveHash P E now msg raw) := by
  constructor
  · intro hsound hacc hrow blob hblob raw hseals
    obtain ⟨mail, hparse, hhash, -⟩ :=
      hsound raw ((getEml_ok_true_iff hlaws hmsg).mpr ⟨hacc, hrow, blob, hblob, hseals⟩)
    exact ⟨mail, hparse, hhash⟩
  · intro hstore raw hok
    obtain ⟨hacc, hrow, blob, hblob, hseals⟩ := (getEml_ok_true_iff hlaws hmsg).mp hok
    exact .of_signedRow hrow (hstore hacc hrow blob hblob raw hseals)

/-! ### A blob copied from another mail -/

/-- The blob of another archived mail, copied to the key of `plainRow`. -/
def swappedBlobs : BlobStore :=
  BlobStore.empty.put (hex plainDigest) (sampleSealed (attachmentMail "s" "z"))

theorem getEml_swapped :
    getEml sampleAnswers.primitives String.toLower plainDb swappedBlobs 1 none
      = .ok (attachmentMail "s" "z", true) := by
  decide +kernel

theorem not_hasArchiveHash_swapped :
    ¬ HasArchiveHash sampleAnswers.primitives sampleEmail sampleTime plainRow
      (attachmentMail "s" "z") := by
  rintro ⟨mail, hparse, hhash⟩
  have hother : (parse sampleEmail sampleTime (attachmentMail "s" "z")).map
      (fun m => decide (hex (m.fingerprint sampleAnswers.primitives) = plainRow.archiveHash))
        = .ok false := by decide +kernel
  rw [hparse] at hother
  simp [Except.map, hhash] at hother

/-- Another mail is served under a verdict of integrity. -/
theorem get_eml_serves_swapped :
    SealingLaws sampleAnswers.primitives
      ∧ getEml sampleAnswers.primitives String.toLower plainDb swappedBlobs 1 none
          = .ok (attachmentMail "s" "z", true)
      ∧ ¬ IsSignedMail sampleAnswers.primitives sampleEmail sampleTime plainRow
          (attachmentMail "s" "z") :=
  ⟨sampleLaws, getEml_swapped, fun ⟨mail, hparse, hhash, _⟩ =>
    not_hasArchiveHash_swapped ⟨mail, hparse, hhash⟩⟩

/-- On the store of the worker itself the verdict is about the mail. -/
theorem get_eml_sound_plain :
    getEml sampleAnswers.primitives String.toLower plainDb
        (BlobStore.empty.put (hex plainDigest) (sampleSealed plainMail)) 1 none
          = .ok (plainMail, true)
      ∧ IsSignedMail sampleAnswers.primitives sampleEmail sampleTime plainRow plainMail := by
  have hmsg : getMessage plainDb 1 = some plainRow := by decide +kernel
  have hget : getEml sampleAnswers.primitives String.toLower plainDb
      (BlobStore.empty.put (hex plainDigest) (sampleSealed plainMail)) 1 none
        = .ok (plainMail, true) := by decide +kernel
  refine ⟨hget, (get_eml_sound_iff sampleLaws hmsg sampleTime).mpr ?_ plainMail hget⟩
  intro _ _ blob hblob raw hseals
  have hun := (unsealBytes_ok_iff _ sampleLaws).mpr hseals
  obtain rfl : sampleSealed plainMail = blob := by
    simpa [plainRow] using hblob
  have hplain : unsealBytes sampleAnswers.primitives (sampleSealed plainMail) = .ok plainMail := by
    decide +kernel
  obtain rfl : plainMail = raw := Except.ok.inj (hplain.symm.trans hun)
  have hparse : (parse sampleEmail sampleTime plainMail).map
      (fun m => decide (hex (m.fingerprint sampleAnswers.primitives) = plainRow.archiveHash))
        = .ok true := by decide +kernel
  cases hm : parse sampleEmail sampleTime plainMail with
  | error e => simp [hm, Except.map] at hparse
  | ok mail => exact ⟨mail, hm, by simpa [hm, Except.map] using hparse⟩

end MailArchiver

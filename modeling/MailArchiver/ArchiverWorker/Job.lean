import MailArchiver.ArchiverWorker.Fingerprint
import MailArchiver.ArchiverWorker.Indexer
import MailArchiver.Common.Models

/-!
# ArchiverWorker — Job

The pure part of `ArchivePipeline.process`: what it derives from a raw
mail before it touches a store. A `Job` is a mail that was parsed, with
the instant it is signed at; the hashes, the row, the index document and
the live event are functions of it.
-/

namespace MailArchiver

/-- What the worker's process is configured with. -/
structure Env where
  prims : Primitives
  email : EmailPackage
  /-- `settings.opensearch_index`. -/
  indexBase : String

/-- A parsed mail about to be archived. -/
structure Job (env : Env) where
  mail : ParsedMail
  signedAt : DateTime
  parsed : ∃ now, parse env.email now mail.raw = .ok mail

variable {env : Env}

/-- The beginning of `process(raw)`: `parse`, then the time of signature.
An unreadable mail raises here. -/
def prepare (env : Env) (now signedAt : DateTime) (raw : Bytes) : Except PyError (Job env) :=
  match h : parse env.email now raw with
  | .error e => .error e
  | .ok mail => .ok ⟨mail, signedAt, now, by rw [parse_raw h, h]⟩

theorem prepare_ok {now signedAt : DateTime} {raw : Bytes} {job : Job env}
    (h : prepare env now signedAt raw = .ok job) :
    parse env.email now raw = .ok job.mail ∧ job.signedAt = signedAt ∧ job.mail.raw = raw := by
  unfold prepare at h
  split at h
  · cases h
  · rename_i mail hmail
    cases h
    exact ⟨hmail, rfl, parse_raw hmail⟩

namespace Job

/-- `att_hashes`. -/
def attHashes (job : Job env) : List String := job.mail.attHashes env.prims

/-- `archive_hash`. -/
def archiveHash (job : Job env) : String := hex (job.mail.fingerprint env.prims)

/-- `signature`. -/
def signature (job : Job env) : String := sign env.prims (job.mail.fingerprint env.prims)

/-- `zip(mail.attachments, att_hashes)`. -/
def attachments (job : Job env) : List (ParsedAttachment × String) :=
  job.mail.attachments.zip job.attHashes

/-- `_INDEX_BODY_MAX`. -/
def indexBodyMax : Nat := 64 * 1024

/-- `index_doc`, as it stands before the row has an id. -/
def indexDoc (job : Job env) : IndexDoc where
  docId := none
  messageId := job.mail.messageId
  date := job.mail.date.isoformat
  archivedAt := job.signedAt.isoformat
  fromAddr := job.mail.fromAddr
  toAddrs := job.mail.toAddrs
  ccAddrs := job.mail.ccAddrs
  subject := job.mail.subject
  body := String.ofList (job.mail.textBody.toList.take indexBodyMax)
  hasAttachment := job.mail.attachments ≠ []
  attachmentNames := job.mail.attachments.map (·.filename)
  sizeBytes := job.mail.raw.length
  retentionClass := "default"

/-- `index_doc` of the fresh archive. -/
def freshDoc (job : Job env) (dbId : Nat) : IndexDoc := { job.indexDoc with docId := some dbId }

/-- `doc` of `_reindex_existing(message_id, signed_at, index_doc)`. -/
def existingDoc (job : Job env) (messageId : Nat) (signedAt : DateTime) : IndexDoc :=
  { job.indexDoc with docId := some messageId, archivedAt := signedAt.isoformat }

/-- `event`. -/
def event (job : Job env) (dbId : Nat) : LiveEvent where
  id := dbId
  date := job.mail.date.isoformat
  fromAddr := job.mail.fromAddr
  toAddrs := job.mail.toAddrs
  ccAddrs := job.mail.ccAddrs
  subject := job.mail.subject
  hasAttachment := job.mail.attachments ≠ []
  attachmentNames := job.mail.attachments.map (·.filename)

/-- `msg_row`, with the id its insert returns. -/
def msgRow (job : Job env) (id : Nat) : Message where
  id := id
  signedAt := job.signedAt
  messageId := job.mail.messageId
  date := job.mail.date
  fromAddr := job.mail.fromAddr
  toAddrs := job.mail.toAddrs
  ccAddrs := job.mail.ccAddrs
  subject := job.mail.subject
  sizeBytes := job.mail.raw.length
  bodySha256 := job.archiveHash
  archiveHash := job.archiveHash
  signature := job.signature
  legalHold := false

@[simp] theorem msgRow_id (job : Job env) (id : Nat) : (job.msgRow id).id = id := rfl

@[simp] theorem msgRow_signedAt (job : Job env) (id : Nat) :
    (job.msgRow id).signedAt = job.signedAt := rfl

@[simp] theorem msgRow_archiveHash (job : Job env) (id : Nat) :
    (job.msgRow id).archiveHash = job.archiveHash := rfl

@[simp] theorem msgRow_bodySha256 (job : Job env) (id : Nat) :
    (job.msgRow id).bodySha256 = job.archiveHash := rfl

@[simp] theorem msgRow_sizeBytes (job : Job env) (id : Nat) :
    (job.msgRow id).sizeBytes = job.mail.raw.length := rfl

theorem attachments_snd (job : Job env) : job.attachments.map Prod.snd = job.attHashes := by
  simp [attachments, attHashes, ParsedMail.attHashes, List.map_snd_zip]

/-- A job on the same raw mail, parsed at another time. -/
theorem mail_again {job job' : Job env} {now signedAt : DateTime}
    (h : prepare env now signedAt job.mail.raw = .ok job') :
    ∃ date, mailDate env.email now ((env.email.message job.mail.raw).header "Date") = .ok date
      ∧ job'.mail = { job.mail with date := date } := by
  obtain ⟨now₀, hparsed⟩ := job.parsed
  obtain ⟨hparse, -, -⟩ := prepare_ok h
  obtain ⟨date, hdate, hagain⟩ := @parse_again env.email now₀ now _ _ hparsed
  exact ⟨date, hdate, Except.ok.inj (hparse.symm.trans hagain)⟩

theorem archiveHash_again {job job' : Job env} {now signedAt : DateTime}
    (h : prepare env now signedAt job.mail.raw = .ok job') : job'.archiveHash = job.archiveHash := by
  obtain ⟨date, -, hmail⟩ := mail_again h
  rw [archiveHash, hmail]
  rfl

end Job

/-- The sample mails under the sample answers. -/
def sampleEnv : Env where
  prims := sampleAnswers.primitives
  email := sampleEmail
  indexBase := "messages"

/-- The row of `plainMail`. -/
def plainRow : Message where
  id := 1
  signedAt := sampleTime
  messageId := ""
  date := sampleTime
  fromAddr := ""
  toAddrs := []
  ccAddrs := []
  subject := "a"
  sizeBytes := 13
  bodySha256 := hex plainDigest
  archiveHash := hex plainDigest
  signature := sign sampleAnswers.primitives plainDigest
  legalHold := false

def plainDb : Db := { Db.empty with messages := [plainRow] }

end MailArchiver

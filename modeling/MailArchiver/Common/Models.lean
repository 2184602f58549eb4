import MailArchiver.Common.Bytes
import MailArchiver.Common.Time

/-!
# Common — Models

The tables of `mailarchiver_common/models.py` the archive works on, as
lists of rows. A column no modelled function reads or writes is left
out. Keys and sequences are not part of the tables: the statements that
rely on them (`ON CONFLICT`, a unique violation, an identity column)
check them where they run.
-/

namespace MailArchiver

/-- A row of `messages`. -/
structure Message where
  id : Nat
  signedAt : DateTime
  messageId : String
  date : DateTime
  fromAddr : String
  toAddrs : List String
  ccAddrs : List String
  subject : String
  sizeBytes : Nat
  /-- The key of the body blob. -/
  bodySha256 : String
  archiveHash : String
  signature : String
  legalHold : Bool
  deriving DecidableEq, Repr

/-- A row of `attachments`, unique by `sha256`. -/
structure Attachment where
  id : Nat
  sha256 : String
  filename : String
  contentType : String
  sizeBytes : Nat
  refCount : Int
  deriving DecidableEq, Repr

/-- A row of `message_dedup`, its primary key `archive_hash`. -/
structure MessageDedup where
  archiveHash : String
  messageId : Nat
  signedAt : DateTime
  deriving DecidableEq, Repr

/-- A row of `message_attachments`, its primary key the pair. -/
structure MessageAttachment where
  messageId : Nat
  attachmentId : Nat
  deriving DecidableEq, Repr

/-- The committed tables of the archive. -/
structure Db where
  messages : List Message
  messageDedup : List MessageDedup
  attachments : List Attachment
  messageAttachments : List MessageAttachment
  deriving DecidableEq, Repr

/-- The unique keys PostgreSQL enforces. -/
structure Db.Keys (db : Db) : Prop where
  messages : (db.messages.map fun m => (m.id, m.signedAt)).Nodup
  messageDedup : (db.messageDedup.map (·.archiveHash)).Nodup
  attachmentIds : (db.attachments.map (·.id)).Nodup
  attachmentHashes : (db.attachments.map (·.sha256)).Nodup
  messageAttachments : db.messageAttachments.Nodup

def Db.empty : Db := ⟨[], [], [], []⟩

/-- What a `TEXT` column takes: no NUL. -/
def fitsText (s : String) : Bool := !s.toList.contains (Char.ofNat 0)

/-- What a `VARCHAR(n)` column takes. -/
def fitsVarchar (n : Nat) (s : String) : Bool := s.length ≤ n && fitsText s

/-- Whether the columns of `messages` take the row; the hashes and the
signature always fit. -/
def Message.fits (m : Message) : Bool :=
  fitsVarchar 998 m.messageId && fitsVarchar 998 m.fromAddr && fitsText m.subject
    && m.toAddrs.all fitsText && m.ccAddrs.all fitsText

/-- Whether the columns of `attachments` take the row. -/
def Attachment.fits (a : Attachment) : Bool :=
  fitsText a.filename && fitsVarchar 255 a.contentType

/-- The dedup row of a message: `MessageDedup(archive_hash, id, signed_at)`. -/
def Message.dedup (m : Message) : MessageDedup :=
  { archiveHash := m.archiveHash, messageId := m.id, signedAt := m.signedAt }

/-- `detail` of a row of `audit_events`. -/
inductive AuditDetail where
  | empty
  | integrityOk (ok : Bool)
  | recipients (recipients : List String)
  | purged (archiveHash : String) (retentionDays : Int)
  deriving DecidableEq, Repr

/-- A row of `audit_events`. -/
structure AuditEvent where
  ts : DateTime
  actor : String
  action : String
  target : Option String
  detail : AuditDetail
  sourceIp : Option String
  deriving DecidableEq

end MailArchiver

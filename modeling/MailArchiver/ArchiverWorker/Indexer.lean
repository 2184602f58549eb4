import MailArchiver.Common.Bytes
import MailArchiver.Common.Time

/-!
# ArchiverWorker — Indexer

`archiver_worker/indexer.py`: the search documents and the daily indices
they are written to. An index is a map from document ids to documents;
`str(db_id)` is injective, so the id itself is the key.
-/

namespace MailArchiver

/-- The document `index_doc` of a mail. -/
structure IndexDoc where
  /-- Set once the row has its id. -/
  docId : Option Nat
  messageId : String
  date : String
  archivedAt : String
  fromAddr : String
  toAddrs : List String
  ccAddrs : List String
  subject : String
  body : String
  hasAttachment : Bool
  attachmentNames : List String
  sizeBytes : Nat
  retentionClass : String
  deriving DecidableEq, Repr

/-- The live event published for an archived mail. -/
structure LiveEvent where
  id : Nat
  date : String
  fromAddr : String
  toAddrs : List String
  ccAddrs : List String
  subject : String
  hasAttachment : Bool
  attachmentNames : List String
  deriving DecidableEq, Repr

/-- `daily_index(archived_at_iso)` for the index base `base`. -/
def dailyIndex (base archivedAtIso : String) : String :=
  let d := (archivedAtIso.toList.take 10).map fun c => if c = '-' then '.' else c
  if d.length = 10 then base ++ "-" ++ String.ofList d else base ++ "-unknown"

/-- All indices: what each one holds under each document id. -/
structure SearchIndex where
  docs : String → Nat → Option IndexDoc

namespace SearchIndex

def empty : SearchIndex := ⟨fun _ _ => none⟩

/-- `client.index(index=name, id=str(id), body=doc)`: creates or replaces. -/
def put (x : SearchIndex) (name : String) (id : Nat) (doc : IndexDoc) : SearchIndex :=
  ⟨fun n i => if n = name ∧ i = id then some doc else x.docs n i⟩

/-- `index_message(db_id, doc)`. -/
def indexMessage (x : SearchIndex) (base : String) (dbId : Nat) (doc : IndexDoc) : SearchIndex :=
  x.put (dailyIndex base doc.archivedAt) dbId doc

theorem docs_indexMessage (x : SearchIndex) (base : String) (dbId : Nat) (doc : IndexDoc)
    (n : String) (i : Nat) : (x.indexMessage base dbId doc).docs n i =
      if n = dailyIndex base doc.archivedAt ∧ i = dbId then some doc else x.docs n i := rfl

end SearchIndex

end MailArchiver

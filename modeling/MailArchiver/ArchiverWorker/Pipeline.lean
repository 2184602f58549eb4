import MailArchiver.ArchiverWorker.Job
import MailArchiver.Common.Archive

/-!
# ArchiverWorker — Pipeline

`ArchivePipeline.process`, one effect at a time. A call is a job, the
place it has reached (`Pc`) and, once its transaction is committed, the
id of the row it archived. `advance` is its next step; it gives nothing
when the step has to wait for another transaction or the call has ended.

An upsert of attachments counts at commit: the lock it takes keeps every
other transaction off the row until then, so nobody can tell. What an
`INSERT` returns is known at once: the id of the row it met, or a fresh
one; the sequence moves on either way.
-/

namespace MailArchiver

variable {env : Env}

/-- Where a `process` call is. From the body's `put` to the commit it
carries the attachment rows it has upserted. -/
inductive Pc where
  /-- Before the precheck of `message_dedup`. -/
  | check
  /-- Before `_reindex_existing`. -/
  | reindex (dup : MessageDedup)
  /-- Before the body's `put`. -/
  | putBody
  /-- In the loop of `_store_attachments`, or behind it when nothing is
  left to do: before a `put`, or before the flush. -/
  | storeAttachments (rows : List Attachment) (todo : List (ParsedAttachment × String))
  /-- Between the `put` of an attachment and its upsert. -/
  | upsert (rows : List Attachment) (att : ParsedAttachment) (sha : String)
      (todo : List (ParsedAttachment × String))
  /-- The message and its links are flushed; before the dedup row. -/
  | insertDedup (rows : List Attachment) (id : Nat)
  /-- Before the commit itself. -/
  | commit (rows : List Attachment) (id : Nat)
  /-- After the rollback of a unique violation. -/
  | recheck
  | indexMessage (id : Nat)
  | publish (id : Nat)
  | returned
  | raised
  deriving DecidableEq, Repr

namespace Pc

/-- The attachment rows upserted and not committed. -/
def pending : Pc → List Attachment
  | .storeAttachments rows _ => rows
  | .upsert rows _ _ _ => rows
  | .insertDedup rows _ => rows
  | .commit rows _ => rows
  | _ => []

/-- The id of the message row inserted and not committed. -/
def flushed : Pc → Option Nat
  | .insertDedup _ id => some id
  | .commit _ id => some id
  | _ => none

/-- The dedup row is inserted and not committed. -/
def reserved : Pc → Bool
  | .commit _ _ => true
  | _ => false

/-- The body is written and the transaction not finished. -/
def bodyWritten : Pc → Bool
  | .storeAttachments _ _ | .upsert _ _ _ _ | .insertDedup _ _ | .commit _ _ => true
  | _ => false

/-- The attachment keys written by a transaction that is not finished. -/
def attachmentsWritten : Pc → List String
  | .storeAttachments rows _ => rows.map (·.sha256)
  | .upsert rows _ sha _ => rows.map (·.sha256) ++ [sha]
  | .insertDedup rows _ => rows.map (·.sha256)
  | .commit rows _ => rows.map (·.sha256)
  | _ => []

end Pc

/-- A `process` call. -/
structure Call (env : Env) where
  job : Job env
  pc : Pc
  /-- The id of the row its transaction committed. -/
  committed : Option Nat

namespace Call

def goto (call : Call env) (pc : Pc) : Call env := { call with pc := pc }

@[simp] theorem goto_job (call : Call env) (pc : Pc) : (call.goto pc).job = call.job := rfl

@[simp] theorem goto_pc (call : Call env) (pc : Pc) : (call.goto pc).pc = pc := rfl

@[simp] theorem goto_committed (call : Call env) (pc : Pc) :
    (call.goto pc).committed = call.committed := rfl

/-- The message row the call has inserted, committed or not. -/
def rowId (call : Call env) : Option Nat := call.pc.flushed <|> call.committed

end Call

/-- The key and the content the next step writes to the bucket, if any. -/
def Call.writes (call : Call env) : Option (String × Bytes) :=
  match call.pc with
  | .putBody => some (call.job.archiveHash, call.job.mail.raw)
  | .storeAttachments _ ((att, sha) :: _) => some (sha, att.content)
  | _ => none

/-- The row an upsert inserts or meets, with the id it returns: the id of
the row the transaction sees under the hash, or the next of the sequence. -/
def upsertedRow (s : Stores) (rows : List Attachment) (att : ParsedAttachment) (sha : String) :
    Attachment where
  id := ((rows.find? (fun r => r.sha256 = sha) <|> s.db.findAttachment sha).map (·.id)).getD
    s.attachmentSeq
  sha256 := sha
  filename := att.filename
  contentType := att.contentType
  sizeBytes := att.content.length
  refCount := 1

/-- The next step of a call, numbered `c`. `draw` is what `seal` draws,
`published` whether the event exchange takes the live event. -/
def advance (s : Stores) (c : Nat) (call : Call env) (draw : Draw) (published : Bool) :
    Option (Stores × Call env) :=
  let job := call.job
  let raise := (s.release (.worker c), call.goto .raised)
  match call.pc with
  | .check =>
      match s.db.findDedup job.archiveHash with
      | some dup => some (s, call.goto (.reindex dup))
      | none => some (s, call.goto .putBody)
  | .reindex dup =>
      some ({ s with
          index := s.index.indexMessage env.indexBase dup.messageId
            (job.existingDoc dup.messageId dup.signedAt) },
        call.goto .returned)
  | .putBody =>
      match sealed env.prims draw job.mail.raw with
      | .error _ => some raise
      | .ok blob =>
          some ({ s with blobs := s.blobs.put job.archiveHash blob },
            call.goto (.storeAttachments [] job.attachments))
  | .storeAttachments rows ((att, sha) :: todo) =>
      match sealed env.prims draw att.content with
      | .error _ => some raise
      | .ok blob =>
          some ({ s with blobs := s.blobs.put sha blob }, call.goto (.upsert rows att sha todo))
  | .upsert rows att sha todo =>
      if Available (s.locks.attachments sha) (.worker c) then
        let row := upsertedRow s rows att sha
        if row.fits then
          some ({ s with
              attachmentSeq := s.attachmentSeq + 1
              locks := s.locks.takeAttachment sha (.worker c) },
            call.goto (.storeAttachments (rows ++ [row]) todo))
        else some raise
      else none
  | .storeAttachments rows [] =>
      -- the flush: the message row, and a link for each row in the list
      if (job.msgRow s.messageSeq).fits then
        some ({ s with messageSeq := s.messageSeq + 1 },
          call.goto (.insertDedup rows s.messageSeq))
      else some raise
  | .insertDedup rows id =>
      if Available (s.locks.dedup job.archiveHash) (.worker c) then
        match s.db.findDedup job.archiveHash with
        | some _ => some (s.release (.worker c), call.goto .recheck)
        | none =>
            some ({ s with locks := s.locks.takeDedup job.archiveHash (.worker c) },
              call.goto (.commit rows id))
      else none
  | .commit rows id =>
      some (Stores.release { s with db := s.db.archive (job.msgRow id) rows } (.worker c),
        { call with pc := .indexMessage id, committed := some id })
  | .recheck =>
      match s.db.findDedup job.archiveHash with
      | some dup => some (s, call.goto (.reindex dup))
      | none => some (s, call.goto .returned)
  | .indexMessage id =>
      some ({ s with index := s.index.indexMessage env.indexBase id (job.freshDoc id) },
        call.goto (.publish id))
  | .publish id =>
      -- `publish_event` failing is logged and forgotten
      some ({ s with live := if published then s.live ++ [job.event id] else s.live },
        call.goto .returned)
  | .returned => none
  | .raised => none

/-- An exception, or the end of the process, before the next step. -/
def fail (s : Stores) (c : Nat) (call : Call env) : Option (Stores × Call env) :=
  if call.pc = .returned ∨ call.pc = .raised then none
  else some (s.release (.worker c), call.goto .raised)

/-! ## What a step can do -/

/-- The steps of a call, by what they do to the stores. -/
inductive Move (s : Stores) (c : Nat) (call : Call env) : Stores → Call env → Prop where
  | duplicate {dup : MessageDedup} (hpc : call.pc = .check ∨ call.pc = .recheck)
      (hdup : s.db.findDedup call.job.archiveHash = some dup) :
      Move s c call s (call.goto (.reindex dup))
  | unknown (hpc : call.pc = .check) (hdup : s.db.findDedup call.job.archiveHash = none) :
      Move s c call s (call.goto .putBody)
  | gone (hpc : call.pc = .recheck) (hdup : s.db.findDedup call.job.archiveHash = none) :
      Move s c call s (call.goto .returned)
  | reindexed {dup : MessageDedup} (hpc : call.pc = .reindex dup) :
      Move s c call
        { s with
          index := s.index.indexMessage env.indexBase dup.messageId
            (call.job.existingDoc dup.messageId dup.signedAt) }
        (call.goto .returned)
  | bodyPut {draw : Draw} {blob : Bytes} (hpc : call.pc = .putBody)
      (hblob : sealed env.prims draw call.job.mail.raw = .ok blob) :
      Move s c call { s with blobs := s.blobs.put call.job.archiveHash blob }
        (call.goto (.storeAttachments [] call.job.attachments))
  | attachmentPut {draw : Draw} {blob : Bytes} {rows : List Attachment} {att : ParsedAttachment}
      {sha : String} {todo : List (ParsedAttachment × String)}
      (hpc : call.pc = .storeAttachments rows ((att, sha) :: todo))
      (hblob : sealed env.prims draw att.content = .ok blob) :
      Move s c call { s with blobs := s.blobs.put sha blob } (call.goto (.upsert rows att sha todo))
  | upserted {rows : List Attachment} {att : ParsedAttachment} {sha : String}
      {todo : List (ParsedAttachment × String)} (hpc : call.pc = .upsert rows att sha todo)
      (hlock : Available (s.locks.attachments sha) (.worker c)) :
      Move s c call
        { s with
          attachmentSeq := s.attachmentSeq + 1
          locks := s.locks.takeAttachment sha (.worker c) }
        (call.goto (.storeAttachments (rows ++ [upsertedRow s rows att sha]) todo))
  | flushed {rows : List Attachment} (hpc : call.pc = .storeAttachments rows []) :
      Move s c call { s with messageSeq := s.messageSeq + 1 }
        (call.goto (.insertDedup rows s.messageSeq))
  | conflicted {rows : List Attachment} {id : Nat} {dup : MessageDedup}
      (hpc : call.pc = .insertDedup rows id)
      (hdup : s.db.findDedup call.job.archiveHash = some dup) :
      Move s c call (s.release (.worker c)) (call.goto .recheck)
  | reserved {rows : List Attachment} {id : Nat} (hpc : call.pc = .insertDedup rows id)
      (hlock : Available (s.locks.dedup call.job.archiveHash) (.worker c))
      (hdup : s.db.findDedup call.job.archiveHash = none) :
      Move s c call { s with locks := s.locks.takeDedup call.job.archiveHash (.worker c) }
        (call.goto (.commit rows id))
  | committed {rows : List Attachment} {id : Nat} (hpc : call.pc = .commit rows id) :
      Move s c call
        (Stores.release { s with db := s.db.archive (call.job.msgRow id) rows } (.worker c))
        { call with pc := .indexMessage id, committed := some id }
  | indexed {id : Nat} (hpc : call.pc = .indexMessage id) :
      Move s c call
        { s with index := s.index.indexMessage env.indexBase id (call.job.freshDoc id) }
        (call.goto (.publish id))
  | published {id : Nat} {live : List LiveEvent} (hpc : call.pc = .publish id) :
      Move s c call { s with live := live } (call.goto .returned)
  | raised (hpc : call.pc ≠ .returned) : Move s c call (s.release (.worker c)) (call.goto .raised)

theorem Move.of_advance {s s' : Stores} {c : Nat} {call call' : Call env} {draw : Draw}
    {published : Bool} (h : advance s c call draw published = some (s', call')) :
    Move s c call s' call' := by
  unfold advance at h
  cases hpc : call.pc with
  | check =>
      simp only [hpc] at h
      split at h <;> cases h
      · exact .duplicate (.inl hpc) ‹_›
      · exact .unknown hpc ‹_›
  | reindex dup =>
      simp only [hpc] at h
      cases h
      exact .reindexed hpc
  | putBody =>
      simp only [hpc] at h
      split at h <;> cases h
      · exact .raised (by simp [hpc])
      · exact .bodyPut hpc ‹_›
  | storeAttachments rows todo =>
      cases todo with
      | nil =>
          simp only [hpc] at h
          split at h <;> cases h
          · exact .flushed hpc
          · exact .raised (by simp [hpc])
      | cons next todo =>
          obtain ⟨att, sha⟩ := next
          simp only [hpc] at h
          split at h <;> cases h
          · exact .raised (by simp [hpc])
          · exact .attachmentPut hpc ‹_›
  | upsert rows att sha todo =>
      simp only [hpc] at h
      split at h
      · split at h <;> cases h
        · exact .upserted hpc ‹_›
        · exact .raised (by simp [hpc])
      · cases h
  | insertDedup rows id =>
      simp only [hpc] at h
      split at h
      · split at h <;> cases h
        · exact .conflicted hpc ‹_›
        · exact .reserved hpc ‹_› ‹_›
      · cases h
  | commit rows id =>
      simp only [hpc] at h
      cases h
      exact .committed hpc
  | recheck =>
      simp only [hpc] at h
      split at h <;> cases h
      · exact .duplicate (.inr hpc) ‹_›
      · exact .gone hpc ‹_›
  | indexMessage id =>
      simp only [hpc] at h
      cases h
      exact .indexed hpc
  | publish id =>
      simp only [hpc] at h
      cases h
      exact .published hpc
  | returned | raised => simp [hpc] at h

theorem Move.job {s s' : Stores} {c : Nat} {call call' : Call env}
    (h : Move s c call s' call') : call'.job = call.job := by
  cases h <;> rfl

/-- A step leaves the bucket alone, or writes what it has to write. -/
theorem Move.blobs {s s' : Stores} {c : Nat} {call call' : Call env}
    (h : Move s c call s' call') : s'.blobs = s.blobs ∨ ∃ sha plaintext draw blob,
      call.writes = some (sha, plaintext) ∧ sealed env.prims draw plaintext = .ok blob
        ∧ s'.blobs = s.blobs.put sha blob := by
  cases h with
  | bodyPut hpc hblob => exact .inr ⟨_, _, _, _, by simp [Call.writes, hpc], hblob, rfl⟩
  | attachmentPut hpc hblob => exact .inr ⟨_, _, _, _, by simp [Call.writes, hpc], hblob, rfl⟩
  | duplicate | unknown | gone | reindexed | upserted | flushed | conflicted | reserved
  | committed | indexed | published | raised => exact .inl rfl

/-- Only the commit changes the tables, and the mail is archived then. -/
theorem Move.db {s s' : Stores} {c : Nat} {call call' : Call env}
    (h : Move s c call s' call') :
    (s'.db = s.db ∧ call'.committed = call.committed) ∨ ∃ rows id, call.pc = .commit rows id
      ∧ s'.db = s.db.archive (call.job.msgRow id) rows ∧ call'.committed = some id := by
  cases h with
  | committed hpc => exact .inr ⟨_, _, hpc, rfl, rfl⟩
  | duplicate | unknown | gone | reindexed | bodyPut | attachmentPut | upserted | flushed
  | conflicted | reserved | indexed | published | raised => exact .inl ⟨rfl, rfl⟩

/-- The search cluster gets documents under their own id only. -/
theorem Move.index {s s' : Stores} {c : Nat} {call call' : Call env}
    (h : Move s c call s' call') : s'.index = s.index ∨ ∃ id doc,
      doc.docId = some id ∧ s'.index = s.index.indexMessage env.indexBase id doc := by
  cases h with
  | reindexed | indexed => exact .inr ⟨_, _, rfl, rfl⟩
  | duplicate | unknown | gone | bodyPut | attachmentPut | upserted | flushed | conflicted
  | reserved | committed | published | raised => exact .inl rfl

/-- The body a transaction relies on is the one it has just written, or
has relied on before. -/
theorem Move.bodyWritten {s s' : Stores} {c : Nat} {call call' : Call env}
    (h : Move s c call s' call') (hw : call'.pc.bodyWritten = true) :
    call.pc.bodyWritten = true ∨ call.writes = some (call.job.archiveHash, call.job.mail.raw)
      ∧ ∃ draw blob, sealed env.prims draw call.job.mail.raw = .ok blob
        ∧ s'.blobs = s.blobs.put call.job.archiveHash blob := by
  cases h with
  | bodyPut hpc hblob => exact .inr ⟨by simp [Call.writes, hpc], _, _, hblob, rfl⟩
  | attachmentPut hpc | upserted hpc | flushed hpc | reserved hpc =>
      exact .inl (by simp [hpc, Pc.bodyWritten])
  | duplicate | unknown | gone | reindexed | conflicted | committed | indexed | published
  | raised => cases hw

/-- So are the attachments. -/
theorem Move.attachmentsWritten {s s' : Stores} {c : Nat} {call call' : Call env}
    (h : Move s c call s' call') {sha : String} (hw : sha ∈ call'.pc.attachmentsWritten) :
    sha ∈ call.pc.attachmentsWritten ∨ (s'.blobs.lookup sha).isSome := by
  cases h with
  | bodyPut hpc => simp [Pc.attachmentsWritten] at hw
  | @attachmentPut draw blob rows att sha' todo hpc hblob =>
      simp only [Call.goto, Pc.attachmentsWritten, List.mem_append, List.mem_singleton] at hw
      rcases hw with hw | rfl
      · exact .inl (by simpa [hpc, Pc.attachmentsWritten] using hw)
      · exact .inr (by simp)
  | upserted hpc hlock =>
      exact .inl (by simpa [hpc, Pc.attachmentsWritten, upsertedRow] using hw)
  | flushed hpc | reserved hpc => exact .inl (by simpa [hpc, Pc.attachmentsWritten] using hw)
  | duplicate | unknown | gone | reindexed | conflicted | committed | indexed | published
  | raised => cases hw

/-! ## What a call knows about itself -/

/-- What the place of a call says about what it has done: the rows it
carries are those of the attachments behind it, in order, and it has
committed exactly when it is past the commit. -/
def Call.Coherent (call : Call env) : Prop :=
  match call.pc with
  | .check | .reindex _ | .putBody | .recheck => call.committed = none
  | .storeAttachments rows todo =>
      call.committed = none ∧ ∃ behind, call.job.attachments = behind ++ todo
        ∧ rows.map (·.sha256) = behind.map Prod.snd
  | .upsert rows att sha todo =>
      call.committed = none ∧ ∃ behind, call.job.attachments = behind ++ (att, sha) :: todo
        ∧ rows.map (·.sha256) = behind.map Prod.snd
  | .insertDedup rows _ | .commit rows _ =>
      call.committed = none ∧ rows.map (·.sha256) = call.job.attHashes
  | .indexMessage id | .publish id => call.committed = some id
  | .returned | .raised => True

/-- A call writes its body, or an attachment of its mail. -/
theorem Call.Coherent.writes {call : Call env} (h : call.Coherent) {sha : String}
    {plaintext : Bytes} (hw : call.writes = some (sha, plaintext)) :
    sha = call.job.archiveHash ∨ sha ∈ call.job.attHashes := by
  unfold Call.Coherent at h
  unfold Call.writes at hw
  cases hpc : call.pc with
  | putBody =>
      simp only [hpc, Option.some.injEq, Prod.mk.injEq] at hw
      exact .inl hw.1.symm
  | storeAttachments rows todo =>
      cases todo with
      | nil => simp [hpc] at hw
      | cons next todo =>
          simp only [hpc, Option.some.injEq, Prod.mk.injEq] at h hw
          obtain ⟨-, behind, hatts, -⟩ := h
          right
          rw [← call.job.attachments_snd, hatts, ← hw.1]
          simp
  | check | reindex | upsert | insertDedup | commit | recheck | indexMessage | publish
  | returned | raised => simp [hpc] at hw

/-- A call that is about to commit has not committed. -/
theorem Call.Coherent.committed_none {call : Call env} (h : call.Coherent)
    (hw : call.pc.bodyWritten = true) : call.committed = none := by
  unfold Call.Coherent at h
  cases hpc : call.pc with
  | storeAttachments | upsert | insertDedup | commit =>
      simp only [hpc] at h
      exact h.1
  | check | reindex | putBody | recheck | indexMessage | publish | returned | raised =>
      rw [hpc] at hw
      cases hw

theorem Move.coherent {s s' : Stores} {c : Nat} {call call' : Call env}
    (h : Move s c call s' call') (hc : call.Coherent) : call'.Coherent := by
  unfold Call.Coherent at hc
  cases h with
  | duplicate hpc hdup =>
      rcases hpc with hpc | hpc
      · simpa [Call.Coherent, hpc] using hc
      · simpa [Call.Coherent, hpc] using hc
  | unknown hpc | reserved hpc | indexed hpc =>
      simpa [Call.Coherent, hpc] using hc
  | bodyPut hpc hblob =>
      simp only [hpc] at hc
      exact ⟨hc, [], rfl, rfl⟩
  | attachmentPut hpc hblob =>
      simpa [Call.Coherent, hpc] using hc
  | upserted hpc hlock =>
      simp only [hpc] at hc
      obtain ⟨hnone, behind, hatts, hrows⟩ := hc
      exact ⟨hnone, behind ++ [_], by simpa using hatts, by simp [hrows, upsertedRow]⟩
  | flushed hpc =>
      simp only [hpc] at hc
      obtain ⟨hnone, behind, hatts, hrows⟩ := hc
      refine ⟨hnone, ?_⟩
      rw [hrows, Call.goto_job, ← Job.attachments_snd, hatts, List.append_nil]
  | conflicted hpc hdup =>
      simp only [hpc] at hc
      exact hc.1
  | committed hpc => rfl
  | gone | reindexed | published | raised => trivial

end MailArchiver

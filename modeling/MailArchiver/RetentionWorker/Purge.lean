import MailArchiver.Common.Archive

/-!
# RetentionWorker — Purge

The purge of `run_retention`: one transaction over a batch of expired
messages, and blobs deleted one by one on the way. A run is given its
cutoff; the arithmetic behind it and the dropping of old search indices,
which comes first and touches the search cluster only, are in
`RetentionWorker.Indices`. The audit rows are left out.

Which statements the transaction issues depends only on what the session
loaded: the bulk `UPDATE` also counts down the object in memory, and
`session.get` answers from there. So a run is a list of statements
(`purgeMessages`) from the moment its batch is loaded. Their effect on
the tables counts at commit; a blob is gone at once.
-/

namespace MailArchiver

/-! ## Loading the batch -/

/-- `Message.signed_at < cutoff, Message.legal_hold.is_(False)`. -/
def isExpired (cutoff : DateTime) (m : Message) : Bool :=
  m.signedAt.before cutoff && !m.legalHold

/-- `LIMIT 5000`. -/
def batchLimit : Nat := 5000

/-- What the `SELECT` can return: expired rows, up to the limit, in any
order. -/
def IsBatch (db : Db) (cutoff : DateTime) (batch : List Message) : Prop :=
  batch.Nodup ∧ (∀ m ∈ batch, m ∈ db.messages ∧ isExpired cutoff m)
    ∧ batch.length = min batchLimit (db.messages.countP (isExpired cutoff))

instance (db : Db) (cutoff : DateTime) (batch : List Message) :
    Decidable (IsBatch db cutoff batch) :=
  inferInstanceAs (Decidable (_ ∧ _ ∧ _))

/-- The attachment rows the session holds in memory, by primary key. -/
abbrev IdentityMap := Nat → Option Attachment

/-- The ids of `msg.attachments`: the links of the message, joined with
the attachment rows. -/
def Db.attachedTo (db : Db) (msg : Message) : List Nat :=
  ((db.messageAttachments.filter fun l => l.messageId = msg.id).map (·.attachmentId)).filter
    fun id => db.attachments.any fun a => a.id = id

/-- `selectinload(Message.attachments)` for one message: a row the
session already holds is not read again. -/
def load (db : Db) (msg : Message) (mem : IdentityMap) : IdentityMap := fun id =>
  match mem id with
  | some a => some a
  | none =>
      if id ∈ db.attachedTo msg then db.attachments.find? fun a => a.id = id else none

/-! ## The statements of the transaction -/

inductive Statement where
  /-- `UPDATE attachments SET ref_count = ref_count - 1 WHERE id = …`. -/
  | decrement (attachmentId : Nat)
  /-- `blobs.delete(refreshed.sha256)` and `session.delete(refreshed)`. -/
  | collect (refreshed : Attachment)
  /-- `blobs.delete(msg.body_sha256)`. -/
  | deleteBody (msg : Message)
  /-- `DELETE FROM message_dedup WHERE archive_hash = …`. -/
  | deleteDedup (archiveHash : String)
  /-- `session.delete(msg)`, which removes the links it loaded. -/
  | deleteMessage (msg : Message) (attachmentIds : List Nat)
  deriving DecidableEq, Repr

/-- The loop over `msg.attachments`: its statements, and what the session
holds in memory afterwards. An attachment collected before is not found
again. -/
def purgeAttachments (mem : IdentityMap) : List Nat → List Statement × IdentityMap
  | [] => ([], mem)
  | id :: ids =>
      match mem id with
      | none =>
          let (rest, mem') := purgeAttachments mem ids
          (.decrement id :: rest, mem')
      | some att =>
          let refreshed := { att with refCount := att.refCount - 1 }
          if refreshed.refCount ≤ 0 then
            let (rest, mem') := purgeAttachments (Function.update mem id none) ids
            (.decrement id :: .collect refreshed :: rest, mem')
          else
            let (rest, mem') := purgeAttachments (Function.update mem id (some refreshed)) ids
            (.decrement id :: rest, mem')

/-- The loop over `expired`, each message with its loaded attachments. -/
def purgeMessages (mem : IdentityMap) : List (Message × List Nat) → List Statement
  | [] => []
  | (msg, ids) :: expired =>
      let (statements, mem') := purgeAttachments mem ids
      statements
        ++ [.deleteBody msg, .deleteDedup msg.archiveHash, .deleteMessage msg ids]
        ++ purgeMessages mem' expired

namespace Statement

/-- The effect on the bucket, at once. -/
def onBlobs (blobs : BlobStore) : Statement → BlobStore
  | .collect refreshed => blobs.delete refreshed.sha256
  | .deleteBody msg => blobs.delete msg.bodySha256
  | _ => blobs

/-- The effect on the tables, at commit. An attachment row goes with all
its links: `session.delete` loads those of the other messages. -/
def onDb (db : Db) : Statement → Db
  | .decrement id =>
      { db with
        attachments := db.attachments.map fun a =>
          if a.id = id then { a with refCount := a.refCount - 1 } else a }
  | .collect refreshed =>
      { db with
        attachments := db.attachments.filter fun a => a.id ≠ refreshed.id
        messageAttachments :=
          db.messageAttachments.filter fun l => l.attachmentId ≠ refreshed.id }
  | .deleteBody _ => db
  | .deleteDedup archiveHash =>
      { db with messageDedup := db.messageDedup.filter fun d => d.archiveHash ≠ archiveHash }
  | .deleteMessage msg ids =>
      { db with
        messages := db.messages.filter fun m => ¬(m.id = msg.id ∧ m.signedAt = msg.signedAt)
        messageAttachments :=
          db.messageAttachments.filter fun l => ¬(l.messageId = msg.id ∧ l.attachmentId ∈ ids) }

/-- The locks after a write to an attachment row, unless another
transaction holds it. -/
def lockAttachment (db : Db) (locks : Locks) (id : Nat) : Option Locks :=
  match db.attachments.find? fun a => a.id = id with
  | none => some locks
  | some a =>
      if Available (locks.attachments a.sha256) .retention then
        some (locks.takeAttachment a.sha256 .retention)
      else none

/-- The locks after a statement, unless it has to wait for one. -/
def takeLock (db : Db) (locks : Locks) : Statement → Option Locks
  | .decrement id => lockAttachment db locks id
  | .collect refreshed => lockAttachment db locks refreshed.id
  | .deleteDedup archiveHash =>
      if (db.findDedup archiveHash).isSome then
        if Available (locks.dedup archiveHash) .retention then
          some (locks.takeDedup archiveHash .retention)
        else none
      else some locks
  | .deleteMessage msg _ =>
      if Available (locks.messages msg.id) .retention then
        some (locks.takeMessage msg.id .retention)
      else none
  | .deleteBody _ => some locks

/-- A statement takes no lock from anybody. -/
theorem takeLock_keeps {db : Db} {locks locks' : Locks} {st : Statement}
    (h : st.takeLock db locks = some locks') :
    (∀ k o, locks.attachments k = some o → locks'.attachments k = some o)
      ∧ (∀ k o, locks.dedup k = some o → locks'.dedup k = some o)
      ∧ ∀ k o, locks.messages k = some o → locks'.messages k = some o := by
  have hattachment : ∀ id, lockAttachment db locks id = some locks' →
      (∀ k o, locks.attachments k = some o → locks'.attachments k = some o)
        ∧ locks'.dedup = locks.dedup ∧ locks'.messages = locks.messages := by
    intro id hid
    unfold lockAttachment at hid
    split at hid
    · cases hid
      exact ⟨fun _ _ hk => hk, rfl, rfl⟩
    · split at hid <;> cases hid
      exact ⟨fun _ _ hk => update_keeps ‹_› hk, rfl, rfl⟩
  cases st with
  | decrement id =>
      obtain ⟨h₁, h₂, h₃⟩ := hattachment id h
      exact ⟨h₁, fun k o hk => h₂ ▸ hk, fun k o hk => h₃ ▸ hk⟩
  | collect r =>
      obtain ⟨h₁, h₂, h₃⟩ := hattachment r.id h
      exact ⟨h₁, fun k o hk => h₂ ▸ hk, fun k o hk => h₃ ▸ hk⟩
  | deleteBody msg =>
      cases h
      exact ⟨fun _ _ hk => hk, fun _ _ hk => hk, fun _ _ hk => hk⟩
  | deleteDedup hash =>
      simp only [takeLock] at h
      split at h
      · split at h <;> cases h
        exact ⟨fun _ _ hk => hk, fun _ _ hk => update_keeps ‹_› hk, fun _ _ hk => hk⟩
      · cases h
        exact ⟨fun _ _ hk => hk, fun _ _ hk => hk, fun _ _ hk => hk⟩
  | deleteMessage msg ids =>
      simp only [takeLock] at h
      split at h <;> cases h
      exact ⟨fun _ _ hk => hk, fun _ _ hk => hk, fun _ _ hk => update_keeps ‹_› hk⟩

/-- Nor does it wait, where every lock is free or the purge's own. -/
theorem takeLock_free {db : Db} {locks : Locks} (h : locks.FreeFor .retention) (st : Statement) :
    ∃ locks', st.takeLock db locks = some locks' ∧ locks'.FreeFor .retention := by
  have hattachment : ∀ id, ∃ locks', lockAttachment db locks id = some locks'
      ∧ locks'.FreeFor .retention := by
    intro id
    unfold lockAttachment
    split
    · exact ⟨locks, rfl, h⟩
    · rename_i a _
      rw [if_pos (h.attachments a.sha256)]
      exact ⟨_, rfl, h.takeAttachment a.sha256⟩
  cases st with
  | decrement id => exact hattachment id
  | collect r => exact hattachment r.id
  | deleteBody msg => exact ⟨locks, rfl, h⟩
  | deleteDedup hash =>
      simp only [takeLock]
      split
      · rw [if_pos (h.dedup hash)]
        exact ⟨_, rfl, h.takeDedup hash⟩
      · exact ⟨locks, rfl, h⟩
  | deleteMessage msg ids =>
      simp only [takeLock]
      rw [if_pos (h.messages msg.id)]
      exact ⟨_, rfl, h.takeMessage msg.id⟩

end Statement

/-! ## A run, step by step -/

/-- How far a purge is. -/
inductive Purge where
  | idle
  | loading (expired : List (Message × List Nat)) (mem : IdentityMap) (rest : List Message)
  | running (done todo : List Statement)

/-- The statements a purge has executed. -/
def Purge.done : Purge → List Statement
  | .running done _ => done
  | _ => []

/-- The statement a purge executes next. -/
def Purge.next : Purge → Option Statement
  | .running _ todo => todo.head?
  | _ => none

inductive PurgeEvent where
  | select (cutoff : DateTime) (batch : List Message)
  /-- The next load or statement, or the commit. -/
  | advance
  /-- An exception, or the end of the process: the transaction is gone. -/
  | crash
  deriving DecidableEq

namespace Purge

def step (s : Stores) : Purge → PurgeEvent → Option (Stores × Purge)
  | .idle, .select cutoff batch =>
      if IsBatch s.db cutoff batch then some (s, .loading [] (fun _ => none) batch) else none
  | .loading expired mem rest, .advance =>
      match rest with
      | msg :: rest =>
          some (s, .loading (expired ++ [(msg, s.db.attachedTo msg)]) (load s.db msg mem) rest)
      | [] => some (s, .running [] (purgeMessages mem expired))
  | .running done todo, .advance =>
      match todo with
      | st :: todo =>
          match st.takeLock s.db s.locks with
          | none => none
          | some locks =>
              some ({ s with blobs := st.onBlobs s.blobs, locks := locks },
                .running (done ++ [st]) todo)
      | [] =>
          some (Stores.release { s with db := done.foldl Statement.onDb s.db } .retention, .idle)
  | .loading _ _ _, .crash => some (s.release .retention, .idle)
  | .running _ _, .crash => some (s.release .retention, .idle)
  | _, _ => none

/-- The steps of a purge, by what they do. -/
inductive Move (s : Stores) : Purge → PurgeEvent → Stores → Purge → Prop where
  | select {cutoff : DateTime} {batch : List Message} (h : IsBatch s.db cutoff batch) :
      Move s .idle (.select cutoff batch) s (.loading [] (fun _ => none) batch)
  | load {expired : List (Message × List Nat)} {mem : IdentityMap} {msg : Message}
      {rest : List Message} :
      Move s (.loading expired mem (msg :: rest)) .advance s
        (.loading (expired ++ [(msg, s.db.attachedTo msg)]) (MailArchiver.load s.db msg mem) rest)
  | begin {expired : List (Message × List Nat)} {mem : IdentityMap} :
      Move s (.loading expired mem []) .advance s (.running [] (purgeMessages mem expired))
  | execute {done todo : List Statement} {st : Statement} {locks : Locks}
      (hlocks : st.takeLock s.db s.locks = some locks) :
      Move s (.running done (st :: todo)) .advance
        { s with blobs := st.onBlobs s.blobs, locks := locks } (.running (done ++ [st]) todo)
  | commit {done : List Statement} :
      Move s (.running done []) .advance
        (Stores.release { s with db := done.foldl Statement.onDb s.db } .retention) .idle
  | crash {p : Purge} (h : p ≠ .idle) : Move s p .crash (s.release .retention) .idle

theorem Move.of_step {s s' : Stores} {p p' : Purge} {e : PurgeEvent}
    (h : step s p e = some (s', p')) : Move s p e s' p' := by
  cases p with
  | idle =>
      cases e with
      | select cutoff batch =>
          simp only [step] at h
          split at h <;> cases h
          exact .select ‹_›
      | advance | crash => simp [step] at h
  | loading expired mem rest =>
      cases e with
      | select cutoff batch => simp [step] at h
      | advance =>
          cases rest with
          | nil =>
              cases h
              exact .begin
          | cons msg rest =>
              cases h
              exact .load
      | crash =>
          cases h
          exact .crash (by simp)
  | running done todo =>
      cases e with
      | select cutoff batch => simp [step] at h
      | advance =>
          cases todo with
          | nil =>
              cases h
              exact .commit
          | cons st todo =>
              simp only [step] at h
              split at h <;> cases h
              exact .execute ‹_›
      | crash =>
          cases h
          exact .crash (by simp)

end Purge

/-! ## What a list of statements does -/

namespace Statement

/-- The key whose blob the statement deletes. -/
def deletes : Statement → Option String
  | .collect refreshed => some refreshed.sha256
  | .deleteBody msg => some msg.bodySha256
  | _ => none

/-- A statement on a message of the batch, not on its attachments. -/
def onMessage : Statement → Bool
  | .decrement _ | .collect _ => false
  | _ => true

def removesMessage (m : Message) : Statement → Bool
  | .deleteMessage msg _ => m.id = msg.id ∧ m.signedAt = msg.signedAt
  | _ => false

def removesDedup (d : MessageDedup) : Statement → Bool
  | .deleteDedup archiveHash => d.archiveHash = archiveHash
  | _ => false

def removesAttachment (id : Nat) : Statement → Bool
  | .collect refreshed => id = refreshed.id
  | _ => false

def removesLink (l : MessageAttachment) : Statement → Bool
  | .collect refreshed => l.attachmentId = refreshed.id
  | .deleteMessage msg ids => l.messageId = msg.id ∧ l.attachmentId ∈ ids
  | _ => false

/-- The row after the decrements among the statements. -/
def counted (sts : List Statement) (a : Attachment) : Attachment :=
  { a with refCount := a.refCount - sts.count (.decrement a.id) }

@[simp] theorem counted_id (sts : List Statement) (a : Attachment) :
    (counted sts a).id = a.id := rfl

@[simp] theorem counted_sha256 (sts : List Statement) (a : Attachment) :
    (counted sts a).sha256 = a.sha256 := rfl

theorem lookup_onBlobs (blobs : BlobStore) (st : Statement) (k : String) :
    (st.onBlobs blobs).lookup k = if st.deletes = some k then none else blobs.lookup k := by
  cases st with
  | collect refreshed => simp [onBlobs, deletes, BlobStore.lookup_delete, eq_comm]
  | deleteBody msg => simp [onBlobs, deletes, BlobStore.lookup_delete, eq_comm]
  | decrement | deleteDedup | deleteMessage => simp [onBlobs, deletes]

theorem lookup_foldl_onBlobs (sts : List Statement) (blobs : BlobStore) (k : String) :
    (sts.foldl onBlobs blobs).lookup k =
      if ∃ st ∈ sts, st.deletes = some k then none else blobs.lookup k := by
  induction sts generalizing blobs with
  | nil => simp
  | cons st sts ih =>
      rw [List.foldl_cons, ih, lookup_onBlobs]
      by_cases hst : st.deletes = some k
      · simp [hst]
      · simp [hst]

theorem foldl_onDb_messages (sts : List Statement) (db : Db) :
    (sts.foldl onDb db).messages = db.messages.filter fun m => !sts.any (·.removesMessage m) := by
  induction sts generalizing db with
  | nil => simp
  | cons st sts ih =>
      rw [List.foldl_cons, ih]
      cases st with
      | deleteMessage msg ids =>
          simp only [onDb, List.filter_filter, List.any_cons, removesMessage]
          refine List.filter_congr fun m _ => ?_
          grind
      | decrement | collect | deleteBody | deleteDedup => simp [onDb, removesMessage]

theorem foldl_onDb_messageDedup (sts : List Statement) (db : Db) :
    (sts.foldl onDb db).messageDedup =
      db.messageDedup.filter fun d => !sts.any (·.removesDedup d) := by
  induction sts generalizing db with
  | nil => simp
  | cons st sts ih =>
      rw [List.foldl_cons, ih]
      cases st with
      | deleteDedup archiveHash =>
          simp only [onDb, List.filter_filter, List.any_cons, removesDedup]
          refine List.filter_congr fun d _ => ?_
          grind
      | decrement | collect | deleteBody | deleteMessage => simp [onDb, removesDedup]

theorem foldl_onDb_messageAttachments (sts : List Statement) (db : Db) :
    (sts.foldl onDb db).messageAttachments =
      db.messageAttachments.filter fun l => !sts.any (·.removesLink l) := by
  induction sts generalizing db with
  | nil => simp
  | cons st sts ih =>
      rw [List.foldl_cons, ih]
      cases st with
      | collect refreshed =>
          simp only [onDb, List.filter_filter, List.any_cons, removesLink]
          refine List.filter_congr fun l _ => ?_
          grind
      | deleteMessage msg ids =>
          simp only [onDb, List.filter_filter, List.any_cons, removesLink]
          refine List.filter_congr fun l _ => ?_
          grind
      | decrement | deleteBody | deleteDedup => simp [onDb, removesLink]

theorem foldl_onDb_attachments (sts : List Statement) (db : Db) :
    (sts.foldl onDb db).attachments =
      (db.attachments.filter fun a => !sts.any (·.removesAttachment a.id)).map (counted sts) := by
  induction sts generalizing db with
  | nil =>
      have hid : counted [] = id := by
        funext a
        simp [counted]
      simp [hid]
  | cons st sts ih =>
      rw [List.foldl_cons, ih]
      cases st with
      | decrement id =>
          -- counting down keeps the ids, by which rows are removed
          have hids : ((fun a : Attachment => !sts.any (·.removesAttachment a.id)) ∘
              fun a => if a.id = id then { a with refCount := a.refCount - 1 } else a)
              = fun a => !sts.any (·.removesAttachment a.id) := by
            funext a
            simp only [Function.comp_apply]
            split <;> rfl
          change ((db.attachments.map _).filter _).map _
            = (db.attachments.filter fun a => !(false || sts.any (·.removesAttachment a.id))).map _
          rw [List.filter_map, List.map_map, hids]
          simp only [Bool.false_or]
          refine List.map_congr_left fun a _ => ?_
          by_cases ha : a.id = id
          · simp [counted, ha]
            omega
          · simp [counted, ha, Ne.symm ha]
      | collect refreshed =>
          simp only [onDb, List.filter_filter, List.any_cons, removesAttachment]
          have hcount : counted (.collect refreshed :: sts) = counted sts := by
            funext a
            simp [counted]
          rw [hcount]
          congr 1
          refine List.filter_congr fun a _ => ?_
          grind
      | deleteBody | deleteDedup | deleteMessage =>
          simp [onDb, removesAttachment, counted]

end Statement

/-! ## Which statements a batch gives -/

/-- How many of the messages carry the attachment. -/
def carriers (expired : List (Message × List Nat)) (id : Nat) : Nat :=
  expired.countP fun x => id ∈ x.2

@[simp] theorem carriers_cons (x : Message × List Nat) (expired : List (Message × List Nat))
    (id : Nat) : carriers (x :: expired) id = carriers expired id + if id ∈ x.2 then 1 else 0 := by
  simp [carriers, List.countP_cons]

theorem count_decrement_purgeAttachments (mem : IdentityMap) (ids : List Nat) (id : Nat) :
    (purgeAttachments mem ids).1.count (.decrement id) = ids.count id := by
  induction ids generalizing mem with
  | nil => rfl
  | cons i ids ih =>
      rw [purgeAttachments]
      cases mem i with
      | none => simp [List.count_cons, ih]
      | some att =>
          simp only
          split
          · simp [List.count_cons, ih]
          · simp [List.count_cons, ih]

/-- Each message of the batch counts its attachments down once. -/
theorem count_decrement_purgeMessages (mem : IdentityMap) {expired : List (Message × List Nat)}
    (hnodup : ∀ x ∈ expired, x.2.Nodup) (id : Nat) :
    (purgeMessages mem expired).count (.decrement id) = carriers expired id := by
  induction expired generalizing mem with
  | nil => rfl
  | cons x expired ih =>
      obtain ⟨msg, ids⟩ := x
      have hids := hnodup (msg, ids) List.mem_cons_self
      have ih' := ih (purgeAttachments mem ids).2 fun y hy => hnodup y (List.mem_cons_of_mem _ hy)
      simp [purgeMessages, List.count_append, count_decrement_purgeAttachments, ih',
        List.Nodup.count hids]
      omega

/-- The session's memory after the loop over the attachments of a message. -/
theorem purgeAttachments_snd (mem : IdentityMap) {ids : List Nat} (hnodup : ids.Nodup) (id : Nat) :
    (purgeAttachments mem ids).2 id =
      if id ∈ ids then
        (mem id).bind fun a =>
          if a.refCount - 1 ≤ 0 then none else some { a with refCount := a.refCount - 1 }
      else mem id := by
  induction ids generalizing mem with
  | nil => rfl
  | cons i ids ih =>
      obtain ⟨hi, hnodup⟩ := List.nodup_cons.mp hnodup
      rw [purgeAttachments]
      cases hmem : mem i with
      | none =>
          simp only [ih _ hnodup]
          by_cases hid : id = i
          · simp [hid, hi, hmem]
          · simp [hid]
      | some att =>
          simp only
          by_cases hid : id = i
          · subst hid
            split <;> simp_all
          · split <;> simp [ih _ hnodup, hid]

/-- What a message's loop issues: one decrement for each attachment, and a
collection of those whose count in memory falls to zero. -/
theorem mem_purgeAttachments {mem : IdentityMap} {ids : List Nat} (hnodup : ids.Nodup)
    {st : Statement} : st ∈ (purgeAttachments mem ids).1 ↔
      (∃ id ∈ ids, st = .decrement id) ∨ ∃ id ∈ ids, ∃ a, mem id = some a ∧ a.refCount - 1 ≤ 0
        ∧ st = .collect { a with refCount := a.refCount - 1 } := by
  induction ids generalizing mem with
  | nil => simp [purgeAttachments]
  | cons i ids ih =>
      obtain ⟨hi, hnodup⟩ := List.nodup_cons.mp hnodup
      -- the rest of the loop does not look at `i` again
      have hrest : ∀ x : Option Attachment, st ∈ (purgeAttachments (Function.update mem i x) ids).1 ↔
          (∃ id ∈ ids, st = .decrement id) ∨ ∃ id ∈ ids, ∃ a, mem id = some a
            ∧ a.refCount - 1 ≤ 0 ∧ st = .collect { a with refCount := a.refCount - 1 } := by
        intro x
        rw [ih hnodup]
        refine or_congr_right (exists_congr fun id => and_congr_right fun hid => ?_)
        rw [Function.update_of_ne (ne_of_mem_of_not_mem hid hi)]
      rw [purgeAttachments, List.exists_mem_cons_iff, List.exists_mem_cons_iff]
      cases hmem : mem i with
      | none => simp [ih hnodup, or_assoc]
      | some att =>
          simp only
          split
          · rename_i hle
            simp only [List.mem_cons, hrest, Option.some.injEq, exists_eq_left', hle, true_and]
            exact (or_congr_right or_left_comm).trans or_assoc.symm
          · rename_i hle
            simp only [List.mem_cons, hrest, Option.some.injEq, exists_eq_left', hle, false_and,
              false_or]
            exact or_assoc.symm

/-- The statements of a batch besides those on attachments: three for
each message. -/
theorem mem_purgeMessages_message {mem : IdentityMap} {expired : List (Message × List Nat)}
    (hnodup : ∀ x ∈ expired, x.2.Nodup) {st : Statement} (hst : st.onMessage = true) :
    st ∈ purgeMessages mem expired ↔ ∃ x ∈ expired, st = .deleteBody x.1
      ∨ st = .deleteDedup x.1.archiveHash ∨ st = .deleteMessage x.1 x.2 := by
  induction expired generalizing mem with
  | nil => simp [purgeMessages]
  | cons x expired ih =>
      obtain ⟨msg, ids⟩ := x
      have hatt : st ∉ (purgeAttachments mem ids).1 := by
        rw [mem_purgeAttachments (hnodup (msg, ids) List.mem_cons_self)]
        rintro (⟨id, -, rfl⟩ | ⟨id, -, a, -, -, rfl⟩)
        · cases hst
        · cases hst
      simp [purgeMessages, hatt, ih fun y hy => hnodup y (List.mem_cons_of_mem _ hy), or_assoc]

/-- The session's memory is keyed by the ids of its rows. -/
def IdentityMap.Keyed (mem : IdentityMap) : Prop := ∀ id a, mem id = some a → a.id = id

theorem IdentityMap.keyed_empty : IdentityMap.Keyed fun _ => none := by
  intro id a h
  cases h

theorem IdentityMap.Keyed.purgeAttachments {mem : IdentityMap} (h : mem.Keyed) {ids : List Nat}
    (hnodup : ids.Nodup) : IdentityMap.Keyed (purgeAttachments mem ids).2 := by
  intro id a ha
  rw [purgeAttachments_snd mem hnodup] at ha
  split at ha
  · obtain ⟨b, hb, hba⟩ := Option.bind_eq_some_iff.mp ha
    split at hba <;> cases hba
    exact h id b hb
  · exact h id a ha

theorem nodup_attachedTo {db : Db} (hlinks : db.messageAttachments.Nodup) (msg : Message) :
    (db.attachedTo msg).Nodup := by
  refine List.Nodup.filter _ (List.Nodup.map_on ?_ (hlinks.filter _))
  intro x hx y hy hxy
  have hx' := of_decide_eq_true (List.mem_filter.mp hx).2
  have hy' := of_decide_eq_true (List.mem_filter.mp hy).2
  cases x
  cases y
  simp_all

theorem load_keyed {db : Db} {mem : IdentityMap} (h : mem.Keyed) (msg : Message) :
    IdentityMap.Keyed (load db msg mem) := by
  intro id a ha
  rw [load] at ha
  cases hmem : mem id with
  | some b =>
      simp only [hmem, Option.some.injEq] at ha
      exact ha ▸ h id b hmem
  | none =>
      simp only [hmem] at ha
      split at ha
      · simpa using List.find?_some ha
      · cases ha

/-- A collected attachment is one of the session's, carried by the batch
often enough to bring its count to zero. -/
theorem of_collect_mem {mem : IdentityMap} (hmem : mem.Keyed)
    {expired : List (Message × List Nat)} (hnodup : ∀ x ∈ expired, x.2.Nodup)
    {r : Attachment} (hr : .collect r ∈ purgeMessages mem expired) :
    ∃ a, mem r.id = some a ∧ r.sha256 = a.sha256 ∧ 0 < carriers expired r.id
      ∧ a.refCount ≤ carriers expired r.id := by
  induction expired generalizing mem with
  | nil => simp [purgeMessages] at hr
  | cons x expired ih =>
      obtain ⟨msg, ids⟩ := x
      have hids : ids.Nodup := hnodup (msg, ids) List.mem_cons_self
      simp only [purgeMessages, List.mem_append, List.mem_cons, reduceCtorEq, List.not_mem_nil,
        or_false] at hr
      rcases hr with hr | hr
      · -- collected by the first message
        rcases (mem_purgeAttachments hids).mp hr with ⟨id, -, h⟩ | ⟨id, hid, a, ha, hle, h⟩
        · cases h
        · cases h
          obtain rfl : a.id = id := hmem id a ha
          exact ⟨a, ha, rfl, by simp [hid], by simp [hid]; omega⟩
      · obtain ⟨a, ha, hsha, hpos, hle⟩ := ih (hmem.purgeAttachments hids)
          (fun y hy => hnodup y (List.mem_cons_of_mem _ hy)) hr
        rw [purgeAttachments_snd mem hids] at ha
        by_cases hid : r.id ∈ ids
        · rw [if_pos hid] at ha
          obtain ⟨b, hb, hba⟩ := Option.bind_eq_some_iff.mp ha
          split at hba <;> cases hba
          exact ⟨b, hb, hsha, by simp [hid], by simp [hid]; simp at hle; omega⟩
        · rw [if_neg hid] at ha
          exact ⟨a, ha, hsha, by simpa [hid] using hpos, by simpa [hid] using hle⟩

/-- An attachment whose count the batch brings to zero is collected. -/
theorem collect_mem_of {mem : IdentityMap} (hmem : mem.Keyed)
    {expired : List (Message × List Nat)} (hnodup : ∀ x ∈ expired, x.2.Nodup) {id : Nat}
    {a : Attachment} (ha : mem id = some a) (hpos : 0 < carriers expired id)
    (hle : a.refCount ≤ carriers expired id) :
    ∃ r, .collect r ∈ purgeMessages mem expired ∧ r.id = id ∧ r.sha256 = a.sha256 := by
  induction expired generalizing mem a with
  | nil => simp [carriers] at hpos
  | cons x expired ih =>
      obtain ⟨msg, ids⟩ := x
      have hids : ids.Nodup := hnodup (msg, ids) List.mem_cons_self
      have hrest := fun y hy => hnodup y (List.mem_cons_of_mem _ hy)
      have hsnd := purgeAttachments_snd mem hids id
      by_cases hid : id ∈ ids
      · rw [if_pos hid, ha, Option.bind_some] at hsnd
        by_cases hone : a.refCount - 1 ≤ 0
        · -- the first message collects it
          refine ⟨{ a with refCount := a.refCount - 1 }, ?_, hmem id a ha, rfl⟩
          simp only [purgeMessages, List.mem_append]
          exact .inl (.inl ((mem_purgeAttachments hids).mpr (.inr ⟨id, hid, a, ha, hone, rfl⟩)))
        · -- a later one does: the count in memory is one less for them
          rw [if_neg hone] at hsnd
          simp only [carriers_cons, hid, if_true] at hpos hle
          push_cast at hle
          obtain ⟨r, hr, hrid, hsha⟩ :=
            ih (hmem.purgeAttachments hids) hrest hsnd (by omega) (by simp; omega)
          refine ⟨r, ?_, hrid, hsha⟩
          simp only [purgeMessages, List.mem_append]
          exact .inr hr
      · rw [if_neg hid] at hsnd
        simp only [carriers_cons, hid, if_false, Nat.add_zero] at hpos hle
        obtain ⟨r, hr, hrid, hsha⟩ :=
          ih (hmem.purgeAttachments hids) hrest (hsnd.trans ha) hpos hle
        refine ⟨r, ?_, hrid, hsha⟩
        simp only [purgeMessages, List.mem_append]
        exact .inr hr

end MailArchiver

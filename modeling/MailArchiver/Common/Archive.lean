import MailArchiver.ArchiverWorker.Indexer
import MailArchiver.Common.Models
import MailArchiver.Common.Storage
import MailArchiver.Lib.Table
import Mathlib.Data.List.Dedup
import Mathlib.Logic.Function.Basic

/-!
# Common — Archive

The stores the services share: the committed tables, the bucket, the
search index, the live events, and what PostgreSQL keeps beside the
tables, its sequences and its row locks.

A transaction is modelled by what it has not committed yet, kept with the
program that runs it, and by the locks it holds. READ COMMITTED: a
statement sees the tables as committed when it runs, and the writes of its
own transaction. A write to a row another transaction has written, an
insert under its unique key included, waits for the end of that
transaction: locks are by unique key.
-/

namespace MailArchiver

/-- Who runs a transaction. -/
inductive Owner where
  | worker (call : Nat)
  | retention
  deriving DecidableEq, Repr

/-- The holder of each row lock. -/
structure Locks where
  /-- By `sha256`. -/
  attachments : String → Option Owner
  /-- By `archive_hash`. -/
  dedup : String → Option Owner
  /-- By `id`. -/
  messages : Nat → Option Owner

/-- A lock a transaction can take, or has. -/
def Available (lock : Option Owner) (o : Owner) : Prop := lock = none ∨ lock = some o

instance (lock : Option Owner) (o : Owner) : Decidable (Available lock o) :=
  inferInstanceAs (Decidable (_ ∨ _))

/-- What is left of a lock when a transaction ends. -/
def releaseLock (o : Owner) (lock : Option Owner) : Option Owner :=
  if lock = some o then none else lock

namespace Locks

def none : Locks := ⟨fun _ => .none, fun _ => .none, fun _ => .none⟩

/-- A transaction ends: its locks go. -/
def release (l : Locks) (o : Owner) : Locks where
  attachments := fun k => releaseLock o (l.attachments k)
  dedup := fun k => releaseLock o (l.dedup k)
  messages := fun k => releaseLock o (l.messages k)

def takeAttachment (l : Locks) (sha256 : String) (o : Owner) : Locks :=
  { l with attachments := Function.update l.attachments sha256 (some o) }

def takeDedup (l : Locks) (archiveHash : String) (o : Owner) : Locks :=
  { l with dedup := Function.update l.dedup archiveHash (some o) }

def takeMessage (l : Locks) (id : Nat) (o : Owner) : Locks :=
  { l with messages := Function.update l.messages id (some o) }

end Locks

theorem releaseLock_of_ne {o o' : Owner} {lock : Option Owner} (h : lock = some o')
    (hne : o' ≠ o) : releaseLock o lock = some o' := by
  rw [releaseLock, h, if_neg (by simpa using hne)]

/-- A lock taken by another transaction was not held before. -/
theorem Available.ne {lock : Option Owner} {o o' : Owner} (h : Available lock o) (hne : o' ≠ o) :
    lock ≠ some o' := by
  rcases h with h | h
  · simp [h]
  · simpa [h] using hne.symm

/-- Taking a lock takes none from anybody. -/
theorem update_keeps {κ : Type} [DecidableEq κ] {f : κ → Option Owner} {k k' : κ} {o o' : Owner}
    (h : Available (f k) o) (hk : f k' = some o') :
    Function.update f k (some o) k' = some o' := by
  by_cases hkk : k' = k
  · subst hkk
    rcases h with h | h
    · rw [h] at hk
      cases hk
    · rw [Function.update_self, ← h, hk]
  · rw [Function.update_of_ne hkk, hk]

/-- Locks that make a transaction wait for none. -/
structure Locks.FreeFor (l : Locks) (o : Owner) : Prop where
  attachments : ∀ k, Available (l.attachments k) o
  dedup : ∀ k, Available (l.dedup k) o
  messages : ∀ k, Available (l.messages k) o

namespace Locks.FreeFor

theorem none (o : Owner) : Locks.none.FreeFor o := ⟨fun _ => .inl rfl, fun _ => .inl rfl,
  fun _ => .inl rfl⟩

theorem update {κ : Type} [DecidableEq κ] {f : κ → Option Owner} {o : Owner}
    (h : ∀ k, Available (f k) o) (k k' : κ) : Available (Function.update f k (some o) k') o := by
  by_cases hk : k' = k
  · subst hk
    exact .inr (Function.update_self ..)
  · rw [Function.update_of_ne hk]
    exact h k'

theorem takeAttachment {l : Locks} {o : Owner} (h : l.FreeFor o) (sha256 : String) :
    (l.takeAttachment sha256 o).FreeFor o := ⟨update h.attachments sha256, h.dedup, h.messages⟩

theorem takeDedup {l : Locks} {o : Owner} (h : l.FreeFor o) (archiveHash : String) :
    (l.takeDedup archiveHash o).FreeFor o := ⟨h.attachments, update h.dedup archiveHash, h.messages⟩

theorem takeMessage {l : Locks} {o : Owner} (h : l.FreeFor o) (id : Nat) :
    (l.takeMessage id o).FreeFor o := ⟨h.attachments, h.dedup, update h.messages id⟩

theorem releaseLock_eq {lock : Option Owner} {o : Owner} (h : Available lock o) :
    releaseLock o lock = .none := by
  rcases h with h | h
  · rw [releaseLock, h]
    rfl
  · rw [releaseLock, if_pos h]

/-- The transaction that ends was alone. -/
theorem release {l : Locks} {o : Owner} (h : l.FreeFor o) : l.release o = Locks.none := by
  have hattachments : (fun k => releaseLock o (l.attachments k)) = fun _ => .none :=
    funext fun k => releaseLock_eq (h.attachments k)
  have hdedup : (fun k => releaseLock o (l.dedup k)) = fun _ => .none :=
    funext fun k => releaseLock_eq (h.dedup k)
  have hmessages : (fun k => releaseLock o (l.messages k)) = fun _ => .none :=
    funext fun k => releaseLock_eq (h.messages k)
  rw [Locks.release, hattachments, hdedup, hmessages]
  rfl

end Locks.FreeFor

/-- The shared stores. -/
structure Stores where
  db : Db
  blobs : BlobStore
  index : SearchIndex
  live : List LiveEvent
  /-- The next value of the identity column of `messages`. -/
  messageSeq : Nat
  /-- The next value of the sequence of `attachments.id`. -/
  attachmentSeq : Nat
  locks : Locks

def Stores.init : Stores where
  db := .empty
  blobs := .empty
  index := .empty
  live := []
  messageSeq := 1
  attachmentSeq := 1
  locks := .none

/-- A transaction ends, or is rolled back. -/
def Stores.release (s : Stores) (o : Owner) : Stores := { s with locks := s.locks.release o }

/-! ## Statements on the tables -/

namespace Db

/-- `SELECT * FROM message_dedup WHERE archive_hash = …`. -/
def findDedup (db : Db) (archiveHash : String) : Option MessageDedup :=
  db.messageDedup.find? fun d => d.archiveHash = archiveHash

/-- The row of `attachments` under a hash. -/
def findAttachment (db : Db) (sha256 : String) : Option Attachment :=
  db.attachments.find? fun a => a.sha256 = sha256

/-- The number of links to an attachment. -/
def linksTo (db : Db) (id : Nat) : Nat :=
  db.messageAttachments.countP fun l => l.attachmentId = id

/-- Every reference count is the number of links. -/
def Counted (db : Db) : Prop := ∀ a ∈ db.attachments, a.refCount = db.linksTo a.id

end Db

/-- `INSERT … ON CONFLICT (sha256) DO UPDATE SET ref_count = ref_count + 1`. -/
def upsertRow (table : List Attachment) (row : Attachment) : List Attachment :=
  if table.any fun a => a.sha256 = row.sha256 then
    table.map fun a =>
      if a.sha256 = row.sha256 then { a with refCount := a.refCount + 1 } else a
  else table ++ [row]

/-- The tables after the transaction of an archived mail: its attachment
upserts, its message with the links, its dedup row. The relationship gets
one association row for each attachment row, however often the row stands
in the list that is assigned to it. -/
def Db.archive (db : Db) (m : Message) (rows : List Attachment) : Db where
  messages := db.messages ++ [m]
  messageDedup := db.messageDedup ++ [m.dedup]
  attachments := rows.foldl upsertRow db.attachments
  messageAttachments := db.messageAttachments ++ (rows.map (·.id)).dedup.map fun id => ⟨m.id, id⟩

@[simp] theorem archive_messages (db : Db) (m : Message) (rows : List Attachment) :
    (db.archive m rows).messages = db.messages ++ [m] := rfl

@[simp] theorem archive_messageDedup (db : Db) (m : Message) (rows : List Attachment) :
    (db.archive m rows).messageDedup = db.messageDedup ++ [m.dedup] := rfl

@[simp] theorem archive_messageAttachments (db : Db) (m : Message) (rows : List Attachment) :
    (db.archive m rows).messageAttachments
      = db.messageAttachments ++ (rows.map (·.id)).dedup.map fun id => ⟨m.id, id⟩ := rfl

/-- The links an archived mail gets. -/
theorem mem_archive_messageAttachments {db : Db} {m : Message} {rows : List Attachment}
    {l : MessageAttachment} : l ∈ (db.archive m rows).messageAttachments ↔
      l ∈ db.messageAttachments ∨ ∃ r ∈ rows, l = ⟨m.id, r.id⟩ := by
  rw [archive_messageAttachments, List.mem_append, List.mem_map]
  refine or_congr_right ⟨?_, ?_⟩
  · rintro ⟨id, hid, rfl⟩
    obtain ⟨r, hr, rfl⟩ := List.mem_map.mp (List.mem_dedup.mp hid)
    exact ⟨r, hr, rfl⟩
  · rintro ⟨r, hr, rfl⟩
    exact ⟨r.id, List.mem_dedup.mpr (List.mem_map_of_mem hr), rfl⟩

/-- An archived mail brings one link to each of its attachments. -/
theorem linksTo_archive (db : Db) (m : Message) (rows : List Attachment) (id : Nat) :
    (db.archive m rows).linksTo id =
      db.linksTo id + if id ∈ rows.map (·.id) then 1 else 0 := by
  have hone : ((rows.map (·.id)).dedup.map fun i => (⟨m.id, i⟩ : MessageAttachment)).countP
      (fun l => l.attachmentId = id) = (rows.map (·.id)).dedup.count id := by
    rw [List.countP_map, List.count]
    rfl
  rw [Db.linksTo, archive_messageAttachments, List.countP_append, hone, Db.linksTo]
  split
  · rename_i hmem
    rw [List.count_eq_one_of_mem (List.nodup_dedup _) (List.mem_dedup.mpr hmem)]
  · rename_i hmem
    rw [List.count_eq_zero.mpr fun h => hmem (List.mem_dedup.mp h)]

/-- A row as the upserts of `rows` leave it. -/
def Attachment.referred (rows : List Attachment) (a : Attachment) : Attachment :=
  { a with refCount := a.refCount + rows.countP fun r => r.sha256 = a.sha256 }

@[simp] theorem referred_id (rows : List Attachment) (a : Attachment) :
    (a.referred rows).id = a.id := rfl

@[simp] theorem referred_sha256 (rows : List Attachment) (a : Attachment) :
    (a.referred rows).sha256 = a.sha256 := rfl

theorem referred_refCount (rows : List Attachment) (a : Attachment) :
    (a.referred rows).refCount = a.refCount + rows.countP fun r => r.sha256 = a.sha256 := rfl

theorem referred_cons (row : Attachment) (rows : List Attachment) (a : Attachment) :
    a.referred (row :: rows) = (a.referred [row]).referred rows := by
  simp only [Attachment.referred, List.countP_cons, List.countP_nil, Attachment.mk.injEq,
    true_and]
  omega

/-- A row of another hash is not counted. -/
theorem referred_of_ne {rows : List Attachment} {a : Attachment}
    (h : ∀ r ∈ rows, r.sha256 ≠ a.sha256) : a.referred rows = a := by
  have hzero : rows.countP (fun r => r.sha256 = a.sha256) = 0 :=
    List.countP_eq_zero.mpr fun r hr => by simpa using h r hr
  simp [Attachment.referred, hzero]

/-- An upsert of a hash the table has counts its row. -/
theorem upsertRow_known {table : List Attachment} {row : Attachment}
    (h : ∃ b ∈ table, b.sha256 = row.sha256) :
    upsertRow table row = table.map (·.referred [row]) := by
  have hmem : (table.any fun a => a.sha256 = row.sha256) = true := by simpa using h
  rw [upsertRow, if_pos hmem]
  refine List.map_congr_left fun a _ => ?_
  by_cases ha : a.sha256 = row.sha256
  · simp [Attachment.referred, ha]
  · rw [if_neg ha]
    exact (referred_of_ne fun r hr => List.mem_singleton.mp hr ▸ Ne.symm ha).symm

/-- An upsert of a new hash appends its row. -/
theorem upsertRow_new {table : List Attachment} {row : Attachment}
    (h : ∀ b ∈ table, b.sha256 ≠ row.sha256) : upsertRow table row = table ++ [row] :=
  if_neg (by simpa using h)

/-- Upserts count the rows that are there, once for each time their hash
comes; of the other hashes, the first row is appended, and counted from
then on. -/
theorem mem_foldl_upsertRow {rows table : List Attachment} {a : Attachment} :
    a ∈ rows.foldl upsertRow table ↔
      (∃ b ∈ table, a = b.referred rows)
        ∨ ∃ front r back, rows = front ++ r :: back ∧ (∀ b ∈ table, b.sha256 ≠ r.sha256)
          ∧ (∀ b ∈ front, b.sha256 ≠ r.sha256) ∧ a = r.referred back := by
  induction rows generalizing table with
  | nil => simp [Attachment.referred]
  | cons row rows ih =>
      rw [List.foldl_cons, ih]
      by_cases hknown : ∃ b ∈ table, b.sha256 = row.sha256
      · -- the row is there: the same hashes are new after it
        have hkeys : ∀ r : Attachment, (∀ b ∈ upsertRow table row, b.sha256 ≠ r.sha256) ↔
            ∀ b ∈ table, b.sha256 ≠ r.sha256 := by
          simp [upsertRow_known hknown]
        obtain ⟨old, hold, hsame⟩ := hknown
        refine or_congr ?_ ⟨?_, ?_⟩
        · simp [upsertRow_known ⟨old, hold, hsame⟩, referred_cons row rows]
        · rintro ⟨front, r, back, rfl, hnew, hfront, rfl⟩
          refine ⟨row :: front, r, back, rfl, (hkeys r).mp hnew, ?_, rfl⟩
          refine List.forall_mem_cons.mpr ⟨?_, hfront⟩
          exact hsame ▸ (hkeys r).mp hnew old hold
        · rintro ⟨front, r, back, hrows, hnew, hfront, rfl⟩
          cases front with
          | nil =>
              obtain ⟨rfl, rfl⟩ := List.cons.inj hrows
              exact absurd hsame (hnew old hold)
          | cons first front =>
              obtain ⟨rfl, rfl⟩ := List.cons.inj hrows
              exact ⟨front, r, back, rfl, (hkeys r).mpr hnew,
                (List.forall_mem_cons.mp hfront).2, rfl⟩
      · -- a new row, which the later upserts of its hash count
        have hout : ∀ b ∈ table, b.sha256 ≠ row.sha256 := fun b hb heq => hknown ⟨b, hb, heq⟩
        have hsame : ∀ b ∈ table, b.referred (row :: rows) = b.referred rows := by
          intro b hb
          have hstays : b.referred [row] = b :=
            referred_of_ne fun r hr => List.mem_singleton.mp hr ▸ (hout b hb).symm
          rw [referred_cons, hstays]
        rw [upsertRow_new hout]
        constructor
        · rintro (⟨b, hb, rfl⟩ | ⟨front, r, back, rfl, hnew, hfront, rfl⟩)
          · rcases List.mem_append.mp hb with hb | hb
            · exact .inl ⟨b, hb, (hsame b hb).symm⟩
            · rw [List.mem_singleton.mp hb]
              exact .inr ⟨[], row, rows, rfl, hout, List.forall_mem_nil _, rfl⟩
          · obtain ⟨htable, hrow⟩ := List.forall_mem_append.mp hnew
            refine .inr ⟨row :: front, r, back, rfl, htable, ?_, rfl⟩
            exact List.forall_mem_cons.mpr ⟨hrow row (List.mem_singleton_self _), hfront⟩
        · rintro (⟨b, hb, rfl⟩ | ⟨front, r, back, hrows, hnew, hfront, rfl⟩)
          · exact .inl ⟨b, List.mem_append_left _ hb, hsame b hb⟩
          · cases front with
            | nil =>
                obtain ⟨rfl, rfl⟩ := List.cons.inj hrows
                exact .inl ⟨row, List.mem_append_right _ (List.mem_singleton_self _), rfl⟩
            | cons first front =>
                obtain ⟨rfl, rfl⟩ := List.cons.inj hrows
                obtain ⟨hfirst, hfront⟩ := List.forall_mem_cons.mp hfront
                refine .inr ⟨front, r, back, rfl, ?_, hfront, rfl⟩
                refine List.forall_mem_append.mpr ⟨hnew, fun b hb => ?_⟩
                rw [List.mem_singleton.mp hb]
                exact hfirst

/-- Upserts keep the hashes of a table distinct. -/
theorem nodup_foldl_upsertRow {rows table : List Attachment}
    (h : (table.map (·.sha256)).Nodup) : ((rows.foldl upsertRow table).map (·.sha256)).Nodup := by
  induction rows generalizing table with
  | nil => exact h
  | cons row rows ih =>
      refine ih ?_
      by_cases hknown : ∃ b ∈ table, b.sha256 = row.sha256
      · rw [upsertRow_known hknown, List.map_map]
        exact h
      · have hout : ∀ b ∈ table, b.sha256 ≠ row.sha256 := fun b hb heq => hknown ⟨b, hb, heq⟩
        rw [upsertRow_new hout]
        exact Table.nodup_append h hout

/-- An attachment row of the tables an archived mail leaves was there, or
is of the mail. -/
theorem of_mem_archive_attachments {db : Db} {m : Message} {rows : List Attachment}
    {a : Attachment} (h : a ∈ (db.archive m rows).attachments) :
    (∃ b ∈ db.attachments, a = b.referred rows)
      ∨ ∃ r ∈ rows, r.id = a.id ∧ r.sha256 = a.sha256 ∧ ∀ b ∈ db.attachments, b.sha256 ≠ a.sha256 := by
  rcases mem_foldl_upsertRow.mp h with hold | ⟨front, r, back, rfl, hnew, -, rfl⟩
  · exact .inl hold
  · exact .inr ⟨r, List.mem_append_right _ List.mem_cons_self, rfl, rfl, hnew⟩

theorem referred_mem_archive {db : Db} {m : Message} {rows : List Attachment} {b : Attachment}
    (h : b ∈ db.attachments) : b.referred rows ∈ (db.archive m rows).attachments :=
  mem_foldl_upsertRow.mpr (.inl ⟨b, h, rfl⟩)

end MailArchiver

import MailArchiver.Lib.Table
import MailArchiver.System.Transactions
import Mathlib.Data.Set.Function

/-!
# System — Soundness

What holds of the tables in every state the archive can reach, whatever
the interleaving: ids are given once, `message_dedup` mirrors `messages`,
a pending attachment row has the id its hash will keep and its lock, no
reference count is less than the number of links, and a purge knows its
batch.
-/

namespace MailArchiver

open Tables

variable {env : Env}

/-- The rows of `messages` and the ids given to them. -/
structure RowsSound (k : Tables env) : Prop where
  ids : (k.db.messages.map (·.id)).Nodup
  below : ∀ m ∈ k.db.messages, m.id < k.messageSeq
  linksBelow : ∀ l ∈ k.db.messageAttachments, l.messageId < k.messageSeq
  given : ∀ c tx id, k.txs c = some tx → tx.rowId = some id → id < k.messageSeq
  owner : ∀ c c' tx tx' id, k.txs c = some tx → k.txs c' = some tx' →
    tx.rowId = some id → tx'.rowId = some id → c = c'
  /-- A row that is not committed is nobody's yet. -/
  fresh : ∀ c tx id, k.txs c = some tx → tx.flushed = some id →
    tx.committed = none ∧ (∀ m ∈ k.db.messages, m.id ≠ id)
      ∧ ∀ l ∈ k.db.messageAttachments, l.messageId ≠ id
  /-- Every row was committed by a call, as that call's mail has it. -/
  origin : ∀ m ∈ k.db.messages, ∃ c tx, k.txs c = some tx ∧ tx.committed = some m.id
    ∧ m.SameArchive (tx.job.msgRow m.id)

/-- `message_dedup` and the uniqueness it stands for. -/
structure DedupSound (k : Tables env) : Prop where
  mirror : k.db.messageDedup = k.db.messages.map Message.dedup
  hashes : (k.db.messages.map (·.archiveHash)).Nodup
  /-- Who has inserted a dedup row holds its key, and nobody has it. -/
  reserved : ∀ c tx, k.txs c = some tx → tx.reserved = true →
    k.locks.dedup tx.job.archiveHash = some (.worker c)
      ∧ ∀ m ∈ k.db.messages, m.archiveHash ≠ tx.job.archiveHash

/-- An attachment row somebody can see: committed, or in a transaction. -/
def Tables.Known (k : Tables env) (a : Attachment) : Prop :=
  a ∈ k.db.attachments ∨ ∃ c tx, k.txs c = some tx ∧ a ∈ tx.pending

/-- The attachment rows, committed and pending, and their links. -/
structure SharedSound (k : Tables env) : Prop where
  hashes : (k.db.attachments.map (·.sha256)).Nodup
  /-- One hash, one id. -/
  keyed : ∀ a b, k.Known a → k.Known b → (a.sha256 = b.sha256 ↔ a.id = b.id)
  below : ∀ a, k.Known a → a.id < k.attachmentSeq
  locked : ∀ c tx r, k.txs c = some tx → r ∈ tx.pending →
    k.locks.attachments r.sha256 = some (.worker c)
  once : ∀ c tx r, k.txs c = some tx → r ∈ tx.pending → r.refCount = 1
  links : k.db.messageAttachments.Nodup
  foreignKey : ∀ l ∈ k.db.messageAttachments, ∃ a ∈ k.db.attachments, a.id = l.attachmentId
  counts : ∀ a ∈ k.db.attachments, k.db.linksTo a.id ≤ a.refCount

/-- What a purge has loaded is still there. -/
structure Loaded (db : Db) (expired : List (Message × List Nat)) (mem : IdentityMap)
    (rest : List Message) : Prop where
  ids : (expired.map (·.1.id) ++ rest.map (·.id)).Nodup
  row : ∀ x ∈ expired, ∃ m ∈ db.messages, m.SameArchive x.1
  attached : ∀ x ∈ expired, x.2.Nodup
    ∧ ∀ id, id ∈ x.2 ↔ ⟨x.1.id, id⟩ ∈ db.messageAttachments
  rest : ∀ x ∈ rest, ∃ m ∈ db.messages, m.SameArchive x
  keyed : mem.Keyed
  held : ∀ id a, mem id = some a → ∃ b ∈ db.attachments, b.id = id ∧ b.sha256 = a.sha256

/-- The locks of an executed statement. -/
def Statement.Locked (db : Db) (locks : Locks) : Statement → Prop
  | .decrement id =>
      ∃ a ∈ db.attachments, a.id = id ∧ locks.attachments a.sha256 = some .retention
  | .collect r =>
      ∃ a ∈ db.attachments, a.id = r.id ∧ locks.attachments a.sha256 = some .retention
  | .deleteMessage msg _ => locks.messages msg.id = some .retention
  | _ => True

/-- What a purge knows. -/
def Purge.Sound (db : Db) (locks : Locks) : Purge → Prop
  | .idle => True
  | .loading expired mem rest => Loaded db expired mem rest
  | .running done todo => ∃ expired mem, Loaded db expired mem []
      ∧ done ++ todo = purgeMessages mem expired ∧ ∀ st ∈ done, st.Locked db locks

structure Sound (k : Tables env) : Prop where
  rows : RowsSound k
  dedup : DedupSound k
  shared : SharedSound k
  purge : k.purge.Sound k.db k.locks

/-- A purge that runs has its batch and its plan. -/
theorem Sound.running {k : Tables env} (h : Sound k) {done todo : List Statement}
    (hp : k.purge = .running done todo) : ∃ expired mem, Loaded k.db expired mem []
      ∧ done ++ todo = purgeMessages mem expired ∧ ∀ st ∈ done, st.Locked k.db k.locks := by
  have hpurge := h.purge
  rw [hp] at hpurge
  exact hpurge

/-! ## The rows of `messages` -/

theorem RowsSound.rowId_of_committed {k : Tables env} (h : RowsSound k) {c : Nat} {tx : Tx env}
    {id : Nat} (htx : k.txs c = some tx) (hcommitted : tx.committed = some id) :
    tx.rowId = some id := by
  rw [Tx.rowId]
  cases hf : tx.flushed with
  | none => exact hcommitted
  | some id' =>
      have hnone := (h.fresh c tx id' htx hf).1
      rw [hcommitted] at hnone
      cases hnone

/-- The row one call is about to commit is not committed by another. -/
theorem RowsSound.not_flushed_of_committed {k : Tables env} (h : RowsSound k) {c c' : Nat}
    {tx tx' : Tx env} {id : Nat} (htx : k.txs c = some tx) (hflushed : tx.flushed = some id)
    (htx' : k.txs c' = some tx') (hcommitted : tx'.committed = some id) : False := by
  have hrow := h.rowId_of_committed htx' hcommitted
  obtain rfl : c = c' := h.owner c c' tx tx' id htx htx' (by simp [Tx.rowId, hflushed]) hrow
  obtain rfl : tx = tx' := Option.some.inj (htx.symm.trans htx')
  rw [(h.fresh c tx id htx hflushed).1] at hcommitted
  cases hcommitted

/-- A transaction that gains no id and loses none. -/
theorem RowsSound.withTx {k : Tables env} (h : RowsSound k) {c : Nat} {tx' : Tx env}
    {attachmentSeq : Nat} {locks : Locks} {purge : Purge}
    (hid : ∀ id, tx'.rowId = some id → ∃ tx, k.txs c = some tx ∧ tx.rowId = some id)
    (hflushed : ∀ id, tx'.flushed = some id →
      ∃ tx, k.txs c = some tx ∧ tx.flushed = some id ∧ tx'.committed = tx.committed)
    (hkeep : ∀ tx, k.txs c = some tx → tx'.job = tx.job ∧ tx'.committed = tx.committed) :
    RowsSound ⟨k.db, k.messageSeq, attachmentSeq, locks, k.withTx c tx', purge⟩ where
  ids := h.ids
  below := h.below
  linksBelow := h.linksBelow
  given := by
    intro c₁ tx₁ id htx₁ hid₁
    rcases withTx_cases htx₁ with ⟨rfl, rfl⟩ | ⟨-, htx₁⟩
    · obtain ⟨tx, htx, hrow⟩ := hid id hid₁
      exact h.given _ _ _ htx hrow
    · exact h.given _ _ _ htx₁ hid₁
  owner := by
    -- each of the two transactions has its id from one of `k`
    have hback : ∀ c₁ tx₁ id, k.withTx c tx' c₁ = some tx₁ → tx₁.rowId = some id →
        ∃ tx, k.txs c₁ = some tx ∧ tx.rowId = some id := by
      intro c₁ tx₁ id htx₁ hid₁
      rcases withTx_cases htx₁ with ⟨rfl, rfl⟩ | ⟨-, htx₁⟩
      · exact hid id hid₁
      · exact ⟨tx₁, htx₁, hid₁⟩
    intro c₁ c₂ tx₁ tx₂ id htx₁ htx₂ hid₁ hid₂
    obtain ⟨u₁, hu₁, hr₁⟩ := hback c₁ tx₁ id htx₁ hid₁
    obtain ⟨u₂, hu₂, hr₂⟩ := hback c₂ tx₂ id htx₂ hid₂
    exact h.owner c₁ c₂ u₁ u₂ id hu₁ hu₂ hr₁ hr₂
  fresh := by
    intro c₁ tx₁ id htx₁ hf
    rcases withTx_cases htx₁ with ⟨rfl, rfl⟩ | ⟨-, htx₁⟩
    · obtain ⟨tx, htx, hfl, hcom⟩ := hflushed id hf
      rw [hcom]
      exact h.fresh _ tx id htx hfl
    · exact h.fresh _ tx₁ id htx₁ hf
  origin := by
    intro m hm
    obtain ⟨c₁, tx₁, htx₁, hcom, hsame⟩ := h.origin m hm
    by_cases hc : c₁ = c
    · subst hc
      obtain ⟨hjob, hcommitted⟩ := hkeep tx₁ htx₁
      exact ⟨c₁, tx', withTx_same .., hcommitted.trans hcom, hjob ▸ hsame⟩
    · exact ⟨c₁, tx₁, (withTx_ne k tx' hc).trans htx₁, hcom, hsame⟩

/-- An insert takes the next id. -/
theorem RowsSound.flush {k : Tables env} (hr : RowsSound k) {c : Nat} {tx : Tx env}
    (htx : k.txs c = some tx) (hcommitted : tx.committed = none) :
    RowsSound ⟨k.db, k.messageSeq + 1, k.attachmentSeq, k.locks,
      k.withTx c { tx with flushed := some k.messageSeq }, k.purge⟩ := by
  constructor
  · exact hr.ids
  · exact fun m hm => Nat.lt_succ_of_lt (hr.below m hm)
  · exact fun l hl => Nat.lt_succ_of_lt (hr.linksBelow l hl)
  · intro c₁ tx₁ id htx₁ hid
    rcases withTx_cases htx₁ with ⟨rfl, rfl⟩ | ⟨-, htx₁⟩
    · obtain rfl : k.messageSeq = id := by simpa [Tx.rowId] using hid
      exact Nat.lt_succ_self _
    · exact Nat.lt_succ_of_lt (hr.given _ _ _ htx₁ hid)
  · -- the new id is above all that were given
    intro c₁ c₂ tx₁ tx₂ id htx₁ htx₂ hid₁ hid₂
    rcases withTx_cases htx₁ with ⟨hc₁, rfl⟩ | ⟨-, hold₁⟩
    · obtain rfl : k.messageSeq = id := by simpa [Tx.rowId] using hid₁
      rcases withTx_cases htx₂ with ⟨hc₂, rfl⟩ | ⟨-, hold₂⟩
      · exact hc₁.trans hc₂.symm
      · exact absurd (hr.given _ _ _ hold₂ hid₂) (lt_irrefl _)
    · rcases withTx_cases htx₂ with ⟨-, rfl⟩ | ⟨-, hold₂⟩
      · obtain rfl : k.messageSeq = id := by simpa [Tx.rowId] using hid₂
        exact absurd (hr.given _ _ _ hold₁ hid₁) (lt_irrefl _)
      · exact hr.owner _ _ _ _ _ hold₁ hold₂ hid₁ hid₂
  · intro c₁ tx₁ id htx₁ hf
    rcases withTx_cases htx₁ with ⟨rfl, rfl⟩ | ⟨-, htx₁⟩
    · obtain rfl : k.messageSeq = id := by simpa using hf
      exact ⟨hcommitted, fun m hm => (hr.below m hm).ne, fun l hl => (hr.linksBelow l hl).ne⟩
    · exact hr.fresh _ _ _ htx₁ hf
  · intro m hm
    obtain ⟨c₁, tx₁, htx₁, hcom, hsame⟩ := hr.origin m hm
    by_cases hc : c₁ = c
    · subst hc
      rw [htx] at htx₁
      cases htx₁
      rw [hcommitted] at hcom
      cases hcom
    · exact ⟨c₁, tx₁, (withTx_ne k _ hc).trans htx₁, hcom, hsame⟩

/-- A commit gives its row the id that was taken for it. -/
theorem RowsSound.commit {k : Tables env} (hr : RowsSound k) {c : Nat} {tx : Tx env} {id : Nat}
    (htx : k.txs c = some tx) (hflushed : tx.flushed = some id) :
    RowsSound ⟨k.db.archive (tx.job.msgRow id) tx.pending, k.messageSeq, k.attachmentSeq,
      k.locks.release (.worker c), k.withTx c (tx.ended (some id)), k.purge⟩ := by
  obtain ⟨hnone, hrows, hlinks⟩ := hr.fresh c tx id htx hflushed
  have hrowId : tx.rowId = some id := by simp [Tx.rowId, hflushed]
  have hlt := hr.given c tx id htx hrowId
  -- ids of transactions are those of `k`
  have hback : ∀ c₁ tx₁ id₁, k.withTx c (tx.ended (some id)) c₁ = some tx₁ →
      tx₁.rowId = some id₁ → ∃ u, k.txs c₁ = some u ∧ u.rowId = some id₁ := by
    intro c₁ tx₁ id₁ htx₁ hid₁
    rcases withTx_cases htx₁ with ⟨rfl, rfl⟩ | ⟨-, htx₁⟩
    · obtain rfl : id = id₁ := by simpa [Tx.rowId, Tx.ended] using hid₁
      exact ⟨tx, htx, hrowId⟩
    · exact ⟨tx₁, htx₁, hid₁⟩
  constructor
  · exact Table.nodup_append hr.ids hrows
  · intro m hm
    rcases List.mem_append.mp hm with hm | hm
    · exact hr.below m hm
    · rw [List.mem_singleton.mp hm]
      exact hlt
  · intro l hl
    rcases List.mem_append.mp hl with hl | hl
    · exact hr.linksBelow l hl
    · obtain ⟨r, -, rfl⟩ := List.mem_map.mp hl
      exact hlt
  · intro c₁ tx₁ id₁ htx₁ hid₁
    obtain ⟨u, hu, hrow⟩ := hback c₁ tx₁ id₁ htx₁ hid₁
    exact hr.given _ _ _ hu hrow
  · intro c₁ c₂ tx₁ tx₂ id₁ htx₁ htx₂ hid₁ hid₂
    obtain ⟨u₁, hu₁, hr₁⟩ := hback c₁ tx₁ id₁ htx₁ hid₁
    obtain ⟨u₂, hu₂, hr₂⟩ := hback c₂ tx₂ id₁ htx₂ hid₂
    exact hr.owner _ _ _ _ _ hu₁ hu₂ hr₁ hr₂
  · intro c₁ tx₁ id₁ htx₁ hf
    rcases withTx_cases htx₁ with ⟨rfl, rfl⟩ | ⟨hne, htx₁⟩
    · cases hf
    · obtain ⟨hnone₁, hrows₁, hlinks₁⟩ := hr.fresh c₁ tx₁ id₁ htx₁ hf
      have hid₁ : id ≠ id₁ := by
        rintro rfl
        exact hne (hr.owner _ _ _ _ _ htx₁ htx (by simp [Tx.rowId, hf]) hrowId)
      refine ⟨hnone₁, ?_, ?_⟩
      · intro m hm
        rcases List.mem_append.mp hm with hm | hm
        · exact hrows₁ m hm
        · rw [List.mem_singleton.mp hm]
          exact hid₁
      · intro l hl
        rcases List.mem_append.mp hl with hl | hl
        · exact hlinks₁ l hl
        · obtain ⟨r, -, rfl⟩ := List.mem_map.mp hl
          exact hid₁
  · intro m hm
    rcases List.mem_append.mp hm with hm | hm
    · obtain ⟨c₁, tx₁, htx₁, hcom, hsame⟩ := hr.origin m hm
      by_cases hc : c₁ = c
      · subst hc
        rw [htx] at htx₁
        cases htx₁
        rw [hnone] at hcom
        cases hcom
      · exact ⟨c₁, tx₁, (withTx_ne k _ hc).trans htx₁, hcom, hsame⟩
    · rw [List.mem_singleton.mp hm]
      exact ⟨c, _, withTx_same .., rfl, .refl _⟩

theorem RowsSound.purged {k : Tables env} (hr : RowsSound k) (done : List Statement) :
    RowsSound
      { k with
        db := done.foldl Statement.onDb k.db
        locks := k.locks.release .retention
        purge := .idle } := by
  have hmsgs : ∀ m ∈ (done.foldl Statement.onDb k.db).messages, m ∈ k.db.messages := by
    rw [Statement.foldl_onDb_messages]
    exact fun m hm => List.mem_of_mem_filter hm
  have hlinks : ∀ l ∈ (done.foldl Statement.onDb k.db).messageAttachments,
      l ∈ k.db.messageAttachments := by
    rw [Statement.foldl_onDb_messageAttachments]
    exact fun l hl => List.mem_of_mem_filter hl
  constructor
  · show (List.map _ (done.foldl Statement.onDb k.db).messages).Nodup
    rw [Statement.foldl_onDb_messages]
    exact Table.nodup_filter hr.ids _
  · exact fun m hm => hr.below m (hmsgs m hm)
  · exact fun l hl => hr.linksBelow l (hlinks l hl)
  · exact hr.given
  · exact hr.owner
  · intro c tx id htx hf
    obtain ⟨hnone, hrows, hl⟩ := hr.fresh c tx id htx hf
    exact ⟨hnone, fun m hm => hrows m (hmsgs m hm), fun l hl' => hl l (hlinks l hl')⟩
  · exact fun m hm => hr.origin m (hmsgs m hm)

theorem RowsSound.hold {k : Tables env} (hr : RowsSound k) (row : Message) (on : Bool) :
    RowsSound { k with db := k.db.setHold row on } := by
  have hids : (k.db.setHold row on).messages.map (·.id) = k.db.messages.map (·.id) :=
    setHold_map _ (fun _ _ hsame => hsame.id) ..
  constructor
  · exact hids ▸ hr.ids
  · intro m hm
    obtain ⟨m₀, hm₀, hsame⟩ := exists_of_mem_setHold hm
    exact hsame.id ▸ hr.below m₀ hm₀
  · exact hr.linksBelow
  · exact hr.given
  · exact hr.owner
  · intro c tx id htx hf
    obtain ⟨hnone, hrows, hlinks⟩ := hr.fresh c tx id htx hf
    refine ⟨hnone, fun m hm => ?_, hlinks⟩
    obtain ⟨m₀, hm₀, hsame⟩ := exists_of_mem_setHold hm
    exact hsame.id ▸ hrows m₀ hm₀
  · intro m hm
    obtain ⟨m₀, hm₀, hsame⟩ := exists_of_mem_setHold hm
    obtain ⟨c, tx, htx, hcom, horig⟩ := hr.origin m₀ hm₀
    exact ⟨c, tx, htx, hsame.id ▸ hcom, hsame.trans (hsame.id ▸ horig)⟩

theorem RowsSound.step {k k' : Tables env} (h : Sound k) (hs : Step k k') : RowsSound k' := by
  have hr := h.rows
  cases hs with
  | stutter => exact hr
  | start hfree =>
      refine hr.withTx ?_ ?_ ?_
      · intro id hid
        cases hid
      · intro id hid
        cases hid
      · intro tx htx
        rw [hfree] at htx
        cases htx
  | upsert htx hlock hid hcount =>
      refine hr.withTx (fun id hid => ⟨_, htx, hid⟩) (fun id hid => ⟨_, htx, hid, rfl⟩) ?_
      intro tx htx'
      obtain rfl := Option.some.inj (htx.symm.trans htx')
      exact ⟨rfl, rfl⟩
  | reserve htx hlock hdup =>
      refine hr.withTx (fun id hid => ⟨_, htx, hid⟩) (fun id hid => ⟨_, htx, hid, rfl⟩) ?_
      intro tx htx'
      obtain rfl := Option.some.inj (htx.symm.trans htx')
      exact ⟨rfl, rfl⟩
  | @rollback c tx htx =>
      refine hr.withTx ?_ ?_ ?_
      · -- an id that was committed was not flushed any more
        intro id hid
        have hid : tx.committed = some id := hid
        refine ⟨tx, htx, ?_⟩
        cases hf : tx.flushed with
        | none => simpa [Tx.rowId, hf] using hid
        | some id' =>
            have hnone := (hr.fresh c tx id' htx hf).1
            rw [hid] at hnone
            cases hnone
      · intro id hid
        cases hid
      · intro tx₁ htx₁
        obtain rfl := Option.some.inj (htx.symm.trans htx₁)
        exact ⟨rfl, rfl⟩
  | flush htx hcommitted => exact hr.flush htx hcommitted
  | commit htx hflushed => exact hr.commit htx hflushed
  | select | load | begin | execute | crash =>
      exact ⟨hr.ids, hr.below, hr.linksBelow, hr.given, hr.owner, hr.fresh, hr.origin⟩
  | purged => exact hr.purged _
  | hold => exact hr.hold _ _

/-! ## What a batch removes -/

/-- The message ids of a loaded batch. -/
def batchIds (expired : List (Message × List Nat)) : List Nat := expired.map (·.1.id)

theorem mem_batchIds {expired : List (Message × List Nat)} {id : Nat} :
    id ∈ batchIds expired ↔ ∃ x ∈ expired, x.1.id = id := List.mem_map

section Batch

variable {db : Db} {expired : List (Message × List Nat)} {mem : IdentityMap}

theorem Loaded.nodup (h : Loaded db expired mem []) : ∀ x ∈ expired, x.2.Nodup :=
  fun x hx => (h.attached x hx).1

theorem Loaded.mem_message (h : Loaded db expired mem []) {st : Statement}
    (hst : st.onMessage = true) :
    st ∈ purgeMessages mem expired ↔ ∃ x ∈ expired, st = .deleteBody x.1
      ∨ st = .deleteDedup x.1.archiveHash ∨ st = .deleteMessage x.1 x.2 :=
  mem_purgeMessages_message h.nodup hst

/-- A row in the batch's place is the row the batch has. -/
theorem Loaded.row_eq (h : Loaded db expired mem []) (hids : (db.messages.map (·.id)).Nodup)
    {m : Message} (hm : m ∈ db.messages) {x : Message × List Nat} (hx : x ∈ expired)
    (hid : x.1.id = m.id) : m.SameArchive x.1 := by
  obtain ⟨m', hm', hsame⟩ := h.row x hx
  obtain rfl : m' = m := List.inj_on_of_nodup_map hids hm' hm (hsame.id.trans hid)
  exact hsame

/-- The rows of `messages` a batch removes are those it loaded. -/
theorem Loaded.removesMessage_iff (h : Loaded db expired mem [])
    (hids : (db.messages.map (·.id)).Nodup) {m : Message} (hm : m ∈ db.messages) :
    (∃ st ∈ purgeMessages mem expired, st.removesMessage m = true) ↔ m.id ∈ batchIds expired := by
  rw [mem_batchIds]
  constructor
  · rintro ⟨st, hst, hrem⟩
    cases st with
    | deleteMessage msg ids =>
        obtain ⟨x, hx, h' | h' | h'⟩ := (h.mem_message rfl).mp hst
        · cases h'
        · cases h'
        · cases h'
          exact ⟨x, hx, (of_decide_eq_true hrem).1.symm⟩
    | decrement | collect | deleteBody | deleteDedup => cases hrem
  · rintro ⟨x, hx, hid⟩
    have hsame := h.row_eq hids hm hx hid
    exact ⟨.deleteMessage x.1 x.2, (h.mem_message rfl).mpr ⟨x, hx, .inr (.inr rfl)⟩,
      decide_eq_true ⟨hsame.id, hsame.signedAt⟩⟩

/-- Their dedup rows go with them, and no other. -/
theorem Loaded.removesDedup_iff (h : Loaded db expired mem [])
    (hids : (db.messages.map (·.id)).Nodup) (hhashes : (db.messages.map (·.archiveHash)).Nodup)
    {m : Message} (hm : m ∈ db.messages) :
    (∃ st ∈ purgeMessages mem expired, st.removesDedup m.dedup = true)
      ↔ m.id ∈ batchIds expired := by
  rw [mem_batchIds]
  constructor
  · rintro ⟨st, hst, hrem⟩
    cases st with
    | deleteDedup hash =>
        obtain ⟨x, hx, h' | h' | h'⟩ := (h.mem_message rfl).mp hst
        · cases h'
        · cases h'
          have hhash : m.archiveHash = x.1.archiveHash := of_decide_eq_true hrem
          obtain ⟨m', hm', hsame⟩ := h.row x hx
          obtain rfl : m' = m :=
            List.inj_on_of_nodup_map hhashes hm' hm (hsame.archiveHash.trans hhash.symm)
          exact ⟨x, hx, hsame.id.symm⟩
        · cases h'
    | decrement | collect | deleteBody | deleteMessage => cases hrem
  · rintro ⟨x, hx, hid⟩
    have hsame := h.row_eq hids hm hx hid
    exact ⟨.deleteDedup x.1.archiveHash, (h.mem_message rfl).mpr ⟨x, hx, .inr (.inl rfl)⟩,
      decide_eq_true hsame.archiveHash⟩

/-- The links a batch removes: those of its messages, and those of the
attachments it collects. -/
theorem Loaded.removesLink_iff (h : Loaded db expired mem []) {l : MessageAttachment}
    (hl : l ∈ db.messageAttachments) :
    (∃ st ∈ purgeMessages mem expired, st.removesLink l = true) ↔
      (∃ r, .collect r ∈ purgeMessages mem expired ∧ r.id = l.attachmentId)
        ∨ l.messageId ∈ batchIds expired := by
  rw [mem_batchIds]
  constructor
  · rintro ⟨st, hst, hrem⟩
    cases st with
    | collect r => exact .inl ⟨r, hst, (of_decide_eq_true hrem).symm⟩
    | deleteMessage msg ids =>
        obtain ⟨x, hx, h' | h' | h'⟩ := (h.mem_message rfl).mp hst
        · cases h'
        · cases h'
        · cases h'
          exact .inr ⟨x, hx, (of_decide_eq_true hrem).1.symm⟩
    | decrement | deleteBody | deleteDedup => cases hrem
  · rintro (⟨r, hr, hid⟩ | ⟨x, hx, hid⟩)
    · exact ⟨.collect r, hr, decide_eq_true hid.symm⟩
    · have hmem : l.attachmentId ∈ x.2 := by
        rw [(h.attached x hx).2, hid]
        exact hl
      exact ⟨.deleteMessage x.1 x.2, (h.mem_message rfl).mpr ⟨x, hx, .inr (.inr rfl)⟩,
        decide_eq_true ⟨hid.symm, hmem⟩⟩

theorem removesAttachment_iff {sts : List Statement} {id : Nat} :
    (∃ st ∈ sts, st.removesAttachment id = true) ↔ ∃ r, .collect r ∈ sts ∧ r.id = id := by
  constructor
  · rintro ⟨st, hst, hrem⟩
    cases st with
    | collect r => exact ⟨r, hst, (of_decide_eq_true hrem).symm⟩
    | decrement | deleteBody | deleteDedup | deleteMessage => cases hrem
  · rintro ⟨r, hr, hid⟩
    exact ⟨.collect r, hr, decide_eq_true hid.symm⟩

/-- A batch counts an attachment down once for each of its links. -/
theorem Loaded.count_decrement (h : Loaded db expired mem [])
    (hlinks : db.messageAttachments.Nodup) (id : Nat) :
    (purgeMessages mem expired).count (.decrement id) = db.messageAttachments.countP fun l =>
      l.attachmentId = id ∧ l.messageId ∈ batchIds expired := by
  have hids : (batchIds expired).Nodup := by simpa [batchIds] using h.ids
  have hinj : ∀ l l' : MessageAttachment, l.messageId = l'.messageId →
      l.attachmentId = l'.attachmentId → l = l' := by
    rintro ⟨_, _⟩ ⟨_, _⟩ rfl rfl
    rfl
  rw [count_decrement_purgeMessages _ h.nodup, Table.countP_links hinj hlinks hids, batchIds,
    List.countP_map, carriers]
  refine List.countP_congr fun x hx => ?_
  simp only [decide_eq_true_eq, Function.comp_apply, (h.attached x hx).2]
  constructor
  · exact fun hl => ⟨_, hl, rfl, rfl⟩
  · rintro ⟨⟨_, _⟩, hl, rfl, rfl⟩
    exact hl

/-- What a statement on an attachment is about is a row of the table. -/
theorem Loaded.decremented_row (h : Loaded db expired mem [])
    (hfk : ∀ l ∈ db.messageAttachments, ∃ a ∈ db.attachments, a.id = l.attachmentId) {id : Nat}
    (hid : .decrement id ∈ purgeMessages mem expired) : ∃ a ∈ db.attachments, a.id = id := by
  have hpos := List.count_pos_iff.mpr hid
  rw [count_decrement_purgeMessages _ h.nodup, carriers, List.countP_pos_iff] at hpos
  obtain ⟨x, hx, hmem⟩ := hpos
  exact hfk _ (((h.attached x hx).2 id).mp (of_decide_eq_true hmem))

theorem Loaded.collected_row (h : Loaded db expired mem []) {r : Attachment}
    (hr : .collect r ∈ purgeMessages mem expired) :
    ∃ a ∈ db.attachments, a.id = r.id ∧ a.sha256 = r.sha256 := by
  obtain ⟨a, ha, hsha, -, -⟩ := of_collect_mem h.keyed h.nodup hr
  obtain ⟨b, hb, hid, hbsha⟩ := h.held _ _ ha
  exact ⟨b, hb, hid, hbsha.trans hsha.symm⟩

/-- What a purge has loaded stays, as long as nobody removes rows. -/
theorem Loaded.mono {rest : List Message} {db' : Db} (h : Loaded db expired mem rest)
    (hmessages : ∀ m ∈ db.messages, ∃ m' ∈ db'.messages, m'.SameArchive m)
    (hlinks : ∀ m ∈ db.messages, ∀ id,
      (⟨m.id, id⟩ : MessageAttachment) ∈ db.messageAttachments ↔
        ⟨m.id, id⟩ ∈ db'.messageAttachments)
    (hattachments : ∀ a ∈ db.attachments, ∃ a' ∈ db'.attachments,
      a'.id = a.id ∧ a'.sha256 = a.sha256) : Loaded db' expired mem rest where
  ids := h.ids
  row := by
    intro x hx
    obtain ⟨m, hm, hsame⟩ := h.row x hx
    obtain ⟨m', hm', hsame'⟩ := hmessages m hm
    exact ⟨m', hm', hsame'.trans hsame⟩
  attached := by
    intro x hx
    obtain ⟨hnodup, hmem⟩ := h.attached x hx
    obtain ⟨m, hm, hsame⟩ := h.row x hx
    refine ⟨hnodup, fun id => (hmem id).trans ?_⟩
    rw [← hsame.id]
    exact hlinks m hm id
  rest := by
    intro x hx
    obtain ⟨m, hm, hsame⟩ := h.rest x hx
    obtain ⟨m', hm', hsame'⟩ := hmessages m hm
    exact ⟨m', hm', hsame'.trans hsame⟩
  keyed := h.keyed
  held := by
    intro id a ha
    obtain ⟨b, hb, hid, hsha⟩ := h.held id a ha
    obtain ⟨b', hb', hid', hsha'⟩ := hattachments b hb
    exact ⟨b', hb', hid'.trans hid, hsha'.trans hsha⟩

theorem Statement.Locked.mono {db' : Db} {locks locks' : Locks} {st : Statement}
    (h : st.Locked db locks)
    (hattachments : ∀ a ∈ db.attachments, ∃ a' ∈ db'.attachments,
      a'.id = a.id ∧ a'.sha256 = a.sha256)
    (hlocks : ∀ sha, locks.attachments sha = some .retention →
      locks'.attachments sha = some .retention)
    (hmessages : ∀ id, locks.messages id = some .retention →
      locks'.messages id = some .retention) : st.Locked db' locks' := by
  cases st with
  | decrement id | collect r =>
      obtain ⟨a, ha, hid, hlock⟩ := h
      obtain ⟨a', ha', hid', hsha⟩ := hattachments a ha
      exact ⟨a', ha', hid'.trans hid, hsha ▸ hlocks _ hlock⟩
  | deleteMessage msg ids => exact hmessages _ h
  | deleteBody | deleteDedup => trivial

/-- A purge does not notice what others add to the tables. -/
theorem Purge.Sound.mono {db' : Db} {locks locks' : Locks} {p : Purge} (h : p.Sound db locks)
    (hmessages : ∀ m ∈ db.messages, ∃ m' ∈ db'.messages, m'.SameArchive m)
    (hlinks : ∀ m ∈ db.messages, ∀ id,
      (⟨m.id, id⟩ : MessageAttachment) ∈ db.messageAttachments ↔
        ⟨m.id, id⟩ ∈ db'.messageAttachments)
    (hattachments : ∀ a ∈ db.attachments, ∃ a' ∈ db'.attachments,
      a'.id = a.id ∧ a'.sha256 = a.sha256)
    (hattLocks : ∀ sha, locks.attachments sha = some .retention →
      locks'.attachments sha = some .retention)
    (hmsgLocks : ∀ id, locks.messages id = some .retention →
      locks'.messages id = some .retention) : p.Sound db' locks' := by
  cases p with
  | idle => trivial
  | loading expired mem rest => exact Loaded.mono h hmessages hlinks hattachments
  | running done todo =>
      obtain ⟨expired, mem, hloaded, hplan, hlocked⟩ := h
      exact ⟨expired, mem, hloaded.mono hmessages hlinks hattachments, hplan,
        fun st hst => (hlocked st hst).mono hattachments hattLocks hmsgLocks⟩

end Batch

/-! ## The dedup rows -/

/-- A transaction that reserves nothing new. -/
theorem DedupSound.withTx {k : Tables env} (h : DedupSound k) {c : Nat} {tx' : Tx env}
    {messageSeq attachmentSeq : Nat} {locks : Locks} {purge : Purge}
    (hreserved : tx'.reserved = true →
      ∃ tx, k.txs c = some tx ∧ tx.reserved = true ∧ tx'.job = tx.job)
    (hlocks : ∀ c' hash, (c' = c → tx'.reserved = true) →
      k.locks.dedup hash = some (.worker c') → locks.dedup hash = some (.worker c')) :
    DedupSound ⟨k.db, messageSeq, attachmentSeq, locks, k.withTx c tx', purge⟩ where
  mirror := h.mirror
  hashes := h.hashes
  reserved := by
    intro c₁ tx₁ htx₁ hres
    rcases withTx_cases htx₁ with ⟨rfl, rfl⟩ | ⟨hne, htx₁⟩
    · obtain ⟨tx, htx, hold, hjob⟩ := hreserved hres
      obtain ⟨hlock, hnew⟩ := h.reserved _ tx htx hold
      rw [hjob]
      exact ⟨hlocks _ _ (fun _ => hres) hlock, hnew⟩
    · obtain ⟨hlock, hnew⟩ := h.reserved _ tx₁ htx₁ hres
      exact ⟨hlocks _ _ (fun heq => absurd heq hne) hlock, hnew⟩

theorem findDedup_eq_none {k : Tables env} (h : DedupSound k) {hash : String} :
    k.db.findDedup hash = none ↔ ∀ m ∈ k.db.messages, m.archiveHash ≠ hash := by
  rw [Db.findDedup, List.find?_eq_none, h.mirror]
  simp [Message.dedup]

/-- A commit has reserved its hash. -/
theorem DedupSound.commit {k : Tables env} (hd : DedupSound k) {c : Nat} {tx : Tx env} {id : Nat}
    (htx : k.txs c = some tx) (hreserved : tx.reserved = true) :
    DedupSound ⟨k.db.archive (tx.job.msgRow id) tx.pending, k.messageSeq, k.attachmentSeq,
      k.locks.release (.worker c), k.withTx c (tx.ended (some id)), k.purge⟩ := by
  obtain ⟨hlock, hnew⟩ := hd.reserved c tx htx hreserved
  constructor
  · simp [hd.mirror]
  · exact Table.nodup_append hd.hashes hnew
  · intro c₁ tx₁ htx₁ hres
    rcases withTx_cases htx₁ with ⟨rfl, rfl⟩ | ⟨hne, htx₁⟩
    · cases hres
    · obtain ⟨hlock₁, hnew₁⟩ := hd.reserved c₁ tx₁ htx₁ hres
      refine ⟨releaseLock_of_ne hlock₁ (by simpa using hne), fun m hm => ?_⟩
      rcases List.mem_append.mp hm with hm | hm
      · exact hnew₁ m hm
      · -- one hash, one lock, one transaction
        rw [List.mem_singleton.mp hm]
        intro heq
        rw [← heq, Job.msgRow_archiveHash, hlock] at hlock₁
        exact hne (by simpa using hlock₁.symm)

theorem DedupSound.purged {k : Tables env} (h : Sound k) {done : List Statement}
    (hp : k.purge = .running done []) :
    DedupSound
      { k with
        db := done.foldl Statement.onDb k.db
        locks := k.locks.release .retention
        purge := .idle } := by
  have hd := h.dedup
  obtain ⟨expired, mem, hloaded, hplan, -⟩ := h.running hp
  rw [List.append_nil] at hplan
  subst hplan
  -- the batch removes a message and its dedup row together
  have hsame : ∀ m ∈ k.db.messages,
      (purgeMessages mem expired).any (·.removesDedup m.dedup)
        = (purgeMessages mem expired).any (·.removesMessage m) := by
    intro m hm
    rw [Bool.eq_iff_iff, List.any_eq_true, List.any_eq_true,
      hloaded.removesDedup_iff h.rows.ids hd.hashes hm,
      hloaded.removesMessage_iff h.rows.ids hm]
  constructor
  · show (List.foldl _ k.db _).messageDedup = (List.foldl _ k.db _).messages.map _
    rw [Statement.foldl_onDb_messageDedup, Statement.foldl_onDb_messages, hd.mirror,
      List.filter_map]
    congr 1
    refine List.filter_congr fun m hm => ?_
    simp only [Function.comp_apply, hsame m hm]
  · show ((List.foldl _ k.db _).messages.map _).Nodup
    rw [Statement.foldl_onDb_messages]
    exact Table.nodup_filter hd.hashes _
  · intro c tx htx hres
    obtain ⟨hl, hnew⟩ := hd.reserved c tx htx hres
    refine ⟨releaseLock_of_ne hl nofun, fun m hm => hnew m ?_⟩
    rw [Statement.foldl_onDb_messages] at hm
    exact List.mem_of_mem_filter hm

theorem DedupSound.step {k k' : Tables env} (h : Sound k) (hs : Step k k') : DedupSound k' := by
  have hd := h.dedup
  cases hs with
  | stutter => exact hd
  | start hfree => exact hd.withTx nofun fun _ _ _ hl => hl
  | upsert htx hlock hid hcount =>
      exact hd.withTx (fun hres => ⟨_, htx, hres, rfl⟩) fun _ _ _ hl => hl
  | flush htx hcommitted =>
      exact hd.withTx (fun hres => ⟨_, htx, hres, rfl⟩) fun _ _ _ hl => hl
  | rollback htx =>
      refine hd.withTx nofun fun c' hash hc hl => releaseLock_of_ne hl ?_
      intro heq
      cases heq
      exact absurd (hc rfl) (by simp [Tx.ended])
  | @reserve c tx htx hlock hdup =>
      constructor
      · exact hd.mirror
      · exact hd.hashes
      · intro c₁ tx₁ htx₁ hres
        rcases withTx_cases htx₁ with ⟨rfl, rfl⟩ | ⟨hne, htx₁⟩
        · exact ⟨Function.update_self .., (findDedup_eq_none hd).mp hdup⟩
        · obtain ⟨hl, hnew⟩ := hd.reserved _ tx₁ htx₁ hres
          exact ⟨update_keeps hlock hl, hnew⟩
  | commit htx hflushed hreserved => exact hd.commit htx hreserved
  | select | load | begin => exact ⟨hd.mirror, hd.hashes, hd.reserved⟩
  | execute hp hlocks =>
      refine ⟨hd.mirror, hd.hashes, fun c tx htx hres => ?_⟩
      obtain ⟨hl, hnew⟩ := hd.reserved c tx htx hres
      exact ⟨(Statement.takeLock_keeps hlocks).2.1 _ _ hl, hnew⟩
  | crash =>
      refine ⟨hd.mirror, hd.hashes, fun c tx htx hres => ?_⟩
      obtain ⟨hl, hnew⟩ := hd.reserved c tx htx hres
      exact ⟨releaseLock_of_ne hl nofun, hnew⟩
  | purged hp => exact .purged h hp
  | @hold row on =>
      constructor
      · rw [setHold_map _ (fun _ _ hsame => hsame.dedup)]
        exact hd.mirror
      · rw [setHold_map _ (fun _ _ hsame => hsame.archiveHash)]
        exact hd.hashes
      · intro c tx htx hres
        obtain ⟨hl, hnew⟩ := hd.reserved c tx htx hres
        refine ⟨hl, fun m hm => ?_⟩
        obtain ⟨m₀, hm₀, hsame⟩ := exists_of_mem_setHold hm
        exact hsame.archiveHash ▸ hnew m₀ hm₀

/-! ## The attachments -/

/-- A transaction that upserts nothing new. -/
theorem SharedSound.withTx {k : Tables env} (h : SharedSound k) {c : Nat} {tx' : Tx env}
    {messageSeq : Nat} {locks : Locks} {purge : Purge}
    (hpending : ∀ r ∈ tx'.pending, ∃ tx, k.txs c = some tx ∧ r ∈ tx.pending)
    (hlocks : ∀ c' sha, (c' = c → tx'.pending ≠ []) →
      k.locks.attachments sha = some (.worker c') → locks.attachments sha = some (.worker c')) :
    SharedSound ⟨k.db, messageSeq, k.attachmentSeq, locks, k.withTx c tx', purge⟩ := by
  have hback : ∀ c₁ tx₁ r, k.withTx c tx' c₁ = some tx₁ → r ∈ tx₁.pending →
      ∃ tx, k.txs c₁ = some tx ∧ r ∈ tx.pending := by
    intro c₁ tx₁ r htx₁ hr
    rcases withTx_cases htx₁ with ⟨rfl, rfl⟩ | ⟨-, htx₁⟩
    · exact hpending r hr
    · exact ⟨tx₁, htx₁, hr⟩
  have hknown : ∀ a, Known ⟨k.db, messageSeq, k.attachmentSeq, locks, k.withTx c tx', purge⟩ a →
      k.Known a := by
    rintro a (ha | ⟨c₁, tx₁, htx₁, ha⟩)
    · exact .inl ha
    · obtain ⟨tx, htx, ha⟩ := hback c₁ tx₁ a htx₁ ha
      exact .inr ⟨c₁, tx, htx, ha⟩
  constructor
  · exact h.hashes
  · exact fun a b ha hb => h.keyed a b (hknown a ha) (hknown b hb)
  · exact fun a ha => h.below a (hknown a ha)
  · intro c₁ tx₁ r htx₁ hr
    obtain ⟨tx, htx, hr'⟩ := hback c₁ tx₁ r htx₁ hr
    refine hlocks c₁ _ (fun hc => ?_) (h.locked c₁ tx r htx hr')
    subst hc
    obtain rfl : tx' = tx₁ := Option.some.inj ((withTx_same k c₁ tx').symm.trans htx₁)
    exact List.ne_nil_of_mem hr
  · intro c₁ tx₁ r htx₁ hr
    obtain ⟨tx, htx, hr'⟩ := hback c₁ tx₁ r htx₁ hr
    exact h.once c₁ tx r htx hr'
  · exact h.links
  · exact h.foreignKey
  · exact h.counts

/-- The id an upsert returns is that of a known row with the hash, or a
new one for a new hash. -/
theorem SharedSound.rowId_cases {k : Tables env} (h : SharedSound k) {c : Nat} {tx : Tx env}
    {sha : String} (htx : k.txs c = some tx)
    (hlock : Available (k.locks.attachments sha) (.worker c)) :
    (∃ b, k.Known b ∧ b.sha256 = sha ∧ b.id = k.rowId tx sha)
      ∨ (k.rowId tx sha = k.attachmentSeq ∧ ∀ b, k.Known b → b.sha256 ≠ sha) := by
  rw [Tables.rowId]
  cases hown : tx.pending.find? fun r => r.sha256 = sha with
  | some b =>
      exact .inl ⟨b, .inr ⟨c, tx, htx, List.mem_of_find?_eq_some hown⟩,
        by simpa using List.find?_some hown, rfl⟩
  | none =>
      cases hdb : k.db.findAttachment sha with
      | some b =>
          exact .inl ⟨b, .inl (List.mem_of_find?_eq_some hdb),
            by simpa using List.find?_some hdb, rfl⟩
      | none =>
          refine .inr ⟨rfl, ?_⟩
          rintro b (hb | ⟨c', tx', htx', hb⟩) heq
          · exact absurd (List.find?_eq_none.mp hdb b hb) (by simpa using heq)
          · -- pending elsewhere, the hash would be locked
            by_cases hc : c' = c
            · subst hc
              rw [htx] at htx'
              cases htx'
              exact absurd (List.find?_eq_none.mp hown b hb) (by simpa using heq)
            · have hl := h.locked c' tx' b htx' hb
              rw [heq] at hl
              exact hlock.ne (by simpa using hc) hl

/-- An upsert finds the id of its hash, or makes a new one. -/
theorem SharedSound.upsert {k : Tables env} (h : SharedSound k) {c : Nat} {tx : Tx env}
    {row : Attachment} (htx : k.txs c = some tx)
    (hlock : Available (k.locks.attachments row.sha256) (.worker c))
    (hid : row.id = k.rowId tx row.sha256) (hcount : row.refCount = 1) :
    SharedSound ⟨k.db, k.messageSeq, k.attachmentSeq + 1,
      k.locks.takeAttachment row.sha256 (.worker c),
      k.withTx c { tx with pending := tx.pending ++ [row] }, k.purge⟩ := by
  have hrow := h.rowId_cases htx hlock
  rw [← hid] at hrow
  -- one row is known that was not
  have hcase : ∀ a, Known ⟨k.db, k.messageSeq, k.attachmentSeq + 1,
      k.locks.takeAttachment row.sha256 (.worker c),
      k.withTx c { tx with pending := tx.pending ++ [row] }, k.purge⟩ a → k.Known a ∨ a = row := by
    rintro a (ha | ⟨c₁, tx₁, htx₁, ha⟩)
    · exact .inl (.inl ha)
    · rcases withTx_cases htx₁ with ⟨rfl, rfl⟩ | ⟨-, htx₁⟩
      · rcases List.mem_append.mp ha with ha | ha
        · exact .inl (.inr ⟨_, tx, htx, ha⟩)
        · exact .inr (List.mem_singleton.mp ha)
      · exact .inl (.inr ⟨c₁, tx₁, htx₁, ha⟩)
  -- it has the id of its hash, or the next of the sequence
  have hkey : ∀ a, k.Known a → (a.sha256 = row.sha256 ↔ a.id = row.id) := by
    intro a ha
    rcases hrow with ⟨b, hb, hsha, hbid⟩ | ⟨hseq, hnew⟩
    · rw [← hsha, ← hbid]
      exact h.keyed a b ha hb
    · exact ⟨fun heq => absurd heq (hnew a ha),
        fun heq => absurd (h.below a ha) (by rw [heq, hseq]; exact lt_irrefl _)⟩
  constructor
  · exact h.hashes
  · intro a b ha hb
    rcases hcase a ha with hka | hka
    · rcases hcase b hb with hkb | hkb
      · exact h.keyed a b hka hkb
      · exact hkb ▸ hkey a hka
    · rcases hcase b hb with hkb | hkb
      · rw [hka, eq_comm, hkey b hkb, eq_comm]
      · rw [hka, hkb]
        exact iff_of_true rfl rfl
  · intro a ha
    rcases hcase a ha with ha | rfl
    · exact Nat.lt_succ_of_lt (h.below a ha)
    · rcases hrow with ⟨b, hb, -, hbid⟩ | ⟨hseq, -⟩
      · exact hbid ▸ Nat.lt_succ_of_lt (h.below b hb)
      · exact hseq ▸ Nat.lt_succ_self _
  · intro c₁ tx₁ r htx₁ hr
    rcases withTx_cases htx₁ with ⟨rfl, rfl⟩ | ⟨-, htx₁⟩
    · rcases List.mem_append.mp hr with hr | hr
      · exact update_keeps hlock (h.locked _ tx r htx hr)
      · rw [List.mem_singleton.mp hr]
        exact Function.update_self ..
    · exact update_keeps hlock (h.locked c₁ tx₁ r htx₁ hr)
  · intro c₁ tx₁ r htx₁ hr
    rcases withTx_cases htx₁ with ⟨rfl, rfl⟩ | ⟨-, htx₁⟩
    · rcases List.mem_append.mp hr with hr | hr
      · exact h.once _ tx r htx hr
      · rw [List.mem_singleton.mp hr]
        exact hcount
    · exact h.once c₁ tx₁ r htx₁ hr
  · exact h.links
  · exact h.foreignKey
  · exact h.counts

/-- The rows of the tables after a commit, by their keys. -/
theorem SharedSound.archive_row {k : Tables env} {c : Nat} {tx : Tx env} {m : Message}
    (htx : k.txs c = some tx) {a : Attachment}
    (ha : a ∈ (k.db.archive m tx.pending).attachments) :
    ∃ b, k.Known b ∧ b.sha256 = a.sha256 ∧ b.id = a.id := by
  rcases of_mem_archive_attachments ha with ⟨b, hb, rfl⟩ | ⟨r, hr, hid, hsha, -⟩
  · exact ⟨b, .inl hb, rfl, rfl⟩
  · exact ⟨r, .inr ⟨c, tx, htx, hr⟩, hsha, hid⟩

/-- Each pending row is in the tables after the commit, under its id. -/
theorem SharedSound.pending_row {k : Tables env} (h : SharedSound k) {c : Nat} {tx : Tx env}
    {m : Message} (htx : k.txs c = some tx) {r : Attachment} (hr : r ∈ tx.pending) :
    ∃ a ∈ (k.db.archive m tx.pending).attachments, a.id = r.id ∧ a.sha256 = r.sha256 := by
  have hknown : k.Known r := .inr ⟨c, tx, htx, hr⟩
  by_cases hold : ∃ b ∈ k.db.attachments, b.sha256 = r.sha256
  · obtain ⟨b, hb, hsha⟩ := hold
    exact ⟨b.referred tx.pending, referred_mem_archive hb, (h.keyed b r (.inl hb) hknown).mp hsha, hsha⟩
  · -- the first row of its hash is appended
    have hsome : (tx.pending.find? fun b => b.sha256 = r.sha256).isSome := by
      rw [List.find?_isSome]
      exact ⟨r, hr, decide_eq_true rfl⟩
    obtain ⟨first, hfirst⟩ := Option.isSome_iff_exists.mp hsome
    obtain ⟨hsha, front, back, hrows, hfront⟩ := List.find?_eq_some_iff_append.mp hfirst
    have hsha : first.sha256 = r.sha256 := of_decide_eq_true hsha
    have hmem : first ∈ tx.pending := List.mem_of_find?_eq_some hfirst
    refine ⟨first.referred back, mem_foldl_upsertRow.mpr (.inr ⟨front, first, back, hrows, ?_, ?_, rfl⟩),
      (h.keyed first r (.inr ⟨c, tx, htx, hmem⟩) hknown).mp hsha, hsha⟩
    · exact fun b hb heq => hold ⟨b, hb, heq.trans hsha⟩
    · intro b hb heq
      have hne := hfront b hb
      rw [decide_eq_true (heq.trans hsha)] at hne
      cases hne

/-- The count of a row after a commit: what it was, if it was there, and
one for each time its hash comes. A row that was not there had no link. -/
theorem SharedSound.archive_refCount {k : Tables env} (h : SharedSound k) {c : Nat} {tx : Tx env}
    {m : Message} (htx : k.txs c = some tx) {a : Attachment}
    (ha : a ∈ (k.db.archive m tx.pending).attachments) :
    (∃ b ∈ k.db.attachments, b.id = a.id
        ∧ a.refCount = b.refCount + (tx.pending.map (·.sha256)).count a.sha256)
      ∨ k.db.linksTo a.id = 0 ∧ 0 < (tx.pending.map (·.sha256)).count a.sha256
        ∧ a.refCount = (tx.pending.map (·.sha256)).count a.sha256 := by
  have hcount : ∀ (rows : List Attachment) (sha : String),
      (rows.map (·.sha256)).count sha = rows.countP fun r => r.sha256 = sha := by
    intro rows sha
    rw [List.count, List.countP_map]
    rfl
  rw [hcount]
  rcases mem_foldl_upsertRow.mp ha with ⟨b, hb, rfl⟩ | ⟨front, r, back, hrows, hnew, hfront, rfl⟩
  · exact .inl ⟨b, hb, rfl, rfl⟩
  · have hr : r ∈ tx.pending := hrows ▸ List.mem_append_right _ List.mem_cons_self
    have hknown : k.Known r := .inr ⟨c, tx, htx, hr⟩
    have hzero : front.countP (fun b => b.sha256 = r.sha256) = 0 :=
      List.countP_eq_zero.mpr fun b hb heq => hfront b hb (of_decide_eq_true heq)
    have hall : tx.pending.countP (fun b => b.sha256 = r.sha256)
        = back.countP (fun b => b.sha256 = r.sha256) + 1 := by
      rw [hrows, List.countP_append, hzero, List.countP_cons, if_pos (decide_eq_true rfl), Nat.zero_add]
    refine .inr ⟨?_, ?_, ?_⟩
    · refine List.countP_eq_zero.mpr fun l hl hla => ?_
      obtain ⟨b, hb, hbid⟩ := h.foreignKey l hl
      exact hnew b hb ((h.keyed b r (.inl hb) hknown).mpr (hbid.trans (of_decide_eq_true hla)))
    · rw [referred_sha256, hall]
      exact Nat.succ_pos _
    · rw [referred_refCount, referred_sha256, hall, h.once c tx r htx hr]
      omega

/-- The links to a row after a commit: one more if the mail has its hash,
however often. -/
theorem SharedSound.archive_linksTo {k : Tables env} (h : SharedSound k) {c : Nat} {tx : Tx env}
    {m : Message} (htx : k.txs c = some tx) {a : Attachment}
    (ha : a ∈ (k.db.archive m tx.pending).attachments) :
    (k.db.archive m tx.pending).linksTo a.id =
      k.db.linksTo a.id + if 0 < (tx.pending.map (·.sha256)).count a.sha256 then 1 else 0 := by
  obtain ⟨b, hb, hsha, hid⟩ := archive_row htx ha
  have hmem : a.id ∈ tx.pending.map (·.id) ↔ 0 < (tx.pending.map (·.sha256)).count a.sha256 := by
    rw [List.count_pos_iff, List.mem_map, List.mem_map, ← hsha, ← hid]
    refine exists_congr fun r => and_congr_right fun hr => ?_
    exact (h.keyed r b (.inr ⟨c, tx, htx, hr⟩) hb).symm
  rw [linksTo_archive]
  simp only [hmem]

/-- A commit leaves no count less than the links. -/
theorem SharedSound.archive_counts {k : Tables env} (h : SharedSound k) {c : Nat} {tx : Tx env}
    {m : Message} (htx : k.txs c = some tx) {a : Attachment}
    (ha : a ∈ (k.db.archive m tx.pending).attachments) :
    (k.db.archive m tx.pending).linksTo a.id ≤ a.refCount := by
  rw [h.archive_linksTo htx ha]
  rcases h.archive_refCount htx ha with ⟨b, hb, hid, hcount⟩ | ⟨hzero, hpos, hcount⟩
  · have hle := h.counts b hb
    rw [hid] at hle
    rw [hcount]
    split <;> push_cast <;> omega
  · rw [hcount, hzero, if_pos hpos]
    omega

/-- The counts are exact after the commit of a mail exactly when it has no
attachment twice. -/
theorem SharedSound.archive_counted_iff {k : Tables env} (h : SharedSound k) {c : Nat} {tx : Tx env}
    {m : Message} (htx : k.txs c = some tx) (hcounted : k.db.Counted) :
    (k.db.archive m tx.pending).Counted ↔ (tx.pending.map (·.sha256)).Nodup := by
  rw [List.nodup_iff_count_le_one]
  constructor
  · intro hafter sha
    by_cases hmem : sha ∈ tx.pending.map (·.sha256)
    · obtain ⟨r, hr, rfl⟩ := List.mem_map.mp hmem
      obtain ⟨a, ha, hid, hsha⟩ := h.pending_row (m := m) htx hr
      have hexact := hafter a ha
      rw [h.archive_linksTo htx ha] at hexact
      rw [← hsha] at hmem ⊢
      rw [if_pos (List.count_pos_iff.mpr hmem)] at hexact
      rcases h.archive_refCount htx ha with ⟨b, hb, hbid, hcount⟩ | ⟨hzero, -, hcount⟩
      · have hbefore := hcounted b hb
        rw [hbid] at hbefore
        omega
      · omega
    · exact (List.count_eq_zero.mpr hmem).le.trans (Nat.zero_le 1)
  · intro honce a ha
    have hle := honce a.sha256
    rw [h.archive_linksTo htx ha]
    rcases h.archive_refCount htx ha with ⟨b, hb, hbid, hcount⟩ | ⟨hzero, hpos, hcount⟩
    · have hbefore := hcounted b hb
      rw [hbid] at hbefore
      rw [hcount]
      split <;> push_cast <;> omega
    · rw [hcount, hzero, if_pos hpos]
      omega

theorem SharedSound.commit {k : Tables env} (h : Sound k) {c : Nat} {tx : Tx env} {id : Nat}
    (htx : k.txs c = some tx) (hflushed : tx.flushed = some id) :
    SharedSound ⟨k.db.archive (tx.job.msgRow id) tx.pending, k.messageSeq, k.attachmentSeq,
      k.locks.release (.worker c), k.withTx c (tx.ended (some id)), k.purge⟩ := by
  have hsh := h.shared
  -- the transaction that ended has nothing pending
  have hother : ∀ c₁ tx₁ r, k.withTx c (tx.ended (some id)) c₁ = some tx₁ → r ∈ tx₁.pending →
      c₁ ≠ c ∧ k.txs c₁ = some tx₁ := by
    intro c₁ tx₁ r htx₁ hr
    rcases withTx_cases htx₁ with ⟨rfl, rfl⟩ | hold
    · cases hr
    · exact hold
  -- a row known after was known before, under the same hash and id
  have hknown : ∀ a, Known ⟨k.db.archive (tx.job.msgRow id) tx.pending, k.messageSeq,
      k.attachmentSeq, k.locks.release (.worker c), k.withTx c (tx.ended (some id)), k.purge⟩ a →
      ∃ b, k.Known b ∧ b.sha256 = a.sha256 ∧ b.id = a.id := by
    rintro a (ha | ⟨c₁, tx₁, htx₁, ha⟩)
    · exact archive_row htx ha
    · exact ⟨a, .inr ⟨c₁, tx₁, (hother c₁ tx₁ a htx₁ ha).2, ha⟩, rfl, rfl⟩
  constructor
  · exact nodup_foldl_upsertRow hsh.hashes
  · intro a b ha hb
    obtain ⟨a', ha', hsha, hid⟩ := hknown a ha
    obtain ⟨b', hb', hsha', hid'⟩ := hknown b hb
    rw [← hsha, ← hsha', ← hid, ← hid']
    exact hsh.keyed a' b' ha' hb'
  · intro a ha
    obtain ⟨b, hb, -, hid⟩ := hknown a ha
    exact hid ▸ hsh.below b hb
  · intro c₁ tx₁ r htx₁ hr
    obtain ⟨hne, hold⟩ := hother c₁ tx₁ r htx₁ hr
    exact releaseLock_of_ne (hsh.locked c₁ tx₁ r hold hr) (by simpa using hne)
  · intro c₁ tx₁ r htx₁ hr
    exact hsh.once c₁ tx₁ r (hother c₁ tx₁ r htx₁ hr).2 hr
  · -- the links of a new message are new
    rw [archive_messageAttachments, List.nodup_append]
    refine ⟨hsh.links, ?_, ?_⟩
    · refine List.Nodup.map (fun i j heq => ?_) (List.nodup_dedup _)
      exact congrArg MessageAttachment.attachmentId heq
    · intro l hl l' hl' heq
      obtain ⟨i, -, rfl⟩ := List.mem_map.mp hl'
      exact (h.rows.fresh c tx id htx hflushed).2.2 l hl (congrArg MessageAttachment.messageId heq)
  · intro l hl
    rcases mem_archive_messageAttachments.mp hl with hl | ⟨r, hr, rfl⟩
    · obtain ⟨a, ha, hid⟩ := hsh.foreignKey l hl
      exact ⟨a.referred tx.pending, referred_mem_archive ha, hid⟩
    · obtain ⟨a, ha, hid, -⟩ := hsh.pending_row htx hr
      exact ⟨a, ha, hid⟩
  · exact fun a ha => hsh.archive_counts htx ha

/-- The rows of `attachments` some statements leave. -/
theorem mem_foldl_onDb_attachments {db : Db} {done : List Statement} {a' : Attachment} :
    a' ∈ (done.foldl Statement.onDb db).attachments ↔
      ∃ a ∈ db.attachments, (¬∃ r, .collect r ∈ done ∧ r.id = a.id)
        ∧ Statement.counted done a = a' := by
  have hkept : ∀ a : Attachment, (!done.any (·.removesAttachment a.id)) = true
      ↔ ¬∃ r, .collect r ∈ done ∧ r.id = a.id := by
    intro a
    rw [← removesAttachment_iff, Bool.not_eq_true', ← Bool.not_eq_true, List.any_eq_true]
  simp only [Statement.foldl_onDb_attachments, List.mem_map, List.mem_filter, hkept, and_assoc]

/-- The links a purge removes. -/
theorem Loaded.removed_iff {db : Db} {expired : List (Message × List Nat)} {mem : IdentityMap}
    (h : Loaded db expired mem []) {l : MessageAttachment} (hl : l ∈ db.messageAttachments) :
    (purgeMessages mem expired).any (·.removesLink l) = true ↔
      (∃ r, .collect r ∈ purgeMessages mem expired ∧ r.id = l.attachmentId)
        ∨ l.messageId ∈ batchIds expired := by
  rw [List.any_eq_true, h.removesLink_iff hl]

/-- The counts after a purge: one decrement for each link of the batch, so
what a count exceeds the links by stays. -/
theorem SharedSound.purged_counts {k : Tables env} (h : SharedSound k)
    {expired : List (Message × List Nat)} {mem : IdentityMap}
    (hloaded : Loaded k.db expired mem []) {a' : Attachment}
    (ha' : a' ∈ ((purgeMessages mem expired).foldl Statement.onDb k.db).attachments) :
    ∃ a ∈ k.db.attachments, a'.refCount + k.db.linksTo a.id =
      a.refCount + ((purgeMessages mem expired).foldl Statement.onDb k.db).linksTo a'.id := by
  obtain ⟨a, ha, hnot, rfl⟩ := mem_foldl_onDb_attachments.mp ha'
  refine ⟨a, ha, ?_⟩
  rw [Db.linksTo, Db.linksTo, Statement.foldl_onDb_messageAttachments, List.countP_filter,
    Statement.counted_id]
  have hcount := hloaded.count_decrement h.links a.id
  -- the links of the attachment are those of the batch and those that stay
  have hsplit : k.db.messageAttachments.countP (fun l => l.attachmentId = a.id) =
      k.db.messageAttachments.countP
          (fun l => l.attachmentId = a.id ∧ l.messageId ∈ batchIds expired)
        + k.db.messageAttachments.countP (fun l => decide (l.attachmentId = a.id) &&
            !(purgeMessages mem expired).any (·.removesLink l)) := by
    rw [← Table.countP_or_of_disjoint]
    · refine List.countP_congr fun l hl => ?_
      have hrem := hloaded.removed_iff hl
      by_cases hla : l.attachmentId = a.id
      · rw [hla] at hrem
        by_cases hin : l.messageId ∈ batchIds expired
        · simp [hla, hin]
        · have hkept : (purgeMessages mem expired).any (·.removesLink l) = false := by
            rw [← Bool.not_eq_true, hrem, not_or]
            exact ⟨hnot, hin⟩
          simp [hla, hin, hkept]
      · simp [hla]
    · intro l hl hin
      obtain ⟨hla, hin⟩ := of_decide_eq_true hin
      simp [(hloaded.removed_iff hl).mpr (.inr hin)]
  simp only [Statement.counted, hcount]
  omega

theorem SharedSound.purged {k : Tables env} (h : Sound k) {done : List Statement}
    (hp : k.purge = .running done []) :
    SharedSound
      { k with
        db := done.foldl Statement.onDb k.db
        locks := k.locks.release .retention
        purge := .idle } := by
  have hsh := h.shared
  obtain ⟨expired, mem, hloaded, hplan, -⟩ := h.running hp
  rw [List.append_nil] at hplan
  subst hplan
  have hknown : ∀ a, Known
      { k with
        db := (purgeMessages mem expired).foldl Statement.onDb k.db
        locks := k.locks.release .retention
        purge := .idle } a → ∃ b, k.Known b ∧ b.sha256 = a.sha256 ∧ b.id = a.id := by
    rintro a (ha | ⟨c, tx, htx, ha⟩)
    · obtain ⟨b, hb, -, rfl⟩ := mem_foldl_onDb_attachments.mp ha
      exact ⟨b, .inl hb, rfl, rfl⟩
    · exact ⟨a, .inr ⟨c, tx, htx, ha⟩, rfl, rfl⟩
  constructor
  · show ((List.foldl _ k.db _).attachments.map _).Nodup
    rw [Statement.foldl_onDb_attachments, List.map_map]
    exact Table.nodup_filter hsh.hashes _
  · intro a b ha hb
    obtain ⟨a', ha', hsha, hid⟩ := hknown a ha
    obtain ⟨b', hb', hsha', hid'⟩ := hknown b hb
    rw [← hsha, ← hsha', ← hid, ← hid']
    exact hsh.keyed a' b' ha' hb'
  · intro a ha
    obtain ⟨b, hb, -, hid⟩ := hknown a ha
    exact hid ▸ hsh.below b hb
  · exact fun c tx r htx hr => releaseLock_of_ne (hsh.locked c tx r htx hr) nofun
  · exact hsh.once
  · show (List.foldl _ k.db _).messageAttachments.Nodup
    rw [Statement.foldl_onDb_messageAttachments]
    exact hsh.links.filter _
  · -- a link that stays is to an attachment that was not collected
    intro l hl
    rw [Statement.foldl_onDb_messageAttachments] at hl
    obtain ⟨hl, hkept⟩ := List.mem_filter.mp hl
    rw [Bool.not_eq_true', ← Bool.not_eq_true, hloaded.removed_iff hl, not_or] at hkept
    obtain ⟨a, ha, hid⟩ := hsh.foreignKey l hl
    refine ⟨_, mem_foldl_onDb_attachments.mpr ⟨a, ha, ?_, rfl⟩, hid⟩
    rw [hid]
    exact hkept.1
  · intro a' ha'
    obtain ⟨a, ha, hexcess⟩ := hsh.purged_counts hloaded ha'
    have hle := hsh.counts a ha
    have hafter : (((purgeMessages mem expired).foldl Statement.onDb k.db).linksTo a'.id : Int)
        ≤ a'.refCount := by omega
    exact hafter

theorem SharedSound.step {k k' : Tables env} (h : Sound k) (hs : Step k k') : SharedSound k' := by
  have hsh := h.shared
  cases hs with
  | stutter => exact hsh
  | start hfree => exact hsh.withTx nofun fun _ _ _ hl => hl
  | upsert htx hlock hid hcount => exact hsh.upsert htx hlock hid hcount
  | flush htx hcommitted =>
      exact hsh.withTx (fun r hr => ⟨_, htx, hr⟩) fun _ _ _ hl => hl
  | reserve htx hlock hdup =>
      exact hsh.withTx (fun r hr => ⟨_, htx, hr⟩) fun _ _ _ hl => hl
  | commit htx hflushed hreserved => exact .commit h htx hflushed
  | rollback htx =>
      refine hsh.withTx nofun fun c' sha hc hl => releaseLock_of_ne hl ?_
      intro heq
      cases heq
      exact hc rfl rfl
  | select | load | begin =>
      exact ⟨hsh.hashes, hsh.keyed, hsh.below, hsh.locked, hsh.once, hsh.links, hsh.foreignKey,
        hsh.counts⟩
  | execute hp hlocks =>
      refine ⟨hsh.hashes, hsh.keyed, hsh.below, fun c tx r htx hr => ?_, hsh.once, hsh.links,
        hsh.foreignKey, hsh.counts⟩
      exact (Statement.takeLock_keeps hlocks).1 _ _ (hsh.locked c tx r htx hr)
  | purged hp => exact .purged h hp
  | crash =>
      refine ⟨hsh.hashes, hsh.keyed, hsh.below, fun c tx r htx hr => ?_, hsh.once, hsh.links,
        hsh.foreignKey, hsh.counts⟩
      exact releaseLock_of_ne (hsh.locked c tx r htx hr) nofun
  | hold =>
      exact ⟨hsh.hashes, hsh.keyed, hsh.below, hsh.locked, hsh.once, hsh.links, hsh.foreignKey,
        hsh.counts⟩

/-! ## Exact counts -/

/-- No call has committed a mail with one attachment twice. -/
def Tables.Distinct (k : Tables env) : Prop :=
  ∀ c tx, k.txs c = some tx → tx.committed ≠ none → tx.job.attHashes.Nodup

theorem Tables.Distinct.of_withTx {k : Tables env} {c : Nat} {tx tx' : Tx env} {db : Db}
    {messageSeq attachmentSeq : Nat} {locks : Locks} {purge : Purge}
    (h : Distinct ⟨db, messageSeq, attachmentSeq, locks, k.withTx c tx', purge⟩)
    (htx : k.txs c = some tx) (hjob : tx'.job = tx.job)
    (hcom : tx.committed ≠ none → tx'.committed ≠ none) : k.Distinct := by
  intro c₁ tx₁ htx₁ hcom₁
  by_cases hc : c₁ = c
  · subst hc
    obtain rfl : tx = tx₁ := Option.some.inj (htx.symm.trans htx₁)
    exact hjob ▸ h c₁ tx' (withTx_same ..) (hcom hcom₁)
  · exact h c₁ tx₁ ((withTx_ne k tx' hc).trans htx₁) hcom₁

/-- What is archived stays archived. -/
theorem Tables.Distinct.of_step {k k' : Tables env} (h : k'.Distinct) (hs : Step k k') :
    k.Distinct := by
  cases hs with
  | stutter | select | load | begin | execute | purged | crash | hold => exact h
  | @start c job hfree =>
      intro c₁ tx₁ htx₁
      have hne : c₁ ≠ c := by
        rintro rfl
        rw [hfree] at htx₁
        cases htx₁
      exact h c₁ tx₁ ((withTx_ne k _ hne).trans htx₁)
  | upsert htx | flush htx | reserve htx | rollback htx => exact h.of_withTx htx rfl fun hne => hne
  | commit htx => exact h.of_withTx htx rfl fun _ => nofun

/-- A purge keeps exact counts exact. -/
theorem Sound.counted_purged {k : Tables env} (h : Sound k) {done : List Statement}
    (hp : k.purge = .running done []) (hcounted : k.db.Counted) :
    (done.foldl Statement.onDb k.db).Counted := by
  obtain ⟨expired, mem, hloaded, hplan, -⟩ := h.running hp
  rw [List.append_nil] at hplan
  subst hplan
  intro a' ha'
  obtain ⟨a, ha, hexcess⟩ := h.shared.purged_counts hloaded ha'
  have hbefore := hcounted a ha
  omega

theorem Loaded.select {k : Tables env} (h : RowsSound k) {cutoff : DateTime}
    {batch : List Message} (hbatch : IsBatch k.db cutoff batch) :
    Loaded k.db [] (fun _ => none) batch := by
  obtain ⟨hnodup, hmem, -⟩ := hbatch
  constructor
  · refine List.Nodup.map_on (fun m hm m' hm' heq => ?_) hnodup
    exact List.inj_on_of_nodup_map h.ids (hmem m hm).1 (hmem m' hm').1 heq
  · exact fun x hx => absurd hx List.not_mem_nil
  · exact fun x hx => absurd hx List.not_mem_nil
  · exact fun m hm => ⟨m, (hmem m hm).1, .refl m⟩
  · exact IdentityMap.keyed_empty
  · intro i a ha
    cases ha

/-- The session loads one more message. -/
theorem Loaded.load {db : Db} {expired : List (Message × List Nat)} {mem : IdentityMap}
    {msg : Message} {rest : List Message} (h : Loaded db expired mem (msg :: rest))
    (hlinks : db.messageAttachments.Nodup)
    (hfk : ∀ l ∈ db.messageAttachments, ∃ a ∈ db.attachments, a.id = l.attachmentId) :
    Loaded db (expired ++ [(msg, db.attachedTo msg)]) (MailArchiver.load db msg mem) rest := by
  have hattached : ∀ i, i ∈ db.attachedTo msg ↔
      (⟨msg.id, i⟩ : MessageAttachment) ∈ db.messageAttachments := by
    intro i
    simp only [Db.attachedTo, List.mem_filter, List.mem_map, List.any_eq_true, decide_eq_true_eq]
    constructor
    · rintro ⟨⟨⟨_, _⟩, ⟨hl, rfl⟩, rfl⟩, -⟩
      exact hl
    · exact fun hl => ⟨⟨_, ⟨hl, rfl⟩, rfl⟩, hfk _ hl⟩
  constructor
  · have := h.ids
    simpa using this
  · intro x hx
    rcases List.mem_append.mp hx with hx | hx
    · exact h.row x hx
    · rw [List.mem_singleton.mp hx]
      exact h.rest msg List.mem_cons_self
  · intro x hx
    rcases List.mem_append.mp hx with hx | hx
    · exact h.attached x hx
    · rw [List.mem_singleton.mp hx]
      exact ⟨nodup_attachedTo hlinks msg, hattached⟩
  · exact fun m hm => h.rest m (List.mem_cons_of_mem _ hm)
  · exact load_keyed h.keyed msg
  · intro i a ha
    rw [MailArchiver.load] at ha
    cases hmem : mem i with
    | some b =>
        rw [hmem] at ha
        cases ha
        exact h.held i a hmem
    | none =>
        simp only [hmem] at ha
        split at ha
        · exact ⟨a, List.mem_of_find?_eq_some ha, by simpa using List.find?_some ha, rfl⟩
        · cases ha

/-- A write to an attachment row that is there takes its lock. -/
theorem lockAttachment_locked {db : Db} {locks locks' : Locks} {i : Nat}
    (h : Statement.lockAttachment db locks i = some locks')
    (hrow : ∃ a ∈ db.attachments, a.id = i) :
    ∃ a ∈ db.attachments, a.id = i ∧ locks'.attachments a.sha256 = some .retention := by
  obtain ⟨b, hb, hbi⟩ := hrow
  unfold Statement.lockAttachment at h
  split at h
  · rename_i hnone
    exact absurd (List.find?_eq_none.mp hnone b hb) (by simpa using hbi)
  · rename_i a ha
    split at h <;> cases h
    exact ⟨a, List.mem_of_find?_eq_some ha, by simpa using List.find?_some ha,
      Function.update_self ..⟩

/-- So an executed statement has its locks. -/
theorem Loaded.locked {db : Db} {expired : List (Message × List Nat)} {mem : IdentityMap}
    (h : Loaded db expired mem [])
    (hfk : ∀ l ∈ db.messageAttachments, ∃ a ∈ db.attachments, a.id = l.attachmentId)
    {st : Statement} (hst : st ∈ purgeMessages mem expired) {locks locks' : Locks}
    (hlocks : st.takeLock db locks = some locks') : st.Locked db locks' := by
  cases st with
  | decrement i => exact lockAttachment_locked hlocks (h.decremented_row hfk hst)
  | collect r =>
      obtain ⟨a, ha, hid, -⟩ := h.collected_row hst
      exact lockAttachment_locked hlocks ⟨a, ha, hid⟩
  | deleteMessage msg ids =>
      simp only [Statement.takeLock] at hlocks
      split at hlocks <;> cases hlocks
      exact Function.update_self ..
  | deleteBody | deleteDedup => trivial

theorem Sound.purge_step {k k' : Tables env} (h : Sound k) (hs : Step k k') :
    k'.purge.Sound k'.db k'.locks := by
  have hp := h.purge
  have hsh := h.shared
  have hrelease : ∀ (c : Nat) (lock : Option Owner), lock = some .retention →
      releaseLock (.worker c) lock = some .retention :=
    fun c lock hl => releaseLock_of_ne hl nofun
  cases hs with
  | stutter | start | flush | reserve => exact hp
  | upsert htx hlock hid hcount =>
      exact hp.mono (fun m hm => ⟨m, hm, .refl m⟩) (fun _ _ _ => Iff.rfl)
        (fun a ha => ⟨a, ha, rfl, rfl⟩) (fun _ hl => update_keeps hlock hl) fun _ hl => hl
  | rollback htx =>
      exact hp.mono (fun m hm => ⟨m, hm, .refl m⟩) (fun _ _ _ => Iff.rfl)
        (fun a ha => ⟨a, ha, rfl, rfl⟩) (fun _ => hrelease _ _) fun _ => hrelease _ _
  | @commit c tx id htx hflushed hreserved =>
      obtain ⟨-, hrows, -⟩ := h.rows.fresh c tx id htx hflushed
      refine hp.mono (fun m hm => ⟨m, List.mem_append_left _ hm, .refl m⟩) ?_ ?_
        (fun _ => hrelease _ _) fun _ => hrelease _ _
      · -- the new links are those of the new message
        intro m hm i
        refine ⟨List.mem_append_left _, fun hl => ?_⟩
        rcases mem_archive_messageAttachments.mp hl with hl | ⟨r, -, heq⟩
        · exact hl
        · exact absurd (congrArg MessageAttachment.messageId heq) (hrows m hm)
      · intro a ha
        exact ⟨a.referred tx.pending, referred_mem_archive ha, rfl, rfl⟩
  | select hidle hbatch => exact .select h.rows hbatch
  | load hload =>
      rw [hload] at hp
      exact Loaded.load hp hsh.links hsh.foreignKey
  | @begin expired mem hload =>
      rw [hload] at hp
      exact ⟨expired, mem, hp, rfl, fun st hst => absurd hst List.not_mem_nil⟩
  | @execute done todo st locks hrun hlocks =>
      obtain ⟨expired, mem, hloaded, hplan, hlocked⟩ := h.running hrun
      obtain ⟨hatt, -, hmsg⟩ := Statement.takeLock_keeps hlocks
      refine ⟨expired, mem, hloaded, by simpa using hplan, fun st' hst' => ?_⟩
      rcases List.mem_append.mp hst' with hst' | hst'
      · exact (hlocked st' hst').mono (fun a ha => ⟨a, ha, rfl, rfl⟩) (fun _ => hatt _ _)
          fun _ => hmsg _ _
      · rw [List.mem_singleton.mp hst']
        exact hloaded.locked hsh.foreignKey (by simp [← hplan]) hlocks
  | purged | crash => trivial
  | @hold row on =>
      exact hp.mono (fun m hm => exists_mem_setHold row on hm) (fun _ _ _ => Iff.rfl)
        (fun a ha => ⟨a, ha, rfl, rfl⟩) (fun _ hl => hl) fun _ hl => hl

/-! ## Every reachable state is sound -/

theorem Sound.step {k k' : Tables env} (h : Sound k) (hs : Step k k') : Sound k' where
  rows := .step h hs
  dedup := .step h hs
  shared := .step h hs
  purge := h.purge_step hs

theorem sound_init (env : Env) : Sound (World.init env).tables where
  rows := by
    constructor <;> simp [World.tables, World.init, World.db, Stores.init, Db.empty]
  dedup := by
    constructor <;> simp [World.tables, World.init, World.db, Stores.init, Db.empty]
  shared := by
    constructor <;> simp [World.tables, World.init, World.db, Stores.init, Db.empty, Known]
  purge := trivial

/-- What holds of every reachable world. -/
structure World.Sound (w : World env) : Prop where
  coherent : ∀ c call, w.calls c = some call → call.Coherent
  tables : MailArchiver.Sound w.tables

theorem World.Sound.running {w : World env} (h : w.Sound) {done todo : List Statement}
    (hp : w.purge = .running done todo) :
    ∃ expired mem, Loaded w.db expired mem [] ∧ done ++ todo = purgeMessages mem expired := by
  obtain ⟨expired, mem, hloaded, hplan, -⟩ := h.tables.running hp
  exact ⟨expired, mem, hloaded, hplan⟩

/-- What the purge executes next is a statement of its plan. -/
theorem World.Sound.next_mem {w : World env} (h : w.Sound) {st : Statement}
    (hnext : w.purge.next = some st) :
    ∃ expired mem, Loaded w.db expired mem [] ∧ st ∈ purgeMessages mem expired := by
  cases hq : w.purge with
  | idle | loading =>
      rw [hq] at hnext
      cases hnext
  | running done todo =>
      rw [hq] at hnext
      obtain ⟨expired, mem, hloaded, hplan⟩ := h.running hq
      refine ⟨expired, mem, hloaded, ?_⟩
      rw [← hplan]
      exact List.mem_append_right _ (List.mem_of_mem_head? hnext)

/-- Every row was committed by a call, as its mail has it. -/
theorem World.Sound.origin {w : World env} (h : w.Sound) {m : Message}
    (hm : m ∈ w.db.messages) : ∃ c call, w.calls c = some call ∧ call.committed = some m.id
      ∧ m.SameArchive (call.job.msgRow m.id) := by
  obtain ⟨c, tx, htx, hcom, hsame⟩ := h.tables.rows.origin m hm
  obtain ⟨call, hcall, rfl⟩ := Option.map_eq_some_iff.mp htx
  exact ⟨c, call, hcall, hcom, hsame⟩

/-- The body of a row lies under its archive hash. -/
theorem World.Sound.bodySha256 {w : World env} (h : w.Sound) {m : Message}
    (hm : m ∈ w.db.messages) : m.bodySha256 = m.archiveHash := by
  obtain ⟨c, call, -, -, hsame⟩ := h.origin hm
  rw [hsame.bodySha256, hsame.archiveHash]
  rfl

theorem World.Sound.mirror {w : World env} (h : w.Sound) :
    w.db.messageDedup = w.db.messages.map Message.dedup := h.tables.dedup.mirror

/-- The unique keys hold. -/
theorem World.Sound.keys {w : World env} (h : w.Sound) : w.db.Keys := by
  have hshared := h.tables.shared
  constructor
  · have hids : (w.db.messages.map (·.id)).Nodup := h.tables.rows.ids
    refine List.Nodup.of_map Prod.fst ?_
    rw [List.map_map]
    exact hids
  · rw [h.mirror, List.map_map]
    exact h.tables.dedup.hashes
  · exact Table.nodup_of_iff hshared.hashes fun a ha b hb => hshared.keyed a b (.inl ha) (.inl hb)
  · exact hshared.hashes
  · exact hshared.links

/-- One call archives one row. -/
theorem World.Sound.committed_inj {w : World env} (h : w.Sound) {c c' : Nat}
    {call call' : Call env} {id : Nat} (hcall : w.calls c = some call)
    (hcom : call.committed = some id) (hcall' : w.calls c' = some call')
    (hcom' : call'.committed = some id) : c = c' := by
  have htx := txs_of_call hcall
  have htx' := txs_of_call hcall'
  exact h.tables.rows.owner c c' _ _ id htx htx' (h.tables.rows.rowId_of_committed htx hcom)
    (h.tables.rows.rowId_of_committed htx' hcom')

/-- The row an archived call has committed. -/
theorem World.Sound.committed_row {w : World env} (h : w.Sound) {c : Nat} {call : Call env} {m : Message}
    (hcall : w.calls c = some call) (hcom : call.committed = some m.id) (hm : m ∈ w.db.messages) :
    m.SameArchive (call.job.msgRow m.id) := by
  obtain ⟨c', call', hcall', hcom', hsame⟩ := h.origin hm
  obtain rfl : c = c' := h.committed_inj hcall hcom hcall' hcom'
  obtain rfl : call = call' := Option.some.inj (hcall.symm.trans hcall')
  exact hsame

/-- The precheck finds the dedup row of a message that is there. -/
theorem World.Sound.findDedup {w : World env} (h : w.Sound) {m : Message} (hm : m ∈ w.db.messages) :
    w.db.findDedup m.archiveHash = some m.dedup := by
  have hmem : m.dedup ∈ w.db.messageDedup := by
    rw [h.mirror]
    exact List.mem_map_of_mem hm
  exact Table.find?_key h.keys.messageDedup hmem

/-- Nobody has committed the row a call is about to commit. -/
theorem World.Sound.committed_ne {w : World env} (h : w.Sound) {c c' : Nat}
    {call call' : Call env} {rows : List Attachment} {id : Nat} (hcall : w.calls c = some call)
    (hpc : call.pc = .commit rows id) (hcall' : w.calls c' = some call') :
    call'.committed ≠ some id := by
  intro hcom
  have hflushed : call.tx.flushed = some id := by simp [Call.tx, hpc, Pc.flushed]
  exact h.tables.rows.not_flushed_of_committed (txs_of_call hcall) hflushed (txs_of_call hcall') hcom

theorem World.Sound.init (env : Env) : (World.init env).Sound where
  coherent := fun c call hcall => by cases hcall
  tables := sound_init env

theorem World.Sound.step {w w' : World env} {e : Event} (h : w.Sound)
    (hs : w.step e = some w') : w'.Sound where
  coherent := coherent_step h.coherent hs
  tables := h.tables.step (tables_step h.coherent hs)

/-- **Every reachable world is sound.** -/
theorem World.reachable_sound {w : World env}
    (h : Transition.Reachable World.step (World.init env) w) : w.Sound :=
  h.invariant (.init env) fun _ _ _ hsound hs => hsound.step hs

/-- **`message_dedup` mirrors `messages`** in every reachable world: the
rows of the two tables correspond one to one by hash, id and time of
signature, and no hash occurs twice in either. -/
theorem World.dedup_mirrors_messages {w : World env}
    (h : Transition.Reachable World.step (World.init env) w) :
    Set.BijOn Message.dedup {m | m ∈ w.db.messages} {d | d ∈ w.db.messageDedup}
      ∧ (w.db.messages.map (·.archiveHash)).Nodup
      ∧ (w.db.messageDedup.map (·.archiveHash)).Nodup := by
  have hsound := reachable_sound h
  have hmirror := hsound.mirror
  have hhashes : (w.db.messages.map (·.archiveHash)).Nodup := hsound.tables.dedup.hashes
  refine ⟨⟨?_, ?_, ?_⟩, hhashes, hsound.keys.messageDedup⟩
  · intro m hm
    show m.dedup ∈ w.db.messageDedup
    rw [hmirror]
    exact List.mem_map_of_mem hm
  · -- a dedup row has the hash of its message, which no other message has
    intro m hm m' hm' heq
    exact List.inj_on_of_nodup_map hhashes hm hm' (congrArg MessageDedup.archiveHash heq)
  · intro d hd
    change d ∈ w.db.messageDedup at hd
    rw [hmirror] at hd
    exact List.mem_map.mp hd

/-- One mail is archived, one is on its way. -/
theorem World.dedup_mirrors_messages_sample : ∃ w,
    sampleRun (sampleCall 0 plainMail sampleTime 5 ++ sampleCall 1 wrapperMail sampleTime 4) = some w
      ∧ w.db.messages.map (·.id) = [1]
      ∧ Set.BijOn Message.dedup {m | m ∈ w.db.messages} {d | d ∈ w.db.messageDedup} := by
  have hany : (sampleRun (sampleCall 0 plainMail sampleTime 5
      ++ sampleCall 1 wrapperMail sampleTime 4)).any (fun w =>
        decide (w.db.messages.map (·.id) = [1])) = true := by
    decide +kernel
  obtain ⟨w, hrun, hw⟩ := (Option.any_eq_true _ _).mp hany
  exact ⟨w, hrun, of_decide_eq_true hw, (World.dedup_mirrors_messages ⟨_, hrun⟩).1⟩

end MailArchiver

import MailArchiver.System.World

/-!
# System — Transactions

What the tables alone show of the world: the committed rows, the
sequences, the locks, and for each transaction what it has written and not
committed. Every step of the world is one of few steps of the tables, or
none (`tables_step`).
-/

namespace MailArchiver

variable {env : Env}

/-- What a `process` call has done to the tables. -/
structure Tx (env : Env) where
  job : Job env
  /-- Its attachment upserts. -/
  pending : List Attachment
  /-- Its message row, inserted. -/
  flushed : Option Nat
  /-- Its dedup row is inserted. -/
  reserved : Bool
  /-- The message row it committed. -/
  committed : Option Nat

/-- The id of the row the call inserted, committed or not. -/
def Tx.rowId (tx : Tx env) : Option Nat := tx.flushed <|> tx.committed

/-- A transaction that has ended, or not begun. -/
def Tx.ended (tx : Tx env) (committed : Option Nat) : Tx env where
  job := tx.job
  pending := []
  flushed := none
  reserved := false
  committed := committed

structure Tables (env : Env) where
  db : Db
  messageSeq : Nat
  attachmentSeq : Nat
  locks : Locks
  txs : Nat → Option (Tx env)
  purge : Purge

def Call.tx (call : Call env) : Tx env where
  job := call.job
  pending := call.pc.pending
  flushed := call.pc.flushed
  reserved := call.pc.reserved
  committed := call.committed

def World.tables (w : World env) : Tables env where
  db := w.db
  messageSeq := w.stores.messageSeq
  attachmentSeq := w.stores.attachmentSeq
  locks := w.stores.locks
  txs := fun c => (w.calls c).map Call.tx
  purge := w.purge

theorem World.txs_of_call {w : World env} {c : Nat} {call : Call env}
    (hcall : w.calls c = some call) : w.tables.txs c = some call.tx := by
  simp [World.tables, hcall]

namespace Tables

def withTx (k : Tables env) (c : Nat) (tx : Tx env) : Nat → Option (Tx env) :=
  Function.update k.txs c (some tx)

/-- The id an upsert returns: that of the row the transaction sees under
the hash, or the next of the sequence. -/
def rowId (k : Tables env) (tx : Tx env) (sha256 : String) : Nat :=
  ((tx.pending.find? (fun r => r.sha256 = sha256) <|> k.db.findAttachment sha256).map (·.id)).getD
    k.attachmentSeq

/-- The steps on the tables. -/
inductive Step (k : Tables env) : Tables env → Prop where
  | stutter : Step k k
  | start {c : Nat} {job : Job env} (hfree : k.txs c = none) :
      Step k ⟨k.db, k.messageSeq, k.attachmentSeq, k.locks,
        k.withTx c ⟨job, [], none, false, none⟩, k.purge⟩
  | upsert {c : Nat} {tx : Tx env} {row : Attachment} (htx : k.txs c = some tx)
      (hlock : Available (k.locks.attachments row.sha256) (.worker c))
      (hid : row.id = k.rowId tx row.sha256) (hcount : row.refCount = 1) :
      Step k ⟨k.db, k.messageSeq, k.attachmentSeq + 1,
        k.locks.takeAttachment row.sha256 (.worker c),
        k.withTx c { tx with pending := tx.pending ++ [row] }, k.purge⟩
  | flush {c : Nat} {tx : Tx env} (htx : k.txs c = some tx) (hcommitted : tx.committed = none) :
      Step k ⟨k.db, k.messageSeq + 1, k.attachmentSeq, k.locks,
        k.withTx c { tx with flushed := some k.messageSeq }, k.purge⟩
  | reserve {c : Nat} {tx : Tx env} (htx : k.txs c = some tx)
      (hlock : Available (k.locks.dedup tx.job.archiveHash) (.worker c))
      (hdup : k.db.findDedup tx.job.archiveHash = none) :
      Step k ⟨k.db, k.messageSeq, k.attachmentSeq,
        k.locks.takeDedup tx.job.archiveHash (.worker c),
        k.withTx c { tx with reserved := true }, k.purge⟩
  | commit {c : Nat} {tx : Tx env} {id : Nat} (htx : k.txs c = some tx)
      (hflushed : tx.flushed = some id) (hreserved : tx.reserved = true)
      (hhashes : tx.pending.map (·.sha256) = tx.job.attHashes) :
      Step k ⟨k.db.archive (tx.job.msgRow id) tx.pending, k.messageSeq, k.attachmentSeq,
        k.locks.release (.worker c), k.withTx c (tx.ended (some id)), k.purge⟩
  | rollback {c : Nat} {tx : Tx env} (htx : k.txs c = some tx) :
      Step k ⟨k.db, k.messageSeq, k.attachmentSeq, k.locks.release (.worker c),
        k.withTx c (tx.ended tx.committed), k.purge⟩
  | select {cutoff : DateTime} {batch : List Message} (hp : k.purge = .idle)
      (hbatch : IsBatch k.db cutoff batch) :
      Step k { k with purge := .loading [] (fun _ => none) batch }
  | load {expired : List (Message × List Nat)} {mem : IdentityMap} {msg : Message}
      {rest : List Message} (hp : k.purge = .loading expired mem (msg :: rest)) :
      Step k
        { k with
          purge := .loading (expired ++ [(msg, k.db.attachedTo msg)])
            (MailArchiver.load k.db msg mem) rest }
  | begin {expired : List (Message × List Nat)} {mem : IdentityMap}
      (hp : k.purge = .loading expired mem []) :
      Step k { k with purge := .running [] (purgeMessages mem expired) }
  | execute {done todo : List Statement} {st : Statement} {locks : Locks}
      (hp : k.purge = .running done (st :: todo)) (hlocks : st.takeLock k.db k.locks = some locks) :
      Step k { k with locks := locks, purge := .running (done ++ [st]) todo }
  | purged {done : List Statement} (hp : k.purge = .running done []) :
      Step k
        { k with
          db := done.foldl Statement.onDb k.db
          locks := k.locks.release .retention
          purge := .idle }
  | crash : Step k { k with locks := k.locks.release .retention, purge := .idle }
  | hold {row : Message} {on : Bool} : Step k { k with db := k.db.setHold row on }

theorem withTx_self {k : Tables env} {c : Nat} {tx : Tx env} (h : k.txs c = some tx) :
    k.withTx c tx = k.txs := by
  rw [withTx, ← h, Function.update_eq_self]

/-- A transaction after one was set: that one, or another as before. -/
theorem withTx_cases {k : Tables env} {c c' : Nat} {tx tx' : Tx env}
    (h : k.withTx c tx c' = some tx') :
    (c' = c ∧ tx' = tx) ∨ (c' ≠ c ∧ k.txs c' = some tx') := by
  by_cases hc : c' = c
  · subst hc
    rw [withTx, Function.update_self] at h
    exact .inl ⟨rfl, (Option.some.inj h).symm⟩
  · rw [withTx, Function.update_of_ne hc] at h
    exact .inr ⟨hc, h⟩

theorem withTx_same (k : Tables env) (c : Nat) (tx : Tx env) : k.withTx c tx c = some tx :=
  Function.update_self ..

theorem withTx_ne (k : Tables env) {c c' : Nat} (tx : Tx env) (h : c' ≠ c) :
    k.withTx c tx c' = k.txs c' := Function.update_of_ne h ..

end Tables

theorem World.tables_setCall (w : World env) (c : Nat) (s : Stores) (call : Call env) :
    (w.setCall c s call).tables =
      ⟨s.db, s.messageSeq, s.attachmentSeq, s.locks, w.tables.withTx c call.tx, w.purge⟩ := by
  have htxs : (fun c' => ((w.setCall c s call).calls c').map Call.tx)
      = w.tables.withTx c call.tx := by
    funext c'
    by_cases h : c' = c
    · subst h
      simp [setCall_calls_self, Tables.withTx_same]
    · simp [setCall_calls_ne w s call h, Tables.withTx_ne _ _ h, World.tables]
  rw [World.tables, htxs]
  rfl

/-- A step of a call is a step of its transaction, or none. -/
theorem World.tables_advance {w : World env} {c : Nat} {call call' : Call env} {s : Stores}
    (hcall : w.calls c = some call) (hcoh : call.Coherent)
    (hmove : MailArchiver.Move w.stores c call s call') :
    Tables.Step w.tables (w.setCall c s call').tables := by
  have htx : w.tables.txs c = some call.tx := txs_of_call hcall
  unfold Call.Coherent at hcoh
  rw [tables_setCall]
  -- steps that leave the transaction alone
  have hsame : call'.tx = call.tx → Tables.Step w.tables ⟨w.stores.db, w.stores.messageSeq,
      w.stores.attachmentSeq, w.stores.locks, w.tables.withTx c call'.tx, w.purge⟩ := by
    intro h
    rw [h, Tables.withTx_self htx]
    exact .stutter
  have hend : Tables.Step w.tables ⟨w.stores.db, w.stores.messageSeq, w.stores.attachmentSeq,
      w.stores.locks.release (.worker c), w.tables.withTx c (call.tx.ended call.committed),
      w.purge⟩ := .rollback htx
  cases hmove with
  | duplicate hpc hdup =>
      refine hsame ?_
      rcases hpc with hpc | hpc <;> simp [Call.tx, hpc, Pc.pending, Pc.flushed, Pc.reserved]
  | unknown hpc | gone hpc | reindexed hpc | bodyPut hpc | attachmentPut hpc | indexed hpc
  | published hpc =>
      refine hsame ?_
      simp [Call.tx, hpc, Pc.pending, Pc.flushed, Pc.reserved]
  | @upserted rows att sha todo hpc hlock =>
      have hnew : (call.goto (.storeAttachments (rows ++ [upsertedRow w.stores rows att sha])
          todo)).tx = { call.tx with
            pending := call.tx.pending ++ [upsertedRow w.stores rows att sha] } := by
        simp [Call.tx, hpc, Pc.pending, Pc.flushed, Pc.reserved]
      have hlock' : Available (w.tables.locks.attachments
          (upsertedRow w.stores rows att sha).sha256) (.worker c) := hlock
      rw [hnew]
      refine .upsert htx hlock' ?_ rfl
      simp [upsertedRow, Tables.rowId, Call.tx, hpc, Pc.pending, World.tables, World.db]
  | @flushed rows hpc =>
      simp only [hpc] at hcoh
      have hnew : (call.goto (.insertDedup rows w.stores.messageSeq)).tx
          = { call.tx with flushed := some w.stores.messageSeq } := by
        simp [Call.tx, hpc, Pc.pending, Pc.flushed, Pc.reserved]
      rw [hnew]
      exact .flush htx hcoh.1
  | @reserved rows id hpc hlock hdup =>
      have hnew : (call.goto (.commit rows id)).tx = { call.tx with reserved := true } := by
        simp [Call.tx, hpc, Pc.pending, Pc.flushed, Pc.reserved]
      rw [hnew]
      exact .reserve htx hlock hdup
  | @committed rows id hpc =>
      simp only [hpc] at hcoh
      have hrows : call.tx.pending = rows := by simp [Call.tx, hpc, Pc.pending]
      have hflushed : call.tx.flushed = some id := by simp [Call.tx, hpc, Pc.flushed]
      have hreserved : call.tx.reserved = true := by simp [Call.tx, hpc, Pc.reserved]
      rw [← hrows] at hcoh
      have hstep := Tables.Step.commit htx hflushed hreserved hcoh.2
      rw [hrows] at hstep
      exact hstep
  | conflicted hpc hdup => exact hend
  | raised hpc => exact hend

/-- **Every step of the world is a step of the tables.** -/
theorem World.tables_step {w w' : World env} {e : Event}
    (hcoh : ∀ c call, w.calls c = some call → call.Coherent) (hs : w.step e = some w') :
    Tables.Step w.tables w'.tables := by
  cases Move.of_step hs with
  | refused => exact .stutter
  | start hfree hjob =>
      rw [tables_setCall]
      exact .start (by simp [World.tables, hfree])
  | advance hcall hmove => exact tables_advance hcall (hcoh _ _ hcall) hmove
  | fail hcall hpc => exact tables_advance hcall (hcoh _ _ hcall) (.raised hpc)
  | @purge e s p hmove =>
      have hp : w.tables.purge = w.purge := rfl
      generalize hq : w.purge = q at hmove
      cases hmove with
      | select hbatch => exact .select (hp.trans hq) hbatch
      | load => exact .load (hp.trans hq)
      | begin => exact .begin (hp.trans hq)
      | execute hlocks => exact .execute (hp.trans hq) hlocks
      | commit => exact .purged (hp.trans hq)
      | crash h => exact .crash
  | hold hstores =>
      rcases hstores with rfl | ⟨row, on, rfl⟩
      · exact .stutter
      · exact .hold

end MailArchiver

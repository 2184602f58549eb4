import MailArchiver.ArchiverWorker.Alone
import MailArchiver.RetentionWorker.FailedPurge
import MailArchiver.System.Soundness

/-!
# System — SerialRuns

Calls of `process` and of `run_retention`, one after the other, with all
services available. Each of them comes to its end. A mail that is not
archived yet is archived by its call when the tables can take it, and only
then. An attachment is counted once for each time a mail carries it, and
linked once: the reference counts stay exact as long as no mail that
carries one attachment twice is archived (`CanTake`), and no longer.
-/

namespace MailArchiver

open Tables Transition

variable {env : Env}

/-- A call of one of the two workers. -/
inductive SerialCall where
  /-- `process(raw)`, with what `seal` draws at each step. -/
  | process (raw : Bytes) (now signedAt : DateTime) (draws : Nat → Draw)
  /-- The purge of `run_retention`, whose `SELECT` returns `batch`. -/
  | retention (cutoff : DateTime) (batch : List Message)

namespace World

/-- Call `c` is over, or was never begun: its mail did not parse. -/
def callEnded (c : Nat) (w : World env) : Bool := (w.calls c).all fun call => call.pc.ended

def callStepsLeft (c : Nat) (w : World env) : Nat :=
  match w.calls c with
  | none => 0
  | some call => call.stepsLeft

/-- `process(raw)` as call `c`, from its beginning to its end. -/
def process (w : World env) (c : Nat) (raw : Bytes) (now signedAt : DateTime)
    (draws : Nat → Draw) : Option (World env) :=
  match w.step (.start c raw now signedAt) with
  | none => none
  | some w' =>
      runUntil step (callEnded c) (fun i => .advance c (draws i) true) (w'.callStepsLeft c) w'

/-- The purge of `run_retention`, from its `SELECT` to its commit: a load
for each message of the batch, then the statements. -/
def retention (w : World env) (cutoff : DateTime) (batch : List Message) : Option (World env) :=
  match w.step (.purge (.select cutoff batch)) with
  | none => none
  | some w' =>
      runUntil step (fun w => w.purge.isIdle) (fun _ => .purge .advance)
        (batch.length + (purgeStatements w.db batch).length + 2) w'

/-- One call, with the number the next `process` call gets. -/
def serialStep : World env × Nat → SerialCall → Option (World env × Nat)
  | (w, c), .process raw now signedAt draws =>
      match w.process c raw now signedAt draws with
      | none => none
      | some w' => some (w', c + 1)
  | (w, c), .retention cutoff batch =>
      match w.retention cutoff batch with
      | none => none
      | some w' => some (w', c)

/-- The mail is archived: a call on it has committed a row that is there. -/
def HasArchived (w : World env) (raw : Bytes) : Prop :=
  ∃ c call m, w.calls c = some call ∧ call.job.mail.raw = raw ∧ call.committed = some m.id
    ∧ m ∈ w.db.messages

/-- Call `c` returned and committed the row of `raw`. -/
def Archives (w : World env) (c : Nat) (raw : Bytes) : Prop :=
  ∃ call id, w.calls c = some call ∧ call.job.mail.raw = raw ∧ call.pc = .returned
    ∧ call.committed = some id ∧ call.job.msgRow id ∈ w.db.messages

/-- The counts a call leaves: each the number of links, none of them
zero; an attachment row that went has taken its blob with it. -/
structure CountsExact (w w' : World env) : Prop where
  counts : w'.db.Counted
  positive : ∀ a ∈ w'.db.attachments, 0 < a.refCount
  collected : ∀ a ∈ w.db.attachments, (∀ a' ∈ w'.db.attachments, a'.id ≠ a.id) →
    w'.blobs.lookup a.sha256 = none

/-- What a call should do: come to its end, leave the counts exact, and
archive its mail if that was not archived yet. -/
def Exact (x : World env × Nat) (e : SerialCall) : Prop :=
  ∃ x', serialStep x e = some x' ∧ x.1.CountsExact x'.1
    ∧ ∀ raw now signedAt draws, e = .process raw now signedAt draws → ¬x.1.HasArchived raw →
      x'.1.Archives x.2 raw

/-- The tables can take the mail, and its counts will be exact: it parses,
no archived mail has its archive hash, it is storable, and it has no
attachment twice. -/
def CanTake (w : World env) (raw : Bytes) (now signedAt : DateTime) : Prop :=
  ∃ job, prepare env now signedAt raw = .ok job ∧ w.db.findDedup job.archiveHash = none
    ∧ job.Storable ∧ job.attHashes.Nodup

/-- The services answer: whatever `process` seals is sealed, and the
`SELECT` of the retention returns what it can return. -/
def Served (x : World env × Nat) : SerialCall → Prop
  | .process raw now signedAt draws =>
      ∀ i job plaintext, prepare env now signedAt raw = .ok job → plaintext ∈ job.plaintexts →
        ∃ blob, sealed env.prims (draws i) plaintext = .ok blob
  | .retention cutoff batch => IsBatch x.1.db cutoff batch

/-! ## A call of `process` -/

/-- Every attachment has a reference. -/
def Referred (db : Db) : Prop := ∀ a ∈ db.attachments, 0 < a.refCount

theorem Referred.upsertRow {table : List Attachment} (h : ∀ a ∈ table, 0 < a.refCount)
    {row : Attachment} (hrow : row.refCount = 1) : ∀ a ∈ upsertRow table row, 0 < a.refCount := by
  intro a ha
  unfold MailArchiver.upsertRow at ha
  split at ha
  · obtain ⟨b, hb, rfl⟩ := List.mem_map.mp ha
    have hpos := h b hb
    split
    · show 0 < b.refCount + 1
      omega
    · exact hpos
  · rcases List.mem_append.mp ha with ha | ha
    · exact h a ha
    · rw [List.mem_singleton.mp ha, hrow]
      exact Int.one_pos

/-- An archived mail counts up. -/
theorem Referred.archive {db : Db} (h : Referred db) {m : Message} {rows : List Attachment}
    (hrows : ∀ r ∈ rows, r.refCount = 1) : Referred (db.archive m rows) := by
  show ∀ a ∈ rows.foldl MailArchiver.upsertRow db.attachments, 0 < a.refCount
  have htable : ∀ a ∈ db.attachments, 0 < a.refCount := h
  generalize db.attachments = table at htable
  induction rows generalizing table with
  | nil => exact htable
  | cons row rows ih =>
      refine ih (fun r hr => hrows r (List.mem_cons_of_mem _ hr)) _ ?_
      exact Referred.upsertRow htable (hrows row List.mem_cons_self)

/-- Upserts remove no row. -/
theorem exists_mem_archive {db : Db} {m : Message} {rows : List Attachment} {id : Nat}
    (h : ∃ a ∈ db.attachments, a.id = id) :
    ∃ a ∈ (db.archive m rows).attachments, a.id = id := by
  show ∃ a ∈ rows.foldl MailArchiver.upsertRow db.attachments, a.id = id
  generalize db.attachments = table at h
  induction rows generalizing table with
  | nil => exact h
  | cons row rows ih =>
      refine ih _ ?_
      obtain ⟨a, ha, rfl⟩ := h
      unfold MailArchiver.upsertRow
      split
      · refine ⟨_, List.mem_map_of_mem ha, ?_⟩
        split
        · rfl
        · rfl
      · exact ⟨a, List.mem_append_left _ ha, rfl⟩

/-- Call `c` on its way, alone in a world that began as `w₀`. -/
structure Calling (w₀ : World env) (c : Nat) (job : Job env) (w : World env) : Prop where
  sound : w.Sound
  idle : w.purge = .idle
  below : w.CallsBelow (c + 1)
  referred : Referred w.db
  kept : ∀ a ∈ w₀.db.attachments, ∃ a' ∈ w.db.attachments, a'.id = a.id
  call : ∃ call, w.calls c = some call ∧ call.job = job ∧ call.Alone c w.stores.locks
    ∧ (w₀.db.findDedup job.archiveHash = none → call.Screened w.db)
    ∧ ((w₀.db.findDedup job.archiveHash).isSome → call.Known w.db)
    ∧ (w.db.Counted ↔ (call.committed ≠ none → job.attHashes.Nodup))

/-- The rows of a call that has not committed are new references. -/
theorem Sound.pending_once {w : World env} (h : w.Sound) {c : Nat} {call : Call env}
    (hcall : w.calls c = some call) : ∀ r ∈ call.pc.pending, r.refCount = 1 := by
  have htx := txs_of_call hcall
  exact fun r hr => h.tables.shared.once c call.tx r htx hr

/-- A commit keeps the counts exact if its mail has no attachment twice,
and no other step touches them. -/
theorem Sound.counted_advance {w : World env} (h : w.Sound) {c : Nat} {call call' : Call env}
    {s : Stores} (hcall : w.calls c = some call)
    (hmove : MailArchiver.Move w.stores c call s call')
    (hcounted : w.db.Counted ↔ (call.committed ≠ none → call.job.attHashes.Nodup)) :
    s.db.Counted ↔ (call'.committed ≠ none → call.job.attHashes.Nodup) := by
  rcases hmove.db with ⟨hdb, hcom⟩ | ⟨rows, id, hpc, hdb, hcom⟩
  · rw [hdb, hcom]
    exact hcounted
  · have hcoh := h.coherent c call hcall
    simp only [Call.Coherent, hpc] at hcoh
    obtain ⟨hnone, hhashes⟩ := hcoh
    have hrows : call.tx.pending = rows := by simp [Call.tx, hpc, Pc.pending]
    have hbefore : w.db.Counted := hcounted.mpr fun hne => absurd hnone hne
    have hiff := h.tables.shared.archive_counted_iff (m := call.job.msgRow id) (txs_of_call hcall)
      hbefore
    rw [hrows, hhashes] at hiff
    rw [hdb, hcom]
    exact hiff.trans ⟨fun hnodup _ => hnodup, fun hnodup => hnodup (Option.some_ne_none id)⟩

theorem Calling.step {w₀ w : World env} {c : Nat} {job : Job env} (h : Calling w₀ c job w)
    {draw : Draw} (hseal : ∀ plaintext ∈ job.plaintexts,
      ∃ blob, sealed env.prims draw plaintext = .ok blob)
    (hended : w.callEnded c = false) : ∃ w', w.step (.advance c draw true) = some w'
      ∧ Calling w₀ c job w' ∧ w'.callStepsLeft c < w.callStepsLeft c := by
  obtain ⟨call, hcall, rfl, halone, hscreened, hknown, hcounted⟩ := h.call
  have hpc : call.pc.ended = false := by simpa [callEnded, hcall] using hended
  obtain ⟨⟨s, call'⟩, hadv⟩ :=
    Option.isSome_iff_exists.mp (advance_isSome halone.own hpc draw true)
  have hmove := MailArchiver.Move.of_advance hadv
  have hstep := step_advance hcall hadv
  have hself : (w.setCall c s call').calls c = some call' := setCall_calls_self ..
  refine ⟨_, hstep, ?_, ?_⟩
  · constructor
    · exact h.sound.step hstep
    · exact h.idle
    · exact h.below.step rfl hstep
    · rcases hmove.db with ⟨hdb, -⟩ | ⟨rows, id, hcommit, hdb, -⟩
      · rw [setCall_db, hdb]
        exact h.referred
      · rw [setCall_db, hdb]
        refine h.referred.archive fun r hr => h.sound.pending_once hcall r ?_
        rw [hcommit]
        exact hr
    · intro a ha
      rcases hmove.db with ⟨hdb, -⟩ | ⟨rows, id, -, hdb, -⟩
      · rw [setCall_db, hdb]
        exact h.kept a ha
      · rw [setCall_db, hdb]
        exact exists_mem_archive (h.kept a ha)
    · refine ⟨call', hself, hmove.job, hmove.alone halone, fun hfresh => ?_,
        fun hdup => (hknown hdup).advance hadv, h.sound.counted_advance hcall hmove hcounted⟩
      exact (hscreened hfresh).advance (h.sound.coherent c call hcall) hseal hadv
  · simp only [callStepsLeft, hself, hcall]
    exact hmove.stepsLeft hpc

/-- Between two calls: no purge, no lock, every attachment referred to. -/
structure Serial (w : World env) (c : Nat) : Prop where
  sound : w.Sound
  idle : w.purge = .idle
  below : w.CallsBelow c
  referred : Referred w.db
  locks : w.stores.locks = .none

theorem Serial.init (env : Env) : (World.init env).Serial 0 where
  sound := .init env
  idle := rfl
  below := fun _ _ => rfl
  referred := fun _ ha => absurd ha List.not_mem_nil
  locks := rfl

/-- A call alone that is over leaves no lock. -/
theorem Calling.locks {w₀ w : World env} {c : Nat} {job : Job env} (h : Calling w₀ c job w)
    (hover : w.callEnded c = true) : w.stores.locks = .none := by
  obtain ⟨call, hcall, -, halone, -⟩ := h.call
  have hpc : call.pc.ended = true := by simpa [callEnded, hcall] using hover
  apply halone.outside
  rcases Pc.ended_cases hpc with hret | hraise
  · rw [hret]
    rfl
  · rw [hraise]
    rfl

/-- What a call alone has done when it is over. -/
theorem Calling.archives_iff {w₀ w : World env} {c : Nat} {job : Job env}
    (h : Calling w₀ c job w) (hover : w.callEnded c = true) : w.Archives c job.mail.raw ↔
      w₀.db.findDedup job.archiveHash = none ∧ job.Storable := by
  obtain ⟨call, hcall, rfl, -, hscreened, hknown, -⟩ := h.call
  have hpc : call.pc.ended = true := by simpa [callEnded, hcall] using hover
  cases hdup : w₀.db.findDedup call.job.archiveHash with
  | some dup =>
      -- a duplicate: nothing was committed
      obtain ⟨hnone, -⟩ := hknown (by rw [hdup]; rfl)
      refine iff_of_false ?_ ?_
      · rintro ⟨call₁, id, hcall₁, -, -, hcom, -⟩
        obtain rfl : call = call₁ := Option.some.inj (hcall.symm.trans hcall₁)
        rw [hnone] at hcom
        cases hcom
      · rintro ⟨hfree, -⟩
        cases hfree
  | none =>
      have hends := hscreened hdup
      unfold Call.Screened at hends
      rcases Pc.ended_cases hpc with hret | hraise
      · simp only [hret] at hends
        obtain ⟨hstorable, id, hcom, hrow⟩ := hends
        exact iff_of_true ⟨call, id, hcall, rfl, hret, hcom, hrow⟩ ⟨rfl, hstorable⟩
      · simp only [hraise] at hends
        refine iff_of_false ?_ fun hok => hends hok.2
        rintro ⟨call₁, id, hcall₁, -, hret, -⟩
        obtain rfl : call = call₁ := Option.some.inj (hcall.symm.trans hcall₁)
        rw [hraise] at hret
        cases hret

/-- A mail that is archived has its dedup row, whenever it is parsed. -/
theorem Sound.findDedup_archived {w : World env} (h : w.Sound) {raw : Bytes}
    {now signedAt : DateTime} {job : Job env} (hhas : w.HasArchived raw)
    (hjob : prepare env now signedAt raw = .ok job) :
    (w.db.findDedup job.archiveHash).isSome := by
  obtain ⟨c, call, m, hcall, rfl, hcom, hm⟩ := hhas
  have hhash : m.archiveHash = job.archiveHash :=
    (h.committed_row hcall hcom hm).archiveHash.trans (Job.archiveHash_again hjob).symm
  rw [← hhash, h.findDedup hm]
  rfl

/-- **A call of `process` alone**: it ends, removes no attachment, and
leaves the counts exact and its mail archived if and only if that was
archived already or can be taken. -/
theorem Serial.process {w : World env} {c : Nat} (h : w.Serial c) (hcounted : w.db.Counted)
    {raw : Bytes} {now signedAt : DateTime} {draws : Nat → Draw}
    (hserved : Served (w, c) (.process raw now signedAt draws)) :
    ∃ w', w.process c raw now signedAt draws = some w' ∧ w'.Serial (c + 1)
      ∧ (∀ a ∈ w.db.attachments, ∃ a' ∈ w'.db.attachments, a'.id = a.id)
      ∧ ((w'.db.Counted ∧ (¬w.HasArchived raw → w'.Archives c raw)) ↔
        w.HasArchived raw ∨ w.CanTake raw now signedAt) := by
  have hfree : w.calls c = none := h.below c (Nat.le_refl c)
  cases hjob : prepare env now signedAt raw with
  | error e =>
      -- the mail does not parse: nothing happens
      have hstart : w.step (.start c raw now signedAt) = some w := by
        simp only [World.step, hfree, hjob]
      refine ⟨w, ?_, ⟨h.sound, h.idle, fun c' hc => h.below c' (by omega), h.referred, h.locks⟩,
        fun a ha => ⟨a, ha, rfl⟩, ?_⟩
      · simp [World.process, hstart, runUntil, callStepsLeft, callEnded, hfree]
      · constructor
        · rintro ⟨-, harch⟩
          by_contra hno
          obtain ⟨call, id, hcall, -⟩ := harch fun hhas => hno (.inl hhas)
          rw [hfree] at hcall
          cases hcall
        · rintro (hhas | ⟨job, hok, -⟩)
          · exact ⟨hcounted, fun hnew => absurd hhas hnew⟩
          · rw [hjob] at hok
            cases hok
  | ok job =>
      let called := w.setCall c w.stores ⟨job, .check, none⟩
      have hself : called.calls c = some ⟨job, .check, none⟩ := setCall_calls_self ..
      have hstart : w.step (.start c raw now signedAt) = some called := step_start hfree hjob
      have hbegin : Calling w c job called := by
        refine ⟨h.sound.step hstart, h.idle, (CallsBelow.mono h.below (Nat.le_succ c)).step ?_ hstart,
          h.referred, fun a ha => ⟨a, ha, rfl⟩, _, hself, rfl, ?_, fun hnone => hnone,
          fun hdup => ⟨rfl, hdup⟩, iff_of_true hcounted fun hne => absurd rfl hne⟩
        · exact decide_eq_true (Nat.lt_succ_self c)
        · show Call.Alone _ c w.stores.locks
          rw [h.locks]
          exact .of_none _ c
      obtain ⟨w', hrun, hend, hover⟩ := @runUntil_total _ _ World.step (callEnded c)
        (fun i => .advance c (draws i) true) (Calling w c job) (callStepsLeft c)
        (fun u i hu hgoes => hu.step (fun p hp => hserved i job p hjob hp) hgoes) _ _ hbegin
        (Nat.le_refl (called.callStepsLeft c))
      have hserial : w'.Serial (c + 1) :=
        ⟨hend.sound, hend.idle, hend.below, hend.referred, hend.locks hover⟩
      have harchives := hend.archives_iff hover
      obtain ⟨-, -, hraw⟩ := prepare_ok hjob
      rw [hraw] at harchives
      obtain ⟨call, hcall, -, -, -, hknown, hexact⟩ := hend.call
      refine ⟨w', ?_, hserial, hend.kept, ?_⟩
      · simp only [World.process, hstart]
        exact hrun
      · constructor
        · rintro ⟨hafter, hdone⟩
          by_cases hhas : w.HasArchived raw
          · exact .inl hhas
          · -- its row is committed, so the counts tell that no attachment comes twice
            have harch := hdone hhas
            obtain ⟨hnew, hstorable⟩ := harchives.mp harch
            obtain ⟨call₁, id, hcall₁, -, -, hcom, -⟩ := harch
            obtain rfl : call = call₁ := Option.some.inj (hcall.symm.trans hcall₁)
            have hcommitted : call.committed ≠ none := by
              rw [hcom]
              exact Option.some_ne_none id
            exact .inr ⟨job, hjob, hnew, hstorable, hexact.mp hafter hcommitted⟩
        · rintro (hhas | ⟨job', hok, hnew, hstorable, hnodup⟩)
          · obtain ⟨hnone, -⟩ := hknown (h.sound.findDedup_archived hhas hjob)
            exact ⟨hexact.mpr fun hne => absurd hnone hne, fun hnot => absurd hhas hnot⟩
          · obtain rfl : job = job' := Except.ok.inj (hjob.symm.trans hok)
            exact ⟨hexact.mpr fun _ => hnodup, fun _ => harchives.mpr ⟨hnew, hstorable⟩⟩

/-! ## A call of `run_retention` -/

/-- The purge on its way, alone in a world that began as `w₀`. -/
structure Purging (w₀ : World env) (c : Nat) (batch : List Message) (w : World env) : Prop where
  sound : w.Sound
  below : w.CallsBelow c
  locks : w.stores.locks.FreeFor .retention
  counted : w₀.db.Counted → w.db.Counted
  place :
    match w.purge with
    | .idle => w.stores.locks = .none
        ∧ (w.db, w.blobs) = afterPurge w₀.db w₀.blobs batch .committed
    | p => PurgeAt w₀.stores batch (w.stores, p)

/-- A bound on the steps the purge has before it, when its plan has so
many statements. -/
def purgeStepsLeft (plan : Nat) (w : World env) : Nat :=
  match w.purge with
  | .idle => 0
  | .loading _ _ rest => rest.length + plan + 2
  | .running _ todo => todo.length + 1

theorem Purging.step {w₀ w : World env} {c : Nat} {batch : List Message}
    (h : Purging w₀ c batch w) (hgoes : w.purge.isIdle = false) :
    ∃ w', w.step (.purge .advance) = some w' ∧ Purging w₀ c batch w'
      ∧ w'.purgeStepsLeft (purgeStatements w₀.db batch).length
        < w.purgeStepsLeft (purgeStatements w₀.db batch).length := by
  have hplace := h.place
  have hselect : ∀ cutoff b, PurgeEvent.advance ≠ .select cutoff b := by
    intro cutoff b hselect
    cases hselect
  -- nothing else runs, so no lock is in the way of a statement
  cases hp : w.purge with
  | idle =>
      rw [hp] at hgoes
      cases hgoes
  | loading expired mem rest =>
      rw [hp] at hplace
      cases rest with
      | nil =>
          have hpurge : w.purge.step w.stores .advance
              = some (w.stores, .running [] (purgeMessages mem expired)) := by
            rw [hp]
            rfl
          have hstep := step_purge hpurge
          have hat : PurgeAt w₀.stores batch (w.stores, .running [] (purgeMessages mem expired)) :=
            purgeAt_step hplace hselect rfl
          refine ⟨_, hstep, ⟨h.sound.step hstep, h.below.step rfl hstep, h.locks, h.counted, hat⟩, ?_⟩
          have hlen : (purgeMessages mem expired).length
              = (purgeStatements w₀.db batch).length := congrArg List.length hat.2.2
          simp only [purgeStepsLeft, hp, List.length_nil]
          omega
      | cons msg rest =>
          have hpurge : w.purge.step w.stores .advance
              = some (w.stores, .loading (expired ++ [(msg, w.stores.db.attachedTo msg)])
                (load w.stores.db msg mem) rest) := by
            rw [hp]
            rfl
          have hstep := step_purge hpurge
          refine ⟨_, hstep, ⟨h.sound.step hstep, h.below.step rfl hstep, h.locks, h.counted,
            purgeAt_step hplace hselect rfl⟩, ?_⟩
          simp only [purgeStepsLeft, hp, List.length_cons]
          omega
  | running done todo =>
      rw [hp] at hplace
      cases todo with
      | nil =>
          have hpurge : w.purge.step w.stores .advance = some (Stores.release
              { w.stores with db := done.foldl Statement.onDb w.stores.db } .retention, .idle) := by
            rw [hp]
            rfl
          have hstep := step_purge hpurge
          have hnone : w.stores.locks.release .retention = .none := h.locks.release
          obtain ⟨hdb, hblobs, hplan⟩ := hplace
          rw [List.append_nil] at hplan
          refine ⟨_, hstep, ⟨h.sound.step hstep, h.below.step rfl hstep, ?_, fun hcounted => ?_,
            hnone, ?_⟩, ?_⟩
          · show (w.stores.locks.release .retention).FreeFor .retention
            rw [hnone]
            exact .none _
          · exact h.sound.tables.counted_purged hp (h.counted hcounted)
          · -- the whole plan is executed
            show (done.foldl Statement.onDb w.stores.db, w.stores.blobs) = _
            rw [hdb, hblobs, hplan]
            rfl
          · simp [purgeStepsLeft, hp]
      | cons st todo =>
          obtain ⟨locks', htake, hfree⟩ := @Statement.takeLock_free w.stores.db _ h.locks st
          have hpurge : w.purge.step w.stores .advance = some
              ({ w.stores with blobs := st.onBlobs w.stores.blobs, locks := locks' },
                .running (done ++ [st]) todo) := by
            rw [hp]
            simp only [Purge.step, htake]
          have hstep := step_purge hpurge
          rw [hp] at hpurge
          refine ⟨_, hstep, ⟨h.sound.step hstep, h.below.step rfl hstep, hfree, h.counted,
            purgeAt_step hplace hselect hpurge⟩, ?_⟩
          simp [purgeStepsLeft, hp]

/-- **A call of `run_retention` alone**: it ends, exact counts stay exact,
and what lost its last reference is gone with its blob. -/
theorem Serial.retention {w : World env} {c : Nat} (h : w.Serial c) {cutoff : DateTime}
    {batch : List Message} (hbatch : IsBatch w.db cutoff batch) :
    ∃ w', w.retention cutoff batch = some w' ∧ w'.Serial c
      ∧ (w.db.Counted → w.CountsExact w') := by
  have hkeys := h.sound.keys
  let selected : World env := { w with purge := .loading [] (fun _ => none) batch }
  have hstart : w.step (.purge (.select cutoff batch)) = some selected := by
    have hpurge : w.purge.step w.stores (.select cutoff batch)
        = some (w.stores, .loading [] (fun _ => none) batch) := by
      rw [h.idle]
      exact if_pos hbatch
    exact step_purge hpurge
  have hfree : selected.stores.locks.FreeFor .retention := by
    show w.stores.locks.FreeFor .retention
    rw [h.locks]
    exact .none _
  have hbegin : Purging w c batch selected :=
    ⟨h.sound.step hstart, h.below.step rfl hstart, hfree, fun hcounted => hcounted, rfl, rfl, rfl⟩
  obtain ⟨w', hrun, hend, hover⟩ := @runUntil_total _ _ World.step (fun w => w.purge.isIdle)
    (fun _ => .purge .advance) (Purging w c batch)
    (purgeStepsLeft (purgeStatements w.db batch).length)
    (fun u _ hu hgoes => hu.step hgoes) _ selected hbegin
    (Nat.le_refl (batch.length + (purgeStatements w.db batch).length + 2))
  have hidle := Purge.eq_idle hover
  have hplace := hend.place
  rw [hidle] at hplace
  obtain ⟨hlocks, hafter⟩ := hplace
  obtain ⟨hdb, hblobs⟩ := Prod.mk.inj hafter
  have hrow : ∀ a', a' ∈ w'.db.attachments ↔ ∃ a ∈ w.db.attachments,
      (¬∃ r, .collect r ∈ purgeStatements w.db batch ∧ r.id = a.id)
        ∧ Statement.counted (purgeStatements w.db batch) a = a' := by
    intro a'
    rw [hdb]
    exact mem_foldl_onDb_attachments
  -- a row that is not collected has more references than the batch took
  have hreferred : Referred w'.db := by
    intro a' ha'
    obtain ⟨a, ha, hkept, rfl⟩ := (hrow a').mp ha'
    have hpos := h.referred a ha
    rw [collects_iff hkeys ha] at hkept
    simp only [Statement.counted, count_decrement_purgeStatements hkeys]
    omega
  have hserial : w'.Serial c := ⟨hend.sound, hidle, hend.below, hreferred, hlocks⟩
  refine ⟨w', ?_, hserial, fun hcounted => ⟨hend.counted hcounted, hreferred, fun a ha hgone => ?_⟩⟩
  · simp only [World.retention, hstart]
    exact hrun
  · by_cases hcollected : ∃ r, .collect r ∈ purgeStatements w.db batch ∧ r.id = a.id
    · obtain ⟨r, hr, hid⟩ := hcollected
      obtain ⟨b, hb, hbid, hbsha⟩ := collected_row hkeys hr
      obtain rfl : b = a := List.inj_on_of_nodup_map hkeys.attachmentIds hb ha (hbid.trans hid)
      rw [hblobs]
      show ((purgeStatements w.db batch).foldl Statement.onBlobs w.blobs).lookup b.sha256 = none
      rw [Statement.lookup_foldl_onBlobs]
      exact if_pos ⟨.collect r, hr, congrArg some hbsha.symm⟩
    · have hkept := (hrow _).mpr ⟨a, ha, hcollected, rfl⟩
      exact (hgone _ hkept rfl).elim

/-! ## Calls one after the other -/

theorem Exact.counted {x x' : World env × Nat} {e : SerialCall} (h : Exact x e)
    (hs : serialStep x e = some x') : x'.1.db.Counted := by
  obtain ⟨x₁, hs₁, hcounts, -⟩ := h
  obtain rfl : x' = x₁ := Option.some.inj (hs.symm.trans hs₁)
  exact hcounts.counts

theorem Serial.step {x x' : World env × Nat} {e : SerialCall} (h : x.1.Serial x.2)
    (hcounted : x.1.db.Counted) (hserved : Served x e) (hs : serialStep x e = some x') :
    x'.1.Serial x'.2 := by
  obtain ⟨w, c⟩ := x
  cases e with
  | process raw now signedAt draws =>
      obtain ⟨w', hrun, hserial, -⟩ := h.process hcounted hserved
      simp only [serialStep, hrun] at hs
      cases hs
      exact hserial
  | retention cutoff batch =>
      obtain ⟨w', hrun, hserial, -⟩ := h.retention hserved
      simp only [serialStep, hrun] at hs
      cases hs
      exact hserial

end World

end MailArchiver

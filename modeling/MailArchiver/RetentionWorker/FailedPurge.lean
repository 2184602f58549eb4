import MailArchiver.ArchiverWorker.Job
import MailArchiver.Lib.Table
import MailArchiver.Lib.Transition
import MailArchiver.RetentionWorker.Purge

/-!
# RetentionWorker — FailedPurge

What a purge leaves behind, wherever it ends. Its transaction has no
effect unless it commits, but a blob it has deleted stays deleted: after a
failure the tables are what they were and some blobs are gone.
`purge_intact_iff` says for every database and every ending when nothing
is lost.
-/

namespace MailArchiver

open Transition

/-- The statements of a purge that no other transaction disturbs. -/
def purgeStatements (db : Db) (batch : List Message) : List Statement :=
  purgeMessages (batch.foldl (fun mem msg => load db msg mem) fun _ => none)
    (batch.map fun msg => (msg, db.attachedTo msg))

/-- How a purge ends. -/
inductive Ending where
  /-- It fails, or is killed, once these statements are executed. -/
  | failed (executed : List Statement)
  | committed
  deriving DecidableEq, Repr

/-- What a failing point is: a prefix of the run. -/
def Ending.Of (db : Db) (batch : List Message) : Ending → Prop
  | .failed executed => executed <+: purgeStatements db batch
  | .committed => True

/-- The tables and the bucket after a purge of `batch`. -/
def afterPurge (db : Db) (blobs : BlobStore) (batch : List Message) : Ending → Db × BlobStore
  | .failed executed => (db, executed.foldl Statement.onBlobs blobs)
  | .committed =>
      ((purgeStatements db batch).foldl Statement.onDb db,
        (purgeStatements db batch).foldl Statement.onBlobs blobs)

/-! ## The step machine ends so -/

/-- A purge alone with the stores. -/
def purgeStep : Stores × Purge → PurgeEvent → Option (Stores × Purge)
  | (s, p), e => p.step s e

/-- Where a purge of `batch` that started on `s₀` can be. -/
def PurgeAt (s₀ : Stores) (batch : List Message) : Stores × Purge → Prop
  | (s, .loading expired mem rest) =>
      s.db = s₀.db ∧ s.blobs = s₀.blobs ∧ purgeStatements s₀.db batch =
        purgeMessages (rest.foldl (fun mem msg => load s₀.db msg mem) mem)
          (expired ++ rest.map fun msg => (msg, s₀.db.attachedTo msg))
  | (s, .running done todo) =>
      s.db = s₀.db ∧ s.blobs = done.foldl Statement.onBlobs s₀.blobs
        ∧ done ++ todo = purgeStatements s₀.db batch
  | (s, .idle) => ∃ ending, Ending.Of s₀.db batch ending
      ∧ (s.db, s.blobs) = afterPurge s₀.db s₀.blobs batch ending

theorem purgeAt_step {s₀ : Stores} {batch : List Message} {x x' : Stores × Purge} {e : PurgeEvent}
    (h : PurgeAt s₀ batch x) (he : ∀ cutoff b, e ≠ .select cutoff b)
    (hs : purgeStep x e = some x') : PurgeAt s₀ batch x' := by
  obtain ⟨s, p⟩ := x
  obtain ⟨s', p'⟩ := x'
  have hmove := Purge.Move.of_step hs
  cases hmove with
  | select hbatch => exact absurd rfl (he _ _)
  | load =>
      obtain ⟨hdb, hblobs, hplan⟩ := h
      refine ⟨hdb, hblobs, ?_⟩
      rw [hplan, hdb]
      simp
  | begin =>
      obtain ⟨hdb, hblobs, hplan⟩ := h
      exact ⟨hdb, by simpa using hblobs, by simpa using hplan.symm⟩
  | execute hlocks =>
      obtain ⟨hdb, hblobs, hplan⟩ := h
      exact ⟨hdb, by simp [hblobs], by simpa using hplan⟩
  | commit =>
      obtain ⟨hdb, hblobs, hplan⟩ := h
      rw [List.append_nil] at hplan
      exact ⟨.committed, trivial, by simp [Stores.release, afterPurge, hdb, hblobs, ← hplan]⟩
  | crash hp =>
      cases p with
      | idle => exact absurd rfl hp
      | loading expired mem rest =>
          obtain ⟨hdb, hblobs, -⟩ := h
          exact ⟨.failed [], List.nil_prefix, by simp [Stores.release, afterPurge, hdb, hblobs]⟩
      | running done todo =>
          obtain ⟨hdb, hblobs, hplan⟩ := h
          exact ⟨.failed done, ⟨todo, hplan⟩, by simp [Stores.release, afterPurge, hdb, hblobs]⟩

/-- **Every undisturbed run of the purge ends in one of the endings**: it
commits, or fails after a prefix of its statements. -/
theorem run_purge_ending {s s' : Stores} {cutoff : DateTime} {batch : List Message}
    {es : List PurgeEvent} (hes : ∀ e ∈ es, ∀ cutoff b, e ≠ .select cutoff b)
    (hrun : run purgeStep (s, .idle) (.select cutoff batch :: es) = some (s', .idle)) :
    ∃ ending, Ending.Of s.db batch ending
      ∧ (s'.db, s'.blobs) = afterPurge s.db s.blobs batch ending := by
  obtain ⟨⟨s₁, p₁⟩, hfirst, hrest⟩ := run_cons_eq_some.mp hrun
  have hstart : PurgeAt s batch (s₁, p₁) := by
    simp only [purgeStep, Purge.step] at hfirst
    split at hfirst <;> cases hfirst
    exact ⟨rfl, rfl, rfl⟩
  exact run_invariant_of_meets (fun x e x' hx he hs => purgeAt_step hx he hs) hrest
    (meets_of_forall hes) hstart

/-! ## What is lost -/

/-- Every committed row that needs a blob has it. -/
structure Intact (db : Db) (blobs : BlobStore) : Prop where
  bodies : ∀ m ∈ db.messages, (blobs.lookup m.bodySha256).isSome
  attachments : ∀ a ∈ db.attachments, 0 < a.refCount → (blobs.lookup a.sha256).isSome

/-- A statement that deletes no blob a committed row needs: it deletes no
body, and only attachments that are stored without a reference. -/
def Statement.Spares (db : Db) : Statement → Prop
  | .deleteBody _ => False
  | .collect refreshed =>
      (∀ a ∈ db.attachments, a.sha256 = refreshed.sha256 → a.refCount ≤ 0)
        ∧ ∀ m ∈ db.messages, m.bodySha256 ≠ refreshed.sha256
  | _ => True

/-- How many messages of the batch carry an attachment. -/
def Db.carriersIn (db : Db) (batch : List Message) (id : Nat) : Nat :=
  batch.countP fun msg => id ∈ db.attachedTo msg

/-- The batch purges this row of `messages`. -/
def PurgedRow (batch : List Message) (m : Message) : Prop :=
  ∃ msg ∈ batch, m.id = msg.id ∧ m.signedAt = msg.signedAt

/-- The blobs of the batch are nobody else's: no message that stays has
the key of one, and no attachment that keeps references has the key of a
body. -/
structure NothingShared (db : Db) (batch : List Message) : Prop where
  bodies : ∀ m ∈ db.messages, ¬PurgedRow batch m →
    (∀ msg ∈ batch, m.bodySha256 ≠ msg.bodySha256)
      ∧ ∀ a ∈ db.attachments, 0 < db.carriersIn batch a.id →
          a.refCount ≤ db.carriersIn batch a.id → m.bodySha256 ≠ a.sha256
  attachments : ∀ a ∈ db.attachments, db.carriersIn batch a.id < a.refCount →
    ∀ msg ∈ batch, a.sha256 ≠ msg.bodySha256

variable {db : Db} {blobs : BlobStore} {batch : List Message}

/-- What the session holds once the batch is loaded: the rows its
messages carry. -/
theorem loaded_eq (batch : List Message) (mem : IdentityMap) (id : Nat) :
    batch.foldl (fun mem msg => load db msg mem) mem id =
      match mem id with
      | some a => some a
      | none =>
          if ∃ msg ∈ batch, id ∈ db.attachedTo msg then
            db.attachments.find? fun a => a.id = id
          else none := by
  induction batch generalizing mem with
  | nil =>
      cases hmem : mem id with
      | none => simpa using hmem
      | some a => simpa using hmem
  | cons msg batch ih =>
      rw [List.foldl_cons, ih, load]
      cases mem id with
      | some a => rfl
      | none =>
          by_cases hmsg : id ∈ db.attachedTo msg
          · cases db.attachments.find? (fun a => a.id = id) with
            | none => simp [hmsg]
            | some a => simp [hmsg]
          · simp [hmsg]

theorem keyed_loaded (batch : List Message) {mem : IdentityMap} (h : mem.Keyed) :
    IdentityMap.Keyed (batch.foldl (fun mem msg => load db msg mem) mem) := by
  induction batch generalizing mem with
  | nil => exact h
  | cons msg batch ih => exact ih (load_keyed h msg)

theorem loaded_some_iff (hkeys : db.Keys) {id : Nat} {a : Attachment} :
    batch.foldl (fun mem msg => load db msg mem) (fun _ => none) id = some a ↔
      a ∈ db.attachments ∧ a.id = id ∧ 0 < db.carriersIn batch id := by
  rw [loaded_eq, Db.carriersIn, List.countP_pos_iff]
  simp only [decide_eq_true_eq]
  constructor
  · intro h
    split at h
    · exact ⟨List.mem_of_find?_eq_some h, by simpa using List.find?_some h, ‹_›⟩
    · cases h
  · rintro ⟨ha, rfl, hex⟩
    rw [if_pos hex]
    exact Table.find?_key hkeys.attachmentIds ha

theorem carriers_eq (batch : List Message) (id : Nat) :
    carriers (batch.map fun msg => (msg, db.attachedTo msg)) id = db.carriersIn batch id := by
  rw [carriers, Db.carriersIn, List.countP_map]
  rfl

theorem nodup_loaded (hkeys : db.Keys) :
    ∀ x ∈ batch.map fun msg => (msg, db.attachedTo msg), x.2.Nodup := by
  intro x hx
  obtain ⟨msg, -, rfl⟩ := List.mem_map.mp hx
  exact nodup_attachedTo hkeys.messageAttachments msg

theorem count_decrement_purgeStatements (hkeys : db.Keys) (id : Nat) :
    (purgeStatements db batch).count (.decrement id) = db.carriersIn batch id := by
  rw [purgeStatements, count_decrement_purgeMessages _ (nodup_loaded hkeys), carriers_eq]

/-- The statements on messages: three for each message of the batch. -/
theorem mem_purgeStatements_message (hkeys : db.Keys) {st : Statement}
    (hst : st.onMessage = true) :
    st ∈ purgeStatements db batch ↔ ∃ msg ∈ batch, st = .deleteBody msg
      ∨ st = .deleteDedup msg.archiveHash ∨ st = .deleteMessage msg (db.attachedTo msg) := by
  rw [purgeStatements, mem_purgeMessages_message (nodup_loaded hkeys) hst]
  simp

/-- The attachments that are collected: those whose stored count the batch
uses up. -/
theorem collects_iff (hkeys : db.Keys) {a : Attachment} (ha : a ∈ db.attachments) :
    (∃ r, .collect r ∈ purgeStatements db batch ∧ r.id = a.id) ↔
      0 < db.carriersIn batch a.id ∧ a.refCount ≤ db.carriersIn batch a.id := by
  have hkeyed : IdentityMap.Keyed (batch.foldl (fun mem msg => load db msg mem) fun _ => none) :=
    keyed_loaded batch IdentityMap.keyed_empty
  constructor
  · rintro ⟨r, hr, hid⟩
    obtain ⟨b, hb, -, hpos, hle⟩ := of_collect_mem hkeyed (nodup_loaded hkeys) hr
    obtain ⟨hbmem, hbid, -⟩ := (loaded_some_iff hkeys).mp hb
    rw [carriers_eq, hid] at hpos hle
    obtain rfl : b = a :=
      List.inj_on_of_nodup_map hkeys.attachmentIds hbmem ha (hbid.trans hid)
    exact ⟨hpos, hle⟩
  · rintro ⟨hpos, hle⟩
    obtain ⟨r, hr, hid, -⟩ := collect_mem_of hkeyed (nodup_loaded hkeys)
      ((loaded_some_iff hkeys).mpr ⟨ha, rfl, hpos⟩) (by rwa [carriers_eq]) (by rwa [carriers_eq])
    exact ⟨r, hr, hid⟩

/-- What is collected is a row of the table. -/
theorem collected_row (hkeys : db.Keys) {r : Attachment}
    (hr : .collect r ∈ purgeStatements db batch) :
    ∃ a ∈ db.attachments, a.id = r.id ∧ a.sha256 = r.sha256 := by
  obtain ⟨a, ha, hsha, -, -⟩ :=
    of_collect_mem (keyed_loaded batch IdentityMap.keyed_empty) (nodup_loaded hkeys) hr
  obtain ⟨hmem, hid, -⟩ := (loaded_some_iff hkeys).mp ha
  exact ⟨a, hmem, hid, hsha.symm⟩

/-- The keys a whole run deletes. -/
theorem deletes_iff (hkeys : db.Keys) {k : String} :
    (∃ st ∈ purgeStatements db batch, st.deletes = some k) ↔
      (∃ msg ∈ batch, msg.bodySha256 = k) ∨ ∃ a ∈ db.attachments, a.sha256 = k
        ∧ 0 < db.carriersIn batch a.id ∧ a.refCount ≤ db.carriersIn batch a.id := by
  constructor
  · rintro ⟨st, hst, hk⟩
    cases st with
    | collect r =>
        obtain ⟨a, ha, hid, hsha⟩ := collected_row hkeys hst
        refine .inr ⟨a, ha, hsha.trans (Option.some.inj hk), ?_⟩
        exact (collects_iff hkeys ha).mp ⟨r, hst, hid.symm⟩
    | deleteBody msg =>
        obtain ⟨x, hx, h | h | h⟩ := (mem_purgeStatements_message hkeys rfl).mp hst
        · cases h
          exact .inl ⟨msg, hx, Option.some.inj hk⟩
        · cases h
        · cases h
    | decrement | deleteDedup | deleteMessage => cases hk
  · rintro (⟨msg, hmsg, rfl⟩ | ⟨a, ha, rfl, hcount⟩)
    · refine ⟨.deleteBody msg, ?_, rfl⟩
      exact (mem_purgeStatements_message hkeys rfl).mpr ⟨msg, hmsg, .inl rfl⟩
    · obtain ⟨r, hr, hid⟩ := (collects_iff hkeys ha).mpr hcount
      obtain ⟨b, hb, hbid, hbsha⟩ := collected_row hkeys hr
      obtain rfl : b = a :=
        List.inj_on_of_nodup_map hkeys.attachmentIds hb ha (hbid.trans hid)
      exact ⟨.collect r, hr, congrArg some hbsha.symm⟩

theorem committed_messages (hkeys : db.Keys) {m : Message} :
    m ∈ ((purgeStatements db batch).foldl Statement.onDb db).messages ↔
      m ∈ db.messages ∧ ¬PurgedRow batch m := by
  rw [Statement.foldl_onDb_messages, List.mem_filter, Bool.not_eq_true', List.any_eq_false]
  refine and_congr_right fun _ => ?_
  rw [PurgedRow, not_exists]
  constructor
  · rintro h msg ⟨hmsg, hkey⟩
    refine h (.deleteMessage msg (db.attachedTo msg)) ?_ (decide_eq_true hkey)
    exact (mem_purgeStatements_message hkeys rfl).mpr ⟨msg, hmsg, .inr (.inr rfl)⟩
  · intro h st hst hrem
    cases st with
    | deleteMessage msg ids =>
        obtain ⟨x, hx, h' | h' | h'⟩ := (mem_purgeStatements_message hkeys rfl).mp hst
        · cases h'
        · cases h'
        · cases h'
          exact h msg ⟨hx, of_decide_eq_true hrem⟩
    | decrement | collect | deleteBody | deleteDedup => cases hrem

/-- The attachments that keep references after the commit. -/
theorem committed_attachments (hkeys : db.Keys) {k : String} :
    (∃ a ∈ ((purgeStatements db batch).foldl Statement.onDb db).attachments,
        0 < a.refCount ∧ a.sha256 = k) ↔
      ∃ a ∈ db.attachments, db.carriersIn batch a.id < a.refCount ∧ a.sha256 = k := by
  rw [Statement.foldl_onDb_attachments]
  simp only [List.mem_map, List.mem_filter, Bool.not_eq_true', List.any_eq_false, Bool.not_eq_true]
  have hcount : ∀ a : Attachment, (purgeStatements db batch).count (.decrement a.id)
      = db.carriersIn batch a.id := fun a => count_decrement_purgeStatements hkeys a.id
  constructor
  · rintro ⟨-, ⟨a, ⟨ha, -⟩, rfl⟩, hpos, rfl⟩
    refine ⟨a, ha, ?_, rfl⟩
    simp only [Statement.counted, hcount] at hpos
    omega
  · rintro ⟨a, ha, hlt, rfl⟩
    refine ⟨_, ⟨a, ⟨ha, ?_⟩, rfl⟩, ?_, rfl⟩
    · intro st hst
      cases st with
      | collect r =>
          by_contra hrem
          have hid : a.id = r.id := by simpa [Statement.removesAttachment] using hrem
          have := (collects_iff hkeys ha).mp ⟨r, hst, hid.symm⟩
          omega
      | decrement | deleteBody | deleteDedup | deleteMessage => rfl
    · simp only [Statement.counted, hcount]
      omega

theorem lookup_isSome_iff (sts : List Statement) {k : String} (hk : (blobs.lookup k).isSome) :
    ((sts.foldl Statement.onBlobs blobs).lookup k).isSome ↔
      ¬∃ st ∈ sts, st.deletes = some k := by
  rw [Statement.lookup_foldl_onBlobs]
  split
  · rename_i h
    simpa using h
  · rename_i h
    exact iff_of_true hk h

/-- A failed purge keeps every blob exactly when it has executed nothing
but statements that spare them. -/
theorem failed_intact_iff (hkeys : db.Keys) (hbatch : ∀ msg ∈ batch, msg ∈ db.messages)
    (hbodies : ∀ m ∈ db.messages, (blobs.lookup m.bodySha256).isSome)
    (hatts : ∀ a ∈ db.attachments, (blobs.lookup a.sha256).isSome)
    {executed : List Statement} (hexec : executed <+: purgeStatements db batch) :
    Intact db (executed.foldl Statement.onBlobs blobs) ↔ ∀ st ∈ executed, st.Spares db := by
  constructor
  · intro h st hst
    -- a blob an executed statement deletes is gone, committed or not
    have hgone : ∀ k, st.deletes = some k →
        ¬((executed.foldl Statement.onBlobs blobs).lookup k).isSome := by
      intro k hk
      rw [Statement.lookup_foldl_onBlobs, if_pos ⟨st, hst, hk⟩]
      simp
    cases st with
    | deleteBody msg =>
        obtain ⟨x, hx, h' | h' | h'⟩ :=
          (mem_purgeStatements_message hkeys rfl).mp (hexec.subset hst)
        · cases h'
          exact hgone _ rfl (h.bodies msg (hbatch msg hx))
        · cases h'
        · cases h'
    | collect r =>
        constructor
        · intro a ha hsha
          by_contra hpos
          exact hgone _ rfl (hsha ▸ h.attachments a ha (by omega))
        · intro m hm hsha
          exact hgone _ rfl (hsha ▸ h.bodies m hm)
    | decrement | deleteDedup | deleteMessage => trivial
  · intro h
    constructor
    · intro m hm
      rw [lookup_isSome_iff _ (hbodies m hm)]
      rintro ⟨st, hst, hk⟩
      have hspare := h st hst
      cases st with
      | deleteBody msg => exact hspare
      | collect r => exact hspare.2 m hm (Option.some.inj hk).symm
      | decrement | deleteDedup | deleteMessage => cases hk
    · intro a ha hpos
      rw [lookup_isSome_iff _ (hatts a ha)]
      rintro ⟨st, hst, hk⟩
      have hspare := h st hst
      cases st with
      | deleteBody msg => exact hspare
      | collect r =>
          have := hspare.1 a ha (Option.some.inj hk).symm
          omega
      | decrement | deleteDedup | deleteMessage => cases hk

/-- A committed purge keeps the blobs of the rows that stay exactly when
the blobs it deletes are nobody else's. -/
theorem committed_intact_iff (hkeys : db.Keys)
    (hbodies : ∀ m ∈ db.messages, (blobs.lookup m.bodySha256).isSome)
    (hatts : ∀ a ∈ db.attachments, (blobs.lookup a.sha256).isSome) :
    Intact ((purgeStatements db batch).foldl Statement.onDb db)
        ((purgeStatements db batch).foldl Statement.onBlobs blobs) ↔ NothingShared db batch := by
  constructor
  · intro h
    constructor
    · intro m hm hstays
      have hkept := (lookup_isSome_iff _ (hbodies m hm)).mp
        (h.bodies m ((committed_messages hkeys).mpr ⟨hm, hstays⟩))
      rw [deletes_iff hkeys, not_or] at hkept
      refine ⟨fun msg hmsg heq => hkept.1 ⟨msg, hmsg, heq.symm⟩, fun a ha hpos hle heq => ?_⟩
      exact hkept.2 ⟨a, ha, heq.symm, hpos, hle⟩
    · intro a ha hlt msg hmsg heq
      obtain ⟨b, hb, hpos, hsha⟩ := (committed_attachments hkeys).mpr ⟨a, ha, hlt, rfl⟩
      have hkept := (lookup_isSome_iff _ (hatts a ha)).mp (hsha ▸ h.attachments b hb hpos)
      rw [deletes_iff hkeys, not_or] at hkept
      exact hkept.1 ⟨msg, hmsg, heq.symm⟩
  · intro h
    constructor
    · intro m hm
      obtain ⟨hm, hstays⟩ := (committed_messages hkeys).mp hm
      obtain ⟨hother, hcollected⟩ := h.bodies m hm hstays
      rw [lookup_isSome_iff _ (hbodies m hm), deletes_iff hkeys]
      rintro (⟨msg, hmsg, heq⟩ | ⟨a, ha, heq, hpos, hle⟩)
      · exact hother msg hmsg heq.symm
      · exact hcollected a ha hpos hle heq.symm
    · intro a' ha' hpos
      obtain ⟨a, ha, hlt, hsha⟩ := (committed_attachments hkeys).mp ⟨a', ha', hpos, rfl⟩
      rw [← hsha, lookup_isSome_iff _ (hatts a ha), deletes_iff hkeys]
      rintro (⟨msg, hmsg, heq⟩ | ⟨b, hb, heq, -, hle⟩)
      · exact h.attachments a ha hlt msg hmsg heq.symm
      · obtain rfl : b = a := List.inj_on_of_nodup_map hkeys.attachmentHashes hb ha heq
        omega

/-- The endings that lose nothing. -/
def Ending.Harmless (db : Db) (batch : List Message) : Ending → Prop
  | .failed executed => ∀ st ∈ executed, st.Spares db
  | .committed => NothingShared db batch

/-- **A purge loses nothing exactly when its ending is harmless**: it
fails before it has deleted a body, or an attachment that is stored with
references or lies under a body's key; or it commits and shares no key
with what stays. -/
theorem purge_intact_iff (hkeys : db.Keys) (hbatch : ∀ msg ∈ batch, msg ∈ db.messages)
    (hbodies : ∀ m ∈ db.messages, (blobs.lookup m.bodySha256).isSome)
    (hatts : ∀ a ∈ db.attachments, (blobs.lookup a.sha256).isSome)
    {ending : Ending} (hending : ending.Of db batch) :
    Intact (afterPurge db blobs batch ending).1 (afterPurge db blobs batch ending).2 ↔
      ending.Harmless db batch := by
  cases ending with
  | failed executed => exact failed_intact_iff hkeys hbatch hbodies hatts hending
  | committed => exact committed_intact_iff hkeys hbodies hatts

/-! ### A purge killed after its first delete -/

/-- The store of the worker, for `plainRow`. -/
def plainBlobs : BlobStore := BlobStore.empty.put (hex plainDigest) (sampleSealed plainMail)

theorem plainDb_keys : plainDb.Keys :=
  ⟨by decide, by decide, by decide, by decide, by decide⟩

/-- The message is still archived, its body is gone. -/
theorem failed_purge_loses_body :
    plainDb.Keys ∧ (∀ msg ∈ [plainRow], msg ∈ plainDb.messages)
      ∧ (∀ m ∈ plainDb.messages, (plainBlobs.lookup m.bodySha256).isSome)
      ∧ (∀ a ∈ plainDb.attachments, (plainBlobs.lookup a.sha256).isSome)
      ∧ Ending.Of plainDb [plainRow] (.failed [.deleteBody plainRow])
      ∧ ¬Intact (afterPurge plainDb plainBlobs [plainRow] (.failed [.deleteBody plainRow])).1
          (afterPurge plainDb plainBlobs [plainRow] (.failed [.deleteBody plainRow])).2 := by
  refine ⟨plainDb_keys, by decide, by decide +kernel, by decide,
    ⟨[.deleteDedup _, .deleteMessage _ _], rfl⟩, fun h => ?_⟩
  have := h.bodies plainRow List.mem_cons_self
  simp [afterPurge, Statement.onBlobs] at this

/-- Killed before that delete, or left to commit, the purge loses nothing. -/
theorem purge_intact_plain :
    Intact (afterPurge plainDb plainBlobs [plainRow] (.failed [])).1
        (afterPurge plainDb plainBlobs [plainRow] (.failed [])).2
      ∧ Intact (afterPurge plainDb plainBlobs [plainRow] .committed).1
        (afterPurge plainDb plainBlobs [plainRow] .committed).2 := by
  have hblobs : ∀ m ∈ plainDb.messages, (plainBlobs.lookup m.bodySha256).isSome := by
    decide +kernel
  have hstart : Ending.Of plainDb [plainRow] (.failed []) := List.nil_prefix
  have hend : Ending.Of plainDb [plainRow] .committed := trivial
  refine ⟨(purge_intact_iff plainDb_keys (by decide) hblobs (by decide) hstart).mpr ?_,
    (purge_intact_iff plainDb_keys (by decide) hblobs (by decide) hend).mpr ?_⟩
  · simp [Ending.Harmless]
  · refine ⟨fun m hm hstays => ?_, nofun⟩
    exact absurd ⟨m, hm, rfl, rfl⟩ hstays

end MailArchiver

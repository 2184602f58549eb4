import MailArchiver.RetentionWorker.FailedPurge
import MailArchiver.RetentionWorker.Indices

/-!
# RetentionWorker — Retention

A whole `run_retention` that goes to its end: the index drop, then the
purge of one batch. The two go by different rules. The index goes by
calendar days, whole days at a time; the tables go by the instant, the
hold flag and the batch limit. `retention_keeps_indexed_iff` and
`retention_leaves_openable_iff` say for every archive when they agree.
-/

namespace MailArchiver

/-- What a call of `run_retention` meets: the clock, the setting, and the
answers of the search cluster. -/
structure RetentionCall where
  now : DateTime
  retentionDays : Int
  /-- The names `indices.get` returns; `none` when it raises. -/
  listing : Option (List String)
  /-- Whether the deletion of an index takes effect. -/
  deleted : String → Bool

/-- `now - timedelta(days=days)`; `none` is the `OverflowError`. -/
def RetentionCall.cutoff (call : RetentionCall) : Option DateTime :=
  call.now.minusDays call.retentionDays.toNat

/-- The stores once the old indices are dropped and the purge of `batch`
has committed; the purge is the one of `run_purge_ending`. -/
def Stores.retained (s : Stores) (base : String) (call : RetentionCall) (cutoff : DateTime)
    (batch : List Message) : Stores :=
  { s with
    db := (afterPurge s.db s.blobs batch .committed).1
    blobs := (afterPurge s.db s.blobs batch .committed).2
    index := dropOldIndices base cutoff call.listing call.deleted s.index }

/-- `run_retention`, undisturbed, when its `SELECT` returns `batch`. -/
def runRetention (base : String) (call : RetentionCall) (batch : List Message) (s : Stores) :
    Option Stores :=
  if call.retentionDays ≤ 0 then some s
  else call.cutoff.map fun cutoff => s.retained base call cutoff batch

/-- The stores a completed call can leave: PostgreSQL chooses the batch. -/
def Retains (base : String) (call : RetentionCall) (s s' : Stores) : Prop :=
  ∃ batch, (∀ cutoff, call.cutoff = some cutoff → IsBatch s.db cutoff batch)
    ∧ runRetention base call batch s = some s'

/-- The document `(n, i)` is the one `index_message` files for the row. -/
def Message.FiledAt (base : String) (m : Message) (n : String) (i : Nat) : Prop :=
  m.id = i ∧ n = dailyIndex base m.signedAt.isoformat

/-- The row has its index document. -/
def Stores.HasDocument (base : String) (s : Stores) (m : Message) : Prop :=
  ∃ doc, s.index.docs (dailyIndex base m.signedAt.isoformat) m.id = some doc

section

variable {base : String} {call : RetentionCall} {cutoff : DateTime} {s : Stores}

theorem retains_iff (hdays : 0 < call.retentionDays) (hcutoff : call.cutoff = some cutoff)
    {s' : Stores} : Retains base call s s' ↔
      ∃ batch, IsBatch s.db cutoff batch ∧ s' = s.retained base call cutoff batch := by
  have hpos : ¬call.retentionDays ≤ 0 := by omega
  simp only [Retains, runRetention, hpos, if_false, hcutoff, Option.map_some, Option.some.injEq,
    forall_eq', eq_comm]

/-! ## The batches a `SELECT` can return -/

theorem Db.Keys.nodup_messages {db : Db} (hkeys : db.Keys) : db.messages.Nodup :=
  List.Nodup.of_map _ hkeys.messages

/-- A row is purged when the batch has it. -/
theorem purgedRow_iff {db : Db} (hkeys : db.Keys) {batch : List Message}
    (hbatch : IsBatch db cutoff batch) {m : Message} (hm : m ∈ db.messages) :
    PurgedRow batch m ↔ m ∈ batch := by
  constructor
  · rintro ⟨msg, hmsg, hid, hsigned⟩
    have heq : m = msg := List.inj_on_of_nodup_map hkeys.messages hm (hbatch.2.1 msg hmsg).1
      (Prod.ext hid hsigned)
    rwa [heq]
  · intro h
    exact ⟨m, h, rfl, rfl⟩

/-- `LIMIT` without an order: of the expired rows, those with a property
may come first. -/
theorem exists_batch {db : Db} (hkeys : db.Keys) (cutoff : DateTime) (p : Message → Bool) :
    ∃ batch, IsBatch db cutoff batch
      ∧ batch.countP p = min batchLimit (db.messages.countP fun m => isExpired cutoff m && p m) := by
  let expired := db.messages.filter (isExpired cutoff)
  have hperm : (expired.filter p ++ expired.filter (!p ·)).Perm expired :=
    List.filter_append_perm p expired
  have hnodup : (expired.filter p ++ expired.filter (!p ·)).Nodup :=
    hperm.nodup_iff.mpr (hkeys.nodup_messages.filter _)
  refine ⟨(expired.filter p ++ expired.filter (!p ·)).take batchLimit,
    ⟨hnodup.sublist (List.take_sublist ..), fun m hm => ?_, ?_⟩, ?_⟩
  · have hmem := hperm.mem_iff.mp (List.mem_of_mem_take hm)
    simpa [expired] using hmem
  · rw [List.length_take, hperm.length_eq, List.countP_eq_length_filter]
  · have hfirst : ∀ k, ((expired.filter p).take k).countP p = ((expired.filter p).take k).length := by
      intro k
      refine List.countP_eq_length.mpr fun m hm => ?_
      exact (List.mem_filter.mp (List.mem_of_mem_take hm)).2
    have hlast : ∀ k, ((expired.filter (!p ·)).take k).countP p = 0 := by
      intro k
      refine List.countP_eq_zero.mpr fun m hm => ?_
      simpa using (List.mem_filter.mp (List.mem_of_mem_take hm)).2
    have hcount : (expired.filter p).length
        = db.messages.countP fun m => isExpired cutoff m && p m := by
      rw [List.countP_eq_length_filter, List.filter_filter]
      simp only [Bool.and_comm]
    rw [List.take_append, List.countP_append, hfirst, hlast, Nat.add_zero, List.length_take, hcount]

/-- No batch has more rows with a property than the best one. -/
theorem countP_batch_le {db : Db} {batch : List Message} (hbatch : IsBatch db cutoff batch)
    (p : Message → Bool) :
    batch.countP p ≤ min batchLimit (db.messages.countP fun m => isExpired cutoff m && p m) := by
  have hlength : batch.countP p ≤ batchLimit := by
    have := hbatch.2.2
    have := List.countP_le_length (p := p) (l := batch)
    omega
  have hsub : batch.filter p ⊆ db.messages.filter fun m => isExpired cutoff m && p m := by
    intro m hm
    obtain ⟨hmb, hmp⟩ := List.mem_filter.mp hm
    obtain ⟨hmem, hexp⟩ := hbatch.2.1 m hmb
    exact List.mem_filter.mpr ⟨hmem, by simp [hexp, hmp]⟩
  have hle := (List.subperm_of_subset (hbatch.1.filter p) hsub).length_le
  rw [← List.countP_eq_length_filter, ← List.countP_eq_length_filter] at hle
  exact Nat.le_min.mpr ⟨hlength, hle⟩

/-- Every expired row is in some batch. -/
theorem exists_batch_mem {db : Db} (hkeys : db.Keys) {m : Message} (hm : m ∈ db.messages)
    (hexp : isExpired cutoff m = true) : ∃ batch, IsBatch db cutoff batch ∧ m ∈ batch := by
  obtain ⟨batch, hbatch, hcount⟩ := exists_batch hkeys cutoff (· = m)
  refine ⟨batch, hbatch, ?_⟩
  have hpos : 0 < db.messages.countP fun x => isExpired cutoff x && decide (x = m) :=
    List.countP_pos_iff.mpr ⟨m, hm, by simp [hexp]⟩
  have hlimit : 0 < batchLimit := by decide
  obtain ⟨x, hx, heq⟩ := List.countP_pos_iff.mp (show 0 < batch.countP (· = m) by omega)
  rwa [← of_decide_eq_true heq]

/-- An expired row is in every batch exactly when they all fit in one. -/
theorem forall_batch_mem_iff {db : Db} (hkeys : db.Keys) {m : Message} (hm : m ∈ db.messages)
    (hexp : isExpired cutoff m = true) :
    (∀ batch, IsBatch db cutoff batch → m ∈ batch) ↔
      db.messages.countP (isExpired cutoff) ≤ batchLimit := by
  constructor
  · intro hall
    -- a batch that takes every other row first
    obtain ⟨batch, hbatch, hcount⟩ := exists_batch hkeys cutoff (· ≠ m)
    have hsplit : db.messages.countP (isExpired cutoff)
        = (db.messages.countP fun x => isExpired cutoff x && decide (x ≠ m)) + 1 := by
      have hone : (db.messages.countP fun x => isExpired cutoff x && decide (x = m)) = 1 := by
        have hsame : ∀ x ∈ db.messages, (isExpired cutoff x && decide (x = m)) = true ↔
            (x == m) = true := by
          intro x _
          by_cases hxm : x = m
          · simp [hxm, hexp]
          · simp [hxm]
        rw [List.countP_congr hsame]
        exact List.count_eq_one_of_mem hkeys.nodup_messages hm
      have hor : db.messages.countP (isExpired cutoff) = db.messages.countP fun x =>
          (isExpired cutoff x && decide (x ≠ m)) || (isExpired cutoff x && decide (x = m)) := by
        refine List.countP_congr fun x _ => ?_
        by_cases hxm : x = m
        · simp [hxm]
        · simp [hxm]
      rw [hor, Table.countP_or_of_disjoint (fun x _ hx => ?_), hone]
      have hne : x ≠ m := by simpa using (Bool.and_eq_true_iff.mp hx).2
      simp [hne]
    have hlen := hbatch.2.2
    have hmem := hall batch hbatch
    by_contra hmany
    have hfull : batch.countP (· ≠ m) = batch.length := by omega
    have := List.countP_eq_length.mp hfull m hmem
    simp at this
  · intro hfew batch hbatch
    have hlen := hbatch.2.2
    have hsub : batch ⊆ db.messages.filter (isExpired cutoff) := by
      intro x hx
      exact List.mem_filter.mpr (hbatch.2.1 x hx)
    have hperm : batch.Perm (db.messages.filter (isExpired cutoff)) := by
      refine (List.subperm_of_subset hbatch.1 hsub).perm_of_length_le ?_
      rw [← List.countP_eq_length_filter]
      omega
    exact hperm.mem_iff.mpr (List.mem_filter.mpr ⟨hm, hexp⟩)

/-- The rows a call leaves. -/
theorem mem_retained (hkeys : s.db.Keys) {batch : List Message}
    (hbatch : IsBatch s.db cutoff batch) {m : Message} :
    m ∈ (s.retained base call cutoff batch).db.messages ↔ m ∈ s.db.messages ∧ m ∉ batch := by
  show m ∈ ((purgeStatements s.db batch).foldl Statement.onDb s.db).messages ↔ _
  rw [committed_messages hkeys]
  constructor
  · rintro ⟨hm, hnot⟩
    exact ⟨hm, fun h => hnot ((purgedRow_iff hkeys hbatch hm).mpr h)⟩
  · rintro ⟨hm, hnot⟩
    exact ⟨hm, fun h => hnot ((purgedRow_iff hkeys hbatch hm).mp h)⟩

/-- The documents a call leaves. -/
theorem docs_retained {batch : List Message} {n : String} {i : Nat} {doc : IndexDoc} :
    (s.retained base call cutoff batch).index.docs n i = some doc ↔
      s.index.docs n i = some doc ∧ ¬DropsIndex base cutoff call.listing call.deleted n :=
  docs_dropOldIndices

/-! ## Surviving messages stay searchable -/

/-- **Every message a call leaves in the database keeps its document
exactly when the call drops no index of a message that is held, or that
the batch may leave out**: for every archive whose messages all have
their documents. -/
theorem retention_keeps_indexed_iff (hkeys : s.db.Keys) (hdays : 0 < call.retentionDays)
    (hcutoff : call.cutoff = some cutoff)
    (hindexed : ∀ m ∈ s.db.messages, s.HasDocument base m) :
    (∀ s', Retains base call s s' → ∀ m ∈ s'.db.messages, s'.HasDocument base m) ↔
      ∀ m ∈ s.db.messages, m.signedAt.date.before cutoff.date = true →
        dailyIndex base m.signedAt.isoformat ∈ call.listing.getD [] →
        call.deleted (dailyIndex base m.signedAt.isoformat) = true →
        m.legalHold = false ∧ s.db.messages.countP (isExpired cutoff) ≤ batchLimit := by
  constructor
  · intro h m hm hday hlisted hdeleted
    -- the document is gone, so every batch has to take the row
    have hall : ∀ batch, IsBatch s.db cutoff batch → m ∈ batch := by
      intro batch hbatch
      by_contra hnot
      have hs' : Retains base call s (s.retained base call cutoff batch) :=
        (retains_iff hdays hcutoff).mpr ⟨batch, hbatch, rfl⟩
      obtain ⟨doc, hdoc⟩ := h _ hs' m ((mem_retained hkeys hbatch).mpr ⟨hm, hnot⟩)
      refine (docs_retained.mp hdoc).2 ⟨hlisted, ?_, hdeleted⟩
      rw [isOldIndex_dailyIndex, hday]
    obtain ⟨batch, hbatch, -⟩ := exists_batch hkeys cutoff fun _ => true
    have hexp := (hbatch.2.1 m (hall batch hbatch)).2
    refine ⟨?_, (forall_batch_mem_iff hkeys hm hexp).mp hall⟩
    simpa using (Bool.and_eq_true_iff.mp hexp).2
  · intro h s' hs' m hm
    obtain ⟨batch, hbatch, rfl⟩ := (retains_iff hdays hcutoff).mp hs'
    obtain ⟨hm, hnot⟩ := (mem_retained hkeys hbatch).mp hm
    obtain ⟨doc, hdoc⟩ := hindexed m hm
    refine ⟨doc, docs_retained.mpr ⟨hdoc, fun ⟨hlisted, hold, hdeleted⟩ => ?_⟩⟩
    rw [isOldIndex_dailyIndex] at hold
    obtain ⟨hfree, hfew⟩ := h m hm hold hlisted hdeleted
    have hexp : isExpired cutoff m = true := by
      rw [isExpired, before_of_date hold, hfree]
      rfl
    exact hnot ((forall_batch_mem_iff hkeys hm hexp).mpr hfew batch hbatch)

/-! ### A message under hold -/

/-- The document of `plainRow`. -/
def plainDoc : IndexDoc where
  docId := some 1
  messageId := ""
  date := sampleTime.isoformat
  archivedAt := sampleTime.isoformat
  fromAddr := ""
  toAddrs := []
  ccAddrs := []
  subject := "a"
  body := "x"
  hasAttachment := false
  attachmentNames := []
  sizeBytes := 13
  retentionClass := "default"

/-- An archive of one message, under hold or not. -/
def plainArchive (held : Bool) : Stores :=
  { Stores.init with
    db := { Db.empty with messages := [{ plainRow with legalHold := held }] }
    blobs := plainBlobs
    index := SearchIndex.empty.indexMessage "messages" 1 plainDoc }

/-- A run with a retention of one day. -/
def oneDayCall (now : DateTime) : RetentionCall where
  now := now
  retentionDays := 1
  listing := some ["messages-2026.03.14"]
  deleted := fun _ => true

/-- Two days after `sampleTime`, at night. -/
def secondNight : DateTime := { sampleTime with day := 16, hour := 2, valid := by decide }

/-- The day after `sampleTime`, later in the day. -/
def nextAfternoon : DateTime := { sampleTime with day := 15, hour := 16, valid := by decide }

/-- The cutoffs of the two runs. -/
def secondNightCutoff : DateTime := { sampleTime with day := 15, hour := 2, valid := by decide }

def nextAfternoonCutoff : DateTime := { sampleTime with hour := 16, valid := by decide }

theorem plainArchive_keys (held : Bool) : (plainArchive held).db.Keys := by
  constructor <;> simp [plainArchive, Db.empty]

theorem plainArchive_docs {held : Bool} {n : String} {i : Nat} {doc : IndexDoc} :
    (plainArchive held).index.docs n i = some doc ↔
      n = dailyIndex "messages" sampleTime.isoformat ∧ i = 1 ∧ plainDoc = doc := by
  show (SearchIndex.empty.indexMessage "messages" 1 plainDoc).docs n i = some doc ↔ _
  have harchived : plainDoc.archivedAt = sampleTime.isoformat := rfl
  rw [SearchIndex.docs_indexMessage, harchived]
  by_cases h : n = dailyIndex "messages" sampleTime.isoformat ∧ i = 1
  · simp [h]
  · rw [if_neg h]
    simp only [SearchIndex.empty, reduceCtorEq, false_iff]
    exact fun hall => h ⟨hall.1, hall.2.1⟩

theorem mem_plainArchive {held : Bool} {m : Message} :
    m ∈ (plainArchive held).db.messages ↔ m = { plainRow with legalHold := held } := by
  simp [plainArchive, Db.empty]

theorem plainArchive_indexed (held : Bool) :
    ∀ m ∈ (plainArchive held).db.messages, (plainArchive held).HasDocument "messages" m := by
  intro m hm
  obtain rfl := mem_plainArchive.mp hm
  exact ⟨plainDoc, plainArchive_docs.mpr ⟨rfl, rfl, rfl⟩⟩

/-- A held message keeps its row and loses its document. -/
theorem retention_drops_held :
    (plainArchive true).db.Keys
      ∧ (∀ m ∈ (plainArchive true).db.messages, (plainArchive true).HasDocument "messages" m)
      ∧ ∃ s', Retains "messages" (oneDayCall secondNight) (plainArchive true) s'
        ∧ ∃ m ∈ s'.db.messages, ¬s'.HasDocument "messages" m := by
  have hcutoff : (oneDayCall secondNight).cutoff = some secondNightCutoff := by decide +kernel
  have hbatch : IsBatch (plainArchive true).db secondNightCutoff [] := by decide +kernel
  refine ⟨plainArchive_keys true, plainArchive_indexed true, _,
    (retains_iff (by decide) hcutoff).mpr ⟨[], hbatch, rfl⟩, { plainRow with legalHold := true },
    (mem_retained (plainArchive_keys true) hbatch).mpr ⟨mem_plainArchive.mpr rfl, by simp⟩, ?_⟩
  rintro ⟨doc, hdoc⟩
  exact (docs_retained.mp hdoc).2 ⟨by decide +kernel, by decide +kernel, rfl⟩

theorem plainArchive_retains :
    ∃ s', Retains "messages" (oneDayCall secondNight) (plainArchive false) s' := by
  have hcutoff : (oneDayCall secondNight).cutoff = some secondNightCutoff := by decide +kernel
  have hbatch : IsBatch (plainArchive false).db secondNightCutoff [plainRow] := by decide +kernel
  exact ⟨_, (retains_iff (by decide) hcutoff).mpr ⟨[plainRow], hbatch, rfl⟩⟩

/-- Without the hold the message and its document go together. -/
theorem retention_keeps_indexed_plain :
    (∃ s', Retains "messages" (oneDayCall secondNight) (plainArchive false) s')
      ∧ ∀ s', Retains "messages" (oneDayCall secondNight) (plainArchive false) s' →
        ∀ m ∈ s'.db.messages, s'.HasDocument "messages" m := by
  have hcutoff : (oneDayCall secondNight).cutoff = some secondNightCutoff := by decide +kernel
  refine ⟨plainArchive_retains, ?_⟩
  refine (retention_keeps_indexed_iff (plainArchive_keys false) (by decide) hcutoff
    (plainArchive_indexed false)).mpr fun m hm _ _ _ => ?_
  obtain rfl := mem_plainArchive.mp hm
  exact ⟨rfl, by decide +kernel⟩

/-! ## Search hits can be opened -/

/-- The most messages of one batch that carry an attachment. -/
def Db.mostCarriers (db : Db) (cutoff : DateTime) (id : Nat) : Nat :=
  min batchLimit (db.messages.countP fun m => isExpired cutoff m && decide (id ∈ db.attachedTo m))

/-- The row and its body outlive the purge, whatever its batch: the
message is held or recent enough, its body is there, and no expired
message and no attachment a batch can collect has the same key. -/
structure Outlives (s : Stores) (cutoff : DateTime) (m : Message) : Prop where
  kept : isExpired cutoff m = false
  body : (s.blobs.lookup m.bodySha256).isSome
  messages : ∀ x ∈ s.db.messages, isExpired cutoff x = true → x.bodySha256 ≠ m.bodySha256
  attachments : ∀ a ∈ s.db.attachments, a.sha256 = m.bodySha256 →
    0 < s.db.mostCarriers cutoff a.id → s.db.mostCarriers cutoff a.id < a.refCount

/-- The body of a row after the purge of a batch. -/
theorem body_retained_iff (hkeys : s.db.Keys) {batch : List Message} {m : Message}
    (hbody : (s.blobs.lookup m.bodySha256).isSome) :
    ((s.retained base call cutoff batch).blobs.lookup m.bodySha256).isSome ↔
      (∀ x ∈ batch, x.bodySha256 ≠ m.bodySha256)
        ∧ ∀ a ∈ s.db.attachments, a.sha256 = m.bodySha256 →
            0 < s.db.carriersIn batch a.id → s.db.carriersIn batch a.id < a.refCount := by
  show (((purgeStatements s.db batch).foldl Statement.onBlobs s.blobs).lookup _).isSome ↔ _
  rw [lookup_isSome_iff _ hbody, deletes_iff hkeys, not_or]
  simp only [not_exists, not_and, not_le, ne_eq]

/-- A row outlives the purge exactly when every batch leaves it and its
body. -/
theorem outlives_iff (hkeys : s.db.Keys) {m : Message} (hm : m ∈ s.db.messages) :
    Outlives s cutoff m ↔ ∀ batch, IsBatch s.db cutoff batch →
      m ∉ batch ∧ ((s.retained base call cutoff batch).blobs.lookup m.bodySha256).isSome := by
  constructor
  · rintro ⟨hkept, hbody, hmsgs, hatts⟩ batch hbatch
    constructor
    · intro hmem
      have := (hbatch.2.1 m hmem).2
      simp [hkept] at this
    · refine (body_retained_iff hkeys hbody).mpr ⟨fun x hx => ?_, fun a ha hsha hpos => ?_⟩
      · exact hmsgs x (hbatch.2.1 x hx).1 (hbatch.2.1 x hx).2
      · have hle : s.db.carriersIn batch a.id ≤ s.db.mostCarriers cutoff a.id :=
          countP_batch_le hbatch _
        have := hatts a ha hsha (by omega)
        omega
  · intro h
    -- any batch shows that the body was there before the call
    have hbody : (s.blobs.lookup m.bodySha256).isSome := by
      obtain ⟨batch, hbatch, -⟩ := exists_batch hkeys cutoff fun _ => true
      have hafter : (((purgeStatements s.db batch).foldl Statement.onBlobs s.blobs).lookup
          m.bodySha256).isSome := (h batch hbatch).2
      rw [Statement.lookup_foldl_onBlobs] at hafter
      split at hafter
      · simp at hafter
      · exact hafter
    refine ⟨?_, hbody, fun x hx hexp => ?_, fun a ha hsha hpos => ?_⟩
    · by_contra hexp
      rw [Bool.not_eq_false] at hexp
      obtain ⟨batch, hbatch, hmem⟩ := exists_batch_mem hkeys hm hexp
      exact (h batch hbatch).1 hmem
    · obtain ⟨batch, hbatch, hmem⟩ := exists_batch_mem hkeys hx hexp
      exact ((body_retained_iff hkeys hbody).mp (h batch hbatch).2).1 x hmem
    · -- the batch with as many carriers as a batch can have
      obtain ⟨batch, hbatch, hcount⟩ :=
        exists_batch hkeys cutoff fun x => decide (a.id ∈ s.db.attachedTo x)
      have hmost : s.db.carriersIn batch a.id = s.db.mostCarriers cutoff a.id := hcount
      rw [← hmost] at hpos ⊢
      exact ((body_retained_iff hkeys hbody).mp (h batch hbatch).2).2 a ha hsha hpos

/-- **Every document a call leaves can be opened exactly when the rows of
the documents that stay outlive the purge**: those signed on the cutoff's
day or later. For every archive whose documents all have their rows, when
all old indices are dropped. -/
theorem retention_leaves_openable_iff (hkeys : s.db.Keys)
    (hids : (s.db.messages.map (·.id)).Nodup) (hdays : 0 < call.retentionDays)
    (hcutoff : call.cutoff = some cutoff)
    (hlisted : ∀ n i doc, s.index.docs n i = some doc → n ∈ call.listing.getD [])
    (hdeleted : ∀ n, call.deleted n = true)
    (hrows : ∀ n i doc, s.index.docs n i = some doc → ∃ m ∈ s.db.messages, m.FiledAt base n i) :
    (∀ s', Retains base call s s' → ∀ n i doc, s'.index.docs n i = some doc →
        ∃ m ∈ s'.db.messages, m.FiledAt base n i ∧ (s'.blobs.lookup m.bodySha256).isSome) ↔
      ∀ m ∈ s.db.messages, s.HasDocument base m → m.signedAt.date.before cutoff.date = false →
        Outlives s cutoff m := by
  constructor
  · intro h m hm ⟨doc, hdoc⟩ hday
    refine (@outlives_iff base call cutoff s hkeys m hm).mpr fun batch hbatch => ?_
    have hkept : ¬DropsIndex base cutoff call.listing call.deleted
        (dailyIndex base m.signedAt.isoformat) := by
      rintro ⟨-, hold, -⟩
      rw [isOldIndex_dailyIndex, hday] at hold
      cases hold
    obtain ⟨m', hm', hfiled, hbody⟩ := h _ ((retains_iff hdays hcutoff).mpr ⟨batch, hbatch, rfl⟩)
      _ _ doc (docs_retained.mpr ⟨hdoc, hkept⟩)
    obtain ⟨hmem', hnot⟩ := (mem_retained hkeys hbatch).mp hm'
    obtain rfl : m' = m := List.inj_on_of_nodup_map hids hmem' hm hfiled.1
    exact ⟨hnot, hbody⟩
  · intro h s' hs' n i doc hdoc'
    obtain ⟨batch, hbatch, rfl⟩ := (retains_iff hdays hcutoff).mp hs'
    obtain ⟨hdoc, hkept⟩ := docs_retained.mp hdoc'
    obtain ⟨m, hm, hid, hn⟩ := hrows n i doc hdoc
    have hday : m.signedAt.date.before cutoff.date = false := by
      by_contra hold
      rw [Bool.not_eq_false] at hold
      refine hkept ⟨hlisted n i doc hdoc, ?_, hdeleted n⟩
      rw [hn, isOldIndex_dailyIndex, hold]
    have hhas : s.HasDocument base m := ⟨doc, by rw [hid, ← hn]; exact hdoc⟩
    obtain ⟨hnot, hbody⟩ :=
      (@outlives_iff base call cutoff s hkeys m hm).mp (h m hm hhas hday) batch hbatch
    exact ⟨m, (mem_retained hkeys hbatch).mpr ⟨hm, hnot⟩, ⟨hid, hn⟩, hbody⟩

/-- What the sample archive has for a search cluster: its one index is
listed, its one document has its row. -/
theorem plainArchive_filed (held : Bool) :
    (∀ n i doc, (plainArchive held).index.docs n i = some doc → n ∈ ["messages-2026.03.14"])
      ∧ ∀ n i doc, (plainArchive held).index.docs n i = some doc →
          ∃ m ∈ (plainArchive held).db.messages, m.FiledAt "messages" n i := by
  have hname : dailyIndex "messages" sampleTime.isoformat = "messages-2026.03.14" := by
    decide +kernel
  constructor
  · intro n i doc hdoc
    rw [(plainArchive_docs.mp hdoc).1, hname]
    exact List.mem_singleton_self _
  · intro n i doc hdoc
    obtain ⟨hn, hi, -⟩ := plainArchive_docs.mp hdoc
    exact ⟨_, mem_plainArchive.mpr rfl, hi.symm, hn⟩

/-- A message signed on the cutoff's day, earlier in the day, is purged
and its document stays. -/
theorem retention_leaves_dangling :
    (plainArchive false).db.Keys
      ∧ (∀ n i doc, (plainArchive false).index.docs n i = some doc →
          n ∈ (oneDayCall nextAfternoon).listing.getD [])
      ∧ (∀ n, (oneDayCall nextAfternoon).deleted n = true)
      ∧ (∀ n i doc, (plainArchive false).index.docs n i = some doc →
          ∃ m ∈ (plainArchive false).db.messages, m.FiledAt "messages" n i)
      ∧ ∃ s', Retains "messages" (oneDayCall nextAfternoon) (plainArchive false) s'
        ∧ s'.db.messages = []
        ∧ s'.index.docs "messages-2026.03.14" 1 = some plainDoc := by
  have hcutoff : (oneDayCall nextAfternoon).cutoff = some nextAfternoonCutoff := by decide +kernel
  have hbatch : IsBatch (plainArchive false).db nextAfternoonCutoff [plainRow] := by decide +kernel
  refine ⟨plainArchive_keys false, (plainArchive_filed false).1, fun _ => rfl,
    (plainArchive_filed false).2, _,
    (retains_iff (by decide) hcutoff).mpr ⟨[plainRow], hbatch, rfl⟩, ?_, ?_⟩
  · refine List.eq_nil_iff_forall_not_mem.mpr fun m hm => ?_
    obtain ⟨hm, hnot⟩ := (mem_retained (plainArchive_keys false) hbatch).mp hm
    obtain rfl := mem_plainArchive.mp hm
    exact hnot List.mem_cons_self
  · refine docs_retained.mpr ⟨plainArchive_docs.mpr ⟨by decide +kernel, rfl, rfl⟩, ?_⟩
    rintro ⟨-, hold, -⟩
    exact absurd hold (by decide +kernel)

/-- Two nights later the document goes with the row. -/
theorem retention_leaves_openable_plain :
    (∃ s', Retains "messages" (oneDayCall secondNight) (plainArchive false) s')
      ∧ ∀ s', Retains "messages" (oneDayCall secondNight) (plainArchive false) s' →
        ∀ n i doc, s'.index.docs n i = some doc →
          ∃ m ∈ s'.db.messages, m.FiledAt "messages" n i
            ∧ (s'.blobs.lookup m.bodySha256).isSome := by
  have hcutoff : (oneDayCall secondNight).cutoff = some secondNightCutoff := by decide +kernel
  have hids : ((plainArchive false).db.messages.map (·.id)).Nodup := by decide
  refine ⟨plainArchive_retains, ?_⟩
  refine (retention_leaves_openable_iff (plainArchive_keys false) hids (by decide) hcutoff
    (plainArchive_filed false).1 (fun _ => rfl) (plainArchive_filed false).2).mpr ?_
  intro m hm _ hday
  obtain rfl := mem_plainArchive.mp hm
  exact absurd hday (by decide +kernel)

end

end MailArchiver

import MailArchiver.RetentionWorker.Retention

/-!
# RetentionWorker — Backlog

What a completed `run_retention` leaves of the expired messages. The run
reads one batch and ends; it does not come back for the rest.
-/

namespace MailArchiver

variable {base : String} {call : RetentionCall} {cutoff : DateTime} {s : Stores}

/-- Nothing expired is left in the tables, and no body of what was
expired is left in the store. -/
structure PurgeComplete (cutoff : DateTime) (s s' : Stores) : Prop where
  rows : ∀ m ∈ s'.db.messages, isExpired cutoff m = false
  bodies : ∀ m ∈ s.db.messages, isExpired cutoff m = true → s'.blobs.lookup m.bodySha256 = none

/-- A batch takes every body of its messages. -/
theorem lookup_retained_of_mem (hkeys : s.db.Keys) {batch : List Message} {m : Message}
    (hm : m ∈ batch) : (s.retained base call cutoff batch).blobs.lookup m.bodySha256 = none := by
  have hdel : ∃ st ∈ purgeStatements s.db batch, st.deletes = some m.bodySha256 :=
    (deletes_iff hkeys).mpr (.inl ⟨m, hm, rfl⟩)
  show ((purgeStatements s.db batch).foldl Statement.onBlobs s.blobs).lookup _ = none
  rw [Statement.lookup_foldl_onBlobs]
  simp [hdel]

/-- What no batch has room for stays. -/
theorem exists_left {db : Db} (hkeys : db.Keys) {batch : List Message}
    (hbatch : IsBatch db cutoff batch) (hmany : batchLimit < db.messages.countP (isExpired cutoff)) :
    ∃ m ∈ db.messages, isExpired cutoff m = true ∧ m ∉ batch := by
  by_contra hnone
  have hall : db.messages.filter (isExpired cutoff) ⊆ batch := by
    intro m hm
    obtain ⟨hmem, hexp⟩ := List.mem_filter.mp hm
    by_contra hnot
    exact hnone ⟨m, hmem, hexp, hnot⟩
  have hle := (List.subperm_of_subset (hkeys.nodup_messages.filter _) hall).length_le
  rw [← List.countP_eq_length_filter, hbatch.2.2] at hle
  omega

/-- The purge of one batch is complete when the batch had room for
everything expired. -/
theorem purgeComplete_iff (hkeys : s.db.Keys) {batch : List Message}
    (hbatch : IsBatch s.db cutoff batch) :
    PurgeComplete cutoff s (s.retained base call cutoff batch) ↔
      s.db.messages.countP (isExpired cutoff) ≤ batchLimit := by
  constructor
  · intro h
    by_contra hmany
    obtain ⟨m, hm, hexp, hnot⟩ := exists_left hkeys hbatch (Nat.lt_of_not_le hmany)
    have hleft := h.rows m ((mem_retained hkeys hbatch).mpr ⟨hm, hnot⟩)
    rw [hexp] at hleft
    cases hleft
  · intro hfew
    have hall : ∀ m ∈ s.db.messages, isExpired cutoff m = true → m ∈ batch := fun m hm hexp =>
      (forall_batch_mem_iff hkeys hm hexp).mpr hfew batch hbatch
    refine ⟨fun m hm => ?_, fun m hm hexp => lookup_retained_of_mem hkeys (hall m hm hexp)⟩
    obtain ⟨hmem, hnot⟩ := (mem_retained hkeys hbatch).mp hm
    by_contra hexp
    exact hnot (hall m hmem (Bool.not_eq_false _ ▸ hexp))

/-- **A completed purge is complete exactly when everything expired fits
in one batch**: for every archive, every positive retention and every
time of run, whichever rows PostgreSQL chooses. -/
theorem retention_complete_iff (hkeys : s.db.Keys) (hdays : 0 < call.retentionDays)
    (hcutoff : call.cutoff = some cutoff) :
    (∃ s', Retains base call s s') ∧ ∀ s', Retains base call s s' →
      (PurgeComplete cutoff s s' ↔ s.db.messages.countP (isExpired cutoff) ≤ batchLimit) := by
  obtain ⟨batch, hbatch, -⟩ := exists_batch hkeys cutoff fun _ => true
  refine ⟨⟨_, (retains_iff hdays hcutoff).mpr ⟨batch, hbatch, rfl⟩⟩, fun s' hs' => ?_⟩
  obtain ⟨batch, hbatch, rfl⟩ := (retains_iff hdays hcutoff).mp hs'
  exact purgeComplete_iff hkeys hbatch

/-- One expired message is purged with its body. -/
theorem retention_complete_plain :
    ∃ s', Retains "messages" (oneDayCall secondNight) (plainArchive false) s'
      ∧ PurgeComplete secondNightCutoff (plainArchive false) s' := by
  have hcutoff : (oneDayCall secondNight).cutoff = some secondNightCutoff := by decide +kernel
  obtain ⟨⟨s', hs'⟩, hiff⟩ := @retention_complete_iff "messages" (oneDayCall secondNight)
    secondNightCutoff (plainArchive false) (plainArchive_keys false) (by decide) hcutoff
  exact ⟨s', hs', (hiff s' hs').mpr (by decide +kernel)⟩

/-! ### One message too many -/

/-- An archive of `n` messages signed at one instant. -/
def crowdedArchive (n : Nat) : Stores :=
  { Stores.init with
    db := { Db.empty with
      messages := (List.range n).map fun i => { plainRow with id := i } } }

theorem crowdedArchive_keys (n : Nat) : (crowdedArchive n).db.Keys := by
  refine ⟨?_, List.nodup_nil, List.nodup_nil, List.nodup_nil, List.nodup_nil⟩
  simp only [crowdedArchive, List.map_map]
  refine List.nodup_range.map fun i j hij => ?_
  exact congrArg Prod.fst hij

theorem crowdedArchive_expired (n : Nat) :
    (crowdedArchive n).db.messages.countP (isExpired secondNightCutoff) = n := by
  have hexp : isExpired secondNightCutoff plainRow = true := by decide +kernel
  have hall : ∀ m ∈ (crowdedArchive n).db.messages, isExpired secondNightCutoff m = true := by
    intro m hm
    obtain ⟨i, -, rfl⟩ := List.mem_map.mp hm
    exact hexp
  rw [List.countP_eq_length.mpr hall]
  simp [crowdedArchive]

/-- A completed run over 5001 expired messages leaves one behind. -/
theorem retention_leaves_expired :
    (crowdedArchive 5001).db.Keys
      ∧ (∃ s', Retains "messages" (oneDayCall secondNight) (crowdedArchive 5001) s')
      ∧ ∀ s', Retains "messages" (oneDayCall secondNight) (crowdedArchive 5001) s' →
          ∃ m ∈ s'.db.messages, m.legalHold = false
            ∧ m.signedAt.before secondNightCutoff = true := by
  have hcutoff : (oneDayCall secondNight).cutoff = some secondNightCutoff := by decide +kernel
  have hkeys := crowdedArchive_keys 5001
  obtain ⟨batch, hbatch, -⟩ := exists_batch hkeys secondNightCutoff fun _ => true
  refine ⟨hkeys, ⟨_, (retains_iff (by decide) hcutoff).mpr ⟨batch, hbatch, rfl⟩⟩, fun s' hs' => ?_⟩
  obtain ⟨batch, hbatch, rfl⟩ := (retains_iff (by decide) hcutoff).mp hs'
  have hmany : batchLimit
      < (crowdedArchive 5001).db.messages.countP (isExpired secondNightCutoff) := by
    rw [crowdedArchive_expired]
    decide
  obtain ⟨m, hm, hexp, hnot⟩ := exists_left hkeys hbatch hmany
  rw [isExpired, Bool.and_eq_true, Bool.not_eq_true'] at hexp
  exact ⟨m, (mem_retained hkeys hbatch).mpr ⟨hm, hnot⟩, hexp.2, hexp.1⟩

end MailArchiver

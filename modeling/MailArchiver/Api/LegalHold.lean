import MailArchiver.Common.Archive

/-!
# Api — LegalHold

`set_legal_hold` of `api/main.py`: a request reads the message, sets its
flag and commits. Nothing is written when the flag already had the value
asked for when it was read; an `UPDATE` that finds its row gone raises.
The hold it then sets on the blob changes nothing in the store modelled
here, and neither does the audit row.
-/

namespace MailArchiver

inductive HoldStatus where
  | pending
  | answered
  | failed
  deriving DecidableEq, Repr

/-- A request that has read its message. -/
structure HoldRequest where
  /-- The row as it was read. -/
  row : Message
  /-- `req.hold`. -/
  hold : Bool
  status : HoldStatus
  deriving DecidableEq, Repr

/-- `UPDATE messages SET legal_hold = … WHERE id = … AND signed_at = …`. -/
def Db.setHold (db : Db) (row : Message) (hold : Bool) : Db :=
  { db with
    messages := db.messages.map fun m =>
      if m.id = row.id ∧ m.signedAt = row.signedAt then { m with legalHold := hold } else m }

/-- The commit of a request; it waits while the row is locked. -/
def HoldRequest.commit (s : Stores) (r : HoldRequest) : Option (Stores × HoldRequest) :=
  if r.status = .pending then
    if r.row.legalHold = r.hold then some (s, { r with status := .answered })
    else if s.locks.messages r.row.id = none then
      if s.db.messages.any fun m => m.id = r.row.id ∧ m.signedAt = r.row.signedAt then
        some ({ s with db := s.db.setHold r.row r.hold }, { r with status := .answered })
      else some (s, { r with status := .failed })
    else none
  else none

/-- A commit changes one flag, or nothing. -/
theorem HoldRequest.commit_cases {s s' : Stores} {r r' : HoldRequest}
    (h : r.commit s = some (s', r')) : s' = s ∨ s' = { s with db := s.db.setHold r.row r.hold } := by
  unfold HoldRequest.commit at h
  split at h
  · split at h
    · cases h
      exact .inl rfl
    · split at h
      · split at h
        · cases h
          exact .inr rfl
        · cases h
          exact .inl rfl
      · cases h
  · cases h

/-- A request stays about the row it read. -/
theorem HoldRequest.commit_row {s s' : Stores} {r r' : HoldRequest}
    (h : r.commit s = some (s', r')) : r'.row = r.row := by
  unfold HoldRequest.commit at h
  split at h
  · split at h
    · cases h
      rfl
    · split at h
      · split at h <;> cases h <;> rfl
      · cases h
  · cases h

/-- The same row of `messages`, whatever its hold. -/
def Message.SameArchive (m m' : Message) : Prop := { m with legalHold := m'.legalHold } = m'

namespace Message.SameArchive

variable {m m' : Message}

theorem eq (h : m.SameArchive m') : { m with legalHold := m'.legalHold } = m' := h

theorem id (h : m.SameArchive m') : m.id = m'.id := by rw [← h.eq]

theorem signedAt (h : m.SameArchive m') : m.signedAt = m'.signedAt := by rw [← h.eq]

theorem archiveHash (h : m.SameArchive m') : m.archiveHash = m'.archiveHash := by rw [← h.eq]

theorem bodySha256 (h : m.SameArchive m') : m.bodySha256 = m'.bodySha256 := by rw [← h.eq]

theorem sizeBytes (h : m.SameArchive m') : m.sizeBytes = m'.sizeBytes := by rw [← h.eq]

theorem dedup (h : m.SameArchive m') : m.dedup = m'.dedup := by rw [← h.eq]; rfl

end Message.SameArchive

theorem Message.SameArchive.refl (m : Message) : m.SameArchive m := rfl

theorem Message.SameArchive.trans {m m' m'' : Message} (h : m.SameArchive m')
    (h' : m'.SameArchive m'') : m.SameArchive m'' := by
  unfold Message.SameArchive at *
  rw [← h', ← h]

theorem Message.SameArchive.symm {m m' : Message} (h : m.SameArchive m') : m'.SameArchive m := by
  unfold Message.SameArchive at *
  rw [← h]

/-- The rows after an update are the rows before it. -/
theorem exists_of_mem_setHold {db : Db} {row : Message} {hold : Bool} {m : Message}
    (h : m ∈ (db.setHold row hold).messages) : ∃ m₀ ∈ db.messages, m.SameArchive m₀ := by
  obtain ⟨m₀, hm₀, rfl⟩ := List.mem_map.mp h
  refine ⟨m₀, hm₀, ?_⟩
  split <;> rfl

theorem exists_mem_setHold {db : Db} (row : Message) (hold : Bool) {m : Message}
    (h : m ∈ db.messages) : ∃ m' ∈ (db.setHold row hold).messages, m'.SameArchive m := by
  refine ⟨_, List.mem_map_of_mem h, ?_⟩
  split <;> rfl

/-- What a row is besides its hold does not change. -/
theorem setHold_map {α : Type} (f : Message → α) (hf : ∀ m m', m.SameArchive m' → f m = f m')
    (db : Db) (row : Message) (hold : Bool) :
    (db.setHold row hold).messages.map f = db.messages.map f := by
  rw [Db.setHold, List.map_map]
  refine List.map_congr_left fun m _ => hf _ _ ?_
  dsimp only
  split <;> rfl

end MailArchiver

import MailArchiver.Common.Time
import MailArchiver.Lib.Transition
import Mathlib.Data.List.Induction

/-!
# Common — Schema

The partitioning of `messages` in `mailarchiver_common/models.py`.
`ensure_schema` runs when a service starts and creates the partition of
the month and of the two that follow; what is archived outside of every
partition goes to `messages_default`. PostgreSQL refuses a partition whose
range has rows there. Every date is read in UTC, the time zone of the
sessions.

Of a partition only its name and its range are kept, of the default
partition the `signed_at` of its rows. The tables created beside
`messages` play no part here.
-/

namespace MailArchiver

open Transition

/-! ## Months -/

/-- `date + interval 'k month'`: the day is clamped to the last of the
month. -/
def Date.addMonths (d : Date) (k : Nat) : Date :=
  let months := d.month - 1 + k
  let year := d.year + months / 12
  let month := months % 12 + 1
  { year := year, month := month, day := min d.day (daysInMonth year month) }

/-- `date_trunc('month', d)::date`. -/
def Date.truncMonth (d : Date) : Date := { d with day := 1 }

/-- The months counted from the year 0. -/
def Date.monthIndex (d : Date) : Nat := 12 * d.year + (d.month - 1)

def DateTime.monthIndex (t : DateTime) : Nat := t.date.monthIndex

/-- A day of the calendar, as far as months go. -/
structure Date.Proper (d : Date) : Prop where
  month : 1 ≤ d.month ∧ d.month ≤ 12
  day : 1 ≤ d.day

theorem DateTime.proper (t : DateTime) : t.date.Proper := by
  obtain ⟨-, -, h₁, h₂, h₃, -⟩ := t.valid
  exact ⟨⟨h₁, h₂⟩, h₃⟩

theorem Date.Proper.addMonths {d : Date} (h : d.Proper) (k : Nat) : (d.addMonths k).Proper := by
  have hdays := one_le_daysInMonth (d.year + (d.month - 1 + k) / 12) ((d.month - 1 + k) % 12 + 1)
  obtain ⟨-, hday⟩ := h
  constructor
  · simp only [Date.addMonths]
    omega
  · simp only [Date.addMonths]
    omega

theorem monthIndex_addMonths (d : Date) (k : Nat) :
    (d.addMonths k).monthIndex = d.monthIndex + k := by
  simp only [Date.addMonths, Date.monthIndex]
  omega

/-- Time that does not go back does not go back by months. -/
theorem monthIndex_le {a b : DateTime} (h : b.before a = false) : a.monthIndex ≤ b.monthIndex := by
  obtain ⟨⟨ha₁, ha₂⟩, -⟩ := a.proper
  obtain ⟨⟨hb₁, hb₂⟩, -⟩ := b.proper
  have hdate : b.date.before a.date = false := by
    rw [before_eq, Bool.or_eq_false_iff] at h
    exact h.1
  simp only [Date.before, fieldsBefore, Bool.or_eq_false_iff, Bool.and_eq_false_iff,
    decide_eq_false_iff_not] at hdate
  simp only [DateTime.monthIndex, Date.monthIndex]
  omega

/-! ## Partitions -/

/-- `PARTITION OF messages FOR VALUES FROM (lo) TO (hi)`. -/
structure Partition where
  name : String
  lo : Date
  hi : Date
  deriving DecidableEq, Repr

/-- Whether a row signed then belongs to the partition. -/
def Partition.covers (p : Partition) (signedAt : DateTime) : Bool :=
  !signedAt.date.before p.lo && signedAt.date.before p.hi

/-- The partition `ensure_message_partition(p_month)` creates. -/
def monthPartition (pMonth : Date) : Partition :=
  let s := pMonth.truncMonth
  { name := "messages_" ++ (zeroPad 4 s.year ++ ("_" ++ zeroPad 2 s.month))
    lo := s
    hi := s.addMonths 1 }

theorem covers_monthPartition {d : Date} (hd : d.Proper) (t : DateTime) :
    (monthPartition d).covers t = true ↔ t.monthIndex = d.monthIndex := by
  obtain ⟨⟨hd₁, hd₂⟩, -⟩ := hd
  obtain ⟨⟨ht₁, ht₂⟩, ht₃⟩ := t.proper
  have hlast : min 1 (daysInMonth (d.year + (d.month - 1 + 1) / 12)
      ((d.month - 1 + 1) % 12 + 1)) = 1 := Nat.min_eq_left (one_le_daysInMonth ..)
  simp only [Partition.covers, monthPartition, Date.truncMonth, Date.addMonths, hlast,
    DateTime.monthIndex, Date.monthIndex, Date.before, fieldsBefore, Bool.and_eq_true,
    Bool.not_eq_true', Bool.or_eq_false_iff, Bool.and_eq_false_iff, Bool.or_eq_true,
    decide_eq_false_iff_not, decide_eq_true_eq, Bool.and_false, Bool.or_false]
  omega

theorem monthPartition_congr {d d' : Date} (hd : d.Proper) (hd' : d'.Proper)
    (h : d.monthIndex = d'.monthIndex) : monthPartition d = monthPartition d' := by
  obtain ⟨⟨h₁, h₂⟩, -⟩ := hd
  obtain ⟨⟨h₁', h₂'⟩, -⟩ := hd'
  simp only [Date.monthIndex] at h
  have hyear : d.year = d'.year := by omega
  have hmonth : d.month = d'.month := by omega
  simp [monthPartition, Date.truncMonth, hyear, hmonth]

/-- Partitions are named by their month. -/
theorem monthPartition_name_inj {d d' : Date} (hd : d.Proper) (hd' : d'.Proper) :
    (monthPartition d).name = (monthPartition d').name ↔ d.monthIndex = d'.monthIndex := by
  obtain ⟨⟨h₁, h₂⟩, hday⟩ := hd
  obtain ⟨⟨h₁', h₂'⟩, hday'⟩ := hd'
  have hwidth := @length_zeroPad 2 d.month (by decide) (by omega)
  have hwidth' := @length_zeroPad 2 d'.month (by decide) (by omega)
  constructor
  · intro h
    have hchars := congrArg String.toList ((String.append_right_inj _).mp h)
    rw [String.toList_append, String.toList_append, String.toList_append,
      String.toList_append] at hchars
    -- the month takes two digits in both, so the years line up
    obtain ⟨hyear, hmonth⟩ := List.append_inj' hchars (by simp [Date.truncMonth, hwidth, hwidth'])
    have hyear' := zeroPad_inj.mp (String.toList_inj.mp hyear)
    have hmonth' := zeroPad_inj.mp (String.toList_inj.mp (List.append_cancel_left hmonth))
    simp only [Date.truncMonth] at hyear' hmonth'
    rw [Date.monthIndex, Date.monthIndex, hyear', hmonth']
  · intro h
    rw [monthPartition_congr ⟨⟨h₁, h₂⟩, hday⟩ ⟨⟨h₁', h₂'⟩, hday'⟩ h]

/-! ## The schema over time -/

structure Schema where
  /-- `messages` and `messages_default` exist. -/
  created : Bool
  partitions : List Partition
  /-- `signed_at` of the rows of `messages_default`. -/
  defaultRows : List DateTime
  deriving DecidableEq, Repr

namespace Schema

def empty : Schema := ⟨false, [], []⟩

/-- `ensure_message_partition(p_month)`: nothing when a table has the name,
an error when rows of the range are in the default partition. -/
def ensureMessagePartition (s : Schema) (pMonth : Date) : Option Schema :=
  let part := monthPartition pMonth
  if s.partitions.any fun p => p.name = part.name then some s
  else if s.defaultRows.any part.covers then none
  else some { s with partitions := s.partitions ++ [part] }

/-- `ensure_schema(engine)` at the time `now`, one transaction: an error
leaves everything as it was. -/
def ensureSchema (s : Schema) (now : DateTime) : Option Schema :=
  [0, 1, 2].foldlM (fun s offset => s.ensureMessagePartition (now.date.addMonths offset))
    { s with created := true }

/-- A row is archived. -/
def insertMessage (s : Schema) (signedAt : DateTime) : Option Schema :=
  if s.created then
    if s.partitions.any (·.covers signedAt) then some s
    else some { s with defaultRows := s.defaultRows ++ [signedAt] }
  else none

/-- What happens to the schema. -/
inductive Event where
  /-- A service starts. -/
  | start (now : DateTime)
  /-- A mail is archived, signed now. -/
  | archive (now : DateTime)
  deriving DecidableEq, Repr

def Event.time : Event → DateTime
  | .start now => now
  | .archive now => now

def step (s : Schema) : Event → Option Schema
  | .start now => s.ensureSchema now
  | .archive now => s.insertMessage now

/-! ## What an `ensure_message_partition` does -/

/-- The month has its partition. -/
def Has (s : Schema) (d : Date) : Prop := monthPartition d ∈ s.partitions

/-- Every partition was made by `ensure_message_partition`. -/
def Monthly (s : Schema) : Prop := ∀ p ∈ s.partitions, ∃ d : Date, d.Proper ∧ p = monthPartition d

/-- Rows of the month are in the default partition. -/
def Stray (s : Schema) (i : Nat) : Prop := ∃ t ∈ s.defaultRows, t.monthIndex = i

theorem Monthly.created {s : Schema} (h : s.Monthly) :
    ({ s with created := true } : Schema).Monthly := h

theorem Monthly.empty : Schema.empty.Monthly := fun _ hp => absurd hp List.not_mem_nil

/-- `IF NOT EXISTS` goes by the name, which stands for the month. -/
theorem any_name_iff {s : Schema} (h : s.Monthly) {d : Date} (hd : d.Proper) :
    (s.partitions.any fun p => p.name = (monthPartition d).name) = true ↔ s.Has d := by
  rw [List.any_eq_true]
  constructor
  · rintro ⟨p, hp, hname⟩
    obtain ⟨d', hd', rfl⟩ := h p hp
    have hmonth := (monthPartition_name_inj hd' hd).mp (of_decide_eq_true hname)
    rw [Has, ← monthPartition_congr hd' hd hmonth]
    exact hp
  · intro hp
    exact ⟨_, hp, decide_eq_true rfl⟩

theorem any_covers_iff {s : Schema} {d : Date} (hd : d.Proper) :
    s.defaultRows.any (monthPartition d).covers = true ↔ s.Stray d.monthIndex := by
  simp only [List.any_eq_true, covers_monthPartition hd, Stray]

/-- It fails exactly when the month has no partition and stray rows. -/
theorem ensureMessagePartition_isSome {s : Schema} (h : s.Monthly) {d : Date} (hd : d.Proper) :
    (s.ensureMessagePartition d).isSome = true ↔ s.Has d ∨ ¬s.Stray d.monthIndex := by
  rw [← any_name_iff h hd, ← any_covers_iff hd, ensureMessagePartition]
  split
  · simp [*]
  · split <;> simp [*]

/-- When it succeeds the month has its partition, the others are as they
were, and so is the default partition. -/
theorem of_ensureMessagePartition {s s' : Schema} (h : s.Monthly) {d : Date} (hd : d.Proper)
    (hs : s.ensureMessagePartition d = some s') :
    s'.Monthly ∧ s'.Has d ∧ (∀ p ∈ s.partitions, p ∈ s'.partitions)
      ∧ (∀ p ∈ s'.partitions, p ∈ s.partitions ∨ p = monthPartition d)
      ∧ s'.defaultRows = s.defaultRows ∧ s'.created = s.created := by
  simp only [ensureMessagePartition] at hs
  split at hs
  · rename_i hname
    cases hs
    exact ⟨h, (any_name_iff h hd).mp hname, fun p hp => hp, fun p hp => .inl hp, rfl, rfl⟩
  · split at hs <;> cases hs
    refine ⟨?_, List.mem_append_right _ (List.mem_singleton_self _),
      fun _ hp => List.mem_append_left _ hp, ?_, rfl, rfl⟩
    · intro p hp
      rcases List.mem_append.mp hp with hp | hp
      · exact h p hp
      · exact ⟨d, hd, List.mem_singleton.mp hp⟩
    · intro p hp
      rcases List.mem_append.mp hp with hp | hp
      · exact .inl hp
      · exact .inr (List.mem_singleton.mp hp)

/-! ## What an `ensure_schema` does -/

theorem ensureSchema_eq_some {s s' : Schema} {now : DateTime} : s.ensureSchema now = some s' ↔
    ∃ s₁ s₂, { s with created := true }.ensureMessagePartition (now.date.addMonths 0) = some s₁
      ∧ s₁.ensureMessagePartition (now.date.addMonths 1) = some s₂
      ∧ s₂.ensureMessagePartition (now.date.addMonths 2) = some s' := by
  simp [ensureSchema, List.foldlM, Option.bind_eq_some_iff]

theorem of_ensureSchema {s s' : Schema} (h : s.Monthly) {now : DateTime}
    (hs : s.ensureSchema now = some s') :
    s'.Monthly ∧ (∀ k ≤ 2, s'.Has (now.date.addMonths k))
      ∧ (∀ p ∈ s.partitions, p ∈ s'.partitions)
      ∧ (∀ p ∈ s'.partitions, p ∈ s.partitions ∨ ∃ k ≤ 2, p = monthPartition (now.date.addMonths k))
      ∧ s'.defaultRows = s.defaultRows ∧ s'.created = true := by
  obtain ⟨s₁, s₂, h₀, h₁, h₂⟩ := ensureSchema_eq_some.mp hs
  obtain ⟨hm₁, hhas₁, hkeep₁, hnew₁, hrows₁, hcreated₁⟩ :=
    of_ensureMessagePartition h.created (now.proper.addMonths 0) h₀
  obtain ⟨hm₂, hhas₂, hkeep₂, hnew₂, hrows₂, hcreated₂⟩ :=
    of_ensureMessagePartition hm₁ (now.proper.addMonths 1) h₁
  obtain ⟨hm₃, hhas₃, hkeep₃, hnew₃, hrows₃, hcreated₃⟩ :=
    of_ensureMessagePartition hm₂ (now.proper.addMonths 2) h₂
  refine ⟨hm₃, ?_, fun p hp => hkeep₃ p (hkeep₂ p (hkeep₁ p hp)), ?_, ?_, ?_⟩
  · intro k hk
    rcases (by omega : k = 0 ∨ k = 1 ∨ k = 2) with rfl | rfl | rfl
    · exact hkeep₃ _ (hkeep₂ _ hhas₁)
    · exact hkeep₃ _ hhas₂
    · exact hhas₃
  · intro p hp
    rcases hnew₃ p hp with hp | rfl
    · rcases hnew₂ p hp with hp | rfl
      · rcases hnew₁ p hp with hp | rfl
        · exact .inl hp
        · exact .inr ⟨0, by omega, rfl⟩
      · exact .inr ⟨1, by omega, rfl⟩
    · exact .inr ⟨2, by omega, rfl⟩
  · rw [hrows₃, hrows₂, hrows₁]
  · rw [hcreated₃, hcreated₂, hcreated₁]

/-- When no row is from the future, `ensure_schema` fails exactly when the
current month has no partition and stray rows. -/
theorem ensureSchema_isSome {s : Schema} (h : s.Monthly) {now : DateTime}
    (hrows : ∀ t ∈ s.defaultRows, t.monthIndex ≤ now.monthIndex) :
    (s.ensureSchema now).isSome = true ↔ s.Has now.date ∨ ¬s.Stray now.monthIndex := by
  have hmonth : monthPartition (now.date.addMonths 0) = monthPartition now.date :=
    monthPartition_congr (now.proper.addMonths 0) now.proper (monthIndex_addMonths _ 0)
  have hfirst : ({ s with created := true }.ensureMessagePartition
      (now.date.addMonths 0)).isSome = true ↔ s.Has now.date ∨ ¬s.Stray now.monthIndex := by
    rw [ensureMessagePartition_isSome h.created (now.proper.addMonths 0), Has, hmonth,
      monthIndex_addMonths]
    rfl
  -- the months to come have no rows
  have hlater : ∀ k, 0 < k → ¬s.Stray (now.date.addMonths k).monthIndex := by
    rintro k hk ⟨t, ht, heq⟩
    have hle := hrows t ht
    rw [monthIndex_addMonths] at heq
    simp only [DateTime.monthIndex] at hle heq
    omega
  rw [← hfirst]
  constructor
  · intro hs
    obtain ⟨s', hs'⟩ := Option.isSome_iff_exists.mp hs
    obtain ⟨s₁, -, h₀, -⟩ := ensureSchema_eq_some.mp hs'
    rw [h₀]
    rfl
  · intro h₀
    obtain ⟨s₁, h₀⟩ := Option.isSome_iff_exists.mp h₀
    obtain ⟨hm₁, -, -, -, hrows₁, -⟩ := of_ensureMessagePartition h.created (now.proper.addMonths 0) h₀
    have h₁ := (ensureMessagePartition_isSome hm₁ (now.proper.addMonths 1)).mpr
      (.inr (by rw [Stray, hrows₁]; exact hlater 1 (by omega)))
    obtain ⟨s₂, h₁⟩ := Option.isSome_iff_exists.mp h₁
    obtain ⟨hm₂, -, -, -, hrows₂, -⟩ := of_ensureMessagePartition hm₁ (now.proper.addMonths 1) h₁
    have h₂ := (ensureMessagePartition_isSome hm₂ (now.proper.addMonths 2)).mpr
      (.inr (by rw [Stray, hrows₂, hrows₁]; exact hlater 2 (by omega)))
    obtain ⟨s₃, h₂⟩ := Option.isSome_iff_exists.mp h₂
    rw [ensureSchema_eq_some.mpr ⟨s₁, s₂, h₀, h₁, h₂⟩]
    rfl

/-! ## Histories -/

/-- Time does not go back, and nothing is archived before the first start. -/
structure History (es : List Event) : Prop where
  chronological : (es.map Event.time).Pairwise fun a b => b.before a = false
  started : ∀ e back, es = e :: back → ∃ now, e = .start now

/-- What the events up to now have made of the schema. -/
structure After (front : List Event) (s : Schema) : Prop where
  monthly : s.Monthly
  created : front ≠ [] → s.created = true
  rows : ∀ t ∈ s.defaultRows, .archive t ∈ front
  archived : ∀ t, .archive t ∈ front → t ∈ s.defaultRows ∨ s.Has t.date
  has : ∀ d : Date, d.Proper → (s.Has d ↔
    ∃ t, .start t ∈ front ∧ t.monthIndex ≤ d.monthIndex ∧ d.monthIndex ≤ t.monthIndex + 2)

theorem After.empty : After [] Schema.empty where
  monthly := .empty
  created := fun h => absurd rfl h
  rows := fun _ ht => absurd ht List.not_mem_nil
  archived := fun _ ht => absurd ht List.not_mem_nil
  has := by simp [Has, Schema.empty]

theorem After.start {front : List Event} {s s' : Schema} (h : After front s) {now : DateTime}
    (hs : s.ensureSchema now = some s') : After (front ++ [.start now]) s' := by
  obtain ⟨hmonthly, hhas, hkeep, hnew, hrows, hcreated⟩ := of_ensureSchema h.monthly hs
  refine ⟨hmonthly, fun _ => hcreated, ?_, ?_, ?_⟩
  · intro t ht
    rw [hrows] at ht
    exact List.mem_append_left _ (h.rows t ht)
  · intro t ht
    have ht : .archive t ∈ front := by simpa using ht
    rw [hrows]
    exact (h.archived t ht).imp id (hkeep _)
  · intro d hd
    constructor
    · intro hp
      rcases hnew _ hp with hp | ⟨k, hk, heq⟩
      · obtain ⟨t, ht, hmonths⟩ := (h.has d hd).mp hp
        exact ⟨t, List.mem_append_left _ ht, hmonths⟩
      · have hmonth := (monthPartition_name_inj hd (now.proper.addMonths k)).mp (by rw [heq])
        rw [monthIndex_addMonths] at hmonth
        refine ⟨now, List.mem_append_right _ (List.mem_singleton_self _), ?_⟩
        simp only [DateTime.monthIndex]
        omega
    · rintro ⟨t, ht, hmonths⟩
      rcases List.mem_append.mp ht with ht | ht
      · exact hkeep _ ((h.has d hd).mpr ⟨t, ht, hmonths⟩)
      · obtain rfl : t = now := by simpa using ht
        obtain ⟨k, hk⟩ := Nat.exists_eq_add_of_le hmonths.1
        have hmonth : (t.date.addMonths k).monthIndex = d.monthIndex := by
          rw [monthIndex_addMonths, hk]
          rfl
        rw [Has, ← monthPartition_congr (t.proper.addMonths k) hd hmonth]
        exact hhas k (by omega)

theorem After.archive {front : List Event} {s s' : Schema} (h : After front s) {now : DateTime}
    (hs : s.insertMessage now = some s') : After (front ++ [.archive now]) s' := by
  -- the partition that covers the day is the one of its month
  have hcovered : (s.partitions.any (·.covers now)) = true → s.Has now.date := by
    intro hany
    obtain ⟨p, hp, hcovers⟩ := List.any_eq_true.mp hany
    obtain ⟨d, hd, rfl⟩ := h.monthly p hp
    rw [Has, monthPartition_congr now.proper hd ((covers_monthPartition hd now).mp hcovers)]
    exact hp
  have hhas : ∀ d : Date, d.Proper → (s.Has d ↔ ∃ t, .start t ∈ front ++ [.archive now]
      ∧ t.monthIndex ≤ d.monthIndex ∧ d.monthIndex ≤ t.monthIndex + 2) := by
    intro d hd
    rw [h.has d hd]
    simp
  unfold insertMessage at hs
  split at hs
  · rename_i hcreated
    split at hs <;> cases hs
    · rename_i hany
      refine ⟨h.monthly, fun _ => hcreated, fun t ht => List.mem_append_left _ (h.rows t ht),
        ?_, hhas⟩
      intro t ht
      rcases List.mem_append.mp ht with ht | ht
      · exact h.archived t ht
      · obtain rfl : t = now := by simpa using ht
        exact .inr (hcovered hany)
    · refine ⟨h.monthly, fun _ => hcreated, ?_, ?_, hhas⟩
      · intro t ht
        rcases List.mem_append.mp ht with ht | ht
        · exact List.mem_append_left _ (h.rows t ht)
        · rw [List.mem_singleton.mp ht]
          exact List.mem_append_right _ (List.mem_singleton_self _)
      · intro t ht
        rcases List.mem_append.mp ht with ht | ht
        · exact (h.archived t ht).imp (List.mem_append_left _) id
        · obtain rfl : t = now := by simpa using ht
          exact .inl (List.mem_append_right _ (List.mem_singleton_self _))
  · cases hs

theorem After.step {front : List Event} {s s' : Schema} (h : After front s) {e : Event}
    (hs : s.step e = some s') : After (front ++ [e]) s' := by
  cases e with
  | start now => exact h.start hs
  | archive now => exact h.archive hs

theorem run_snoc {s s' : Schema} {front : List Event} {e : Event} :
    run step s (front ++ [e]) = some s' ↔ ∃ u, run step s front = some u ∧ u.step e = some s' := by
  rw [run_append]
  simp [run_cons_eq_some]

theorem after_run {front : List Event} {s : Schema} (h : run step empty front = some s) :
    After front s := by
  induction front using List.reverseRecOn generalizing s with
  | nil =>
      cases h
      exact .empty
  | append_singleton front e ih =>
      obtain ⟨u, hu, hs⟩ := run_snoc.mp h
      exact (ih hu).step hs

/-- A start succeeds when the month has its partition already, or nothing
was archived in it before. -/
def Prepared (front : List Event) (now : DateTime) : Prop :=
  (∃ t, .start t ∈ front ∧ now.monthIndex ≤ t.monthIndex + 2)
    ∨ ∀ t, .archive t ∈ front → t.monthIndex ≠ now.monthIndex

/-- The start that comes next succeeds exactly when the history has
prepared it. -/
theorem start_isSome_iff {front : List Event} {s : Schema} (h : After front s) {now : DateTime}
    (hpast : ∀ e ∈ front, e.time.monthIndex ≤ now.monthIndex) :
    (s.ensureSchema now).isSome = true ↔ Prepared front now := by
  rw [ensureSchema_isSome h.monthly fun t ht => hpast _ (h.rows t ht), h.has _ now.proper,
    Prepared]
  have hstart : (∃ t, .start t ∈ front ∧ t.monthIndex ≤ now.date.monthIndex
      ∧ now.date.monthIndex ≤ t.monthIndex + 2)
      ↔ ∃ t, .start t ∈ front ∧ now.monthIndex ≤ t.monthIndex + 2 :=
    exists_congr fun t => and_congr_right fun ht => and_iff_right (hpast _ ht)
  rw [hstart]
  by_cases hhas : ∃ t, .start t ∈ front ∧ now.monthIndex ≤ t.monthIndex + 2
  · simp [hhas]
  · -- without its partition, what the month archived lies in the default one
    rw [or_iff_right hhas, or_iff_right hhas]
    constructor
    · intro hstray t ht hmonth
      rcases h.archived t ht with hrow | hpart
      · exact hstray ⟨t, hrow, hmonth⟩
      · refine hhas (hstart.mp ((h.has _ now.proper).mp ?_))
        rw [Has, ← monthPartition_congr t.proper now.proper hmonth]
        exact hpart
    · rintro hnone ⟨t, hrow, hmonth⟩
      exact hnone t (h.rows t hrow) hmonth

/-- Every `ensure_schema` of the history succeeds, and leaves partitions
for the month and the next two. -/
def AlwaysStarts (es : List Event) : Prop :=
  ∀ front now back, es = front ++ .start now :: back →
    ∃ s s', run step empty front = some s ∧ s.ensureSchema now = some s'
      ∧ ∀ k ≤ 2, s'.Has (now.date.addMonths k)

theorem History.past {es front back : List Event} {e : Event} (h : History es)
    (hes : es = front ++ e :: back) : ∀ e' ∈ front, e'.time.monthIndex ≤ e.time.monthIndex := by
  intro e' he'
  have hpairs := h.chronological
  rw [hes, List.map_append, List.pairwise_append] at hpairs
  exact monthIndex_le (hpairs.2.2 _ (List.mem_map_of_mem he') _ (by simp))

/-- Up to a start that fails, everything succeeds. -/
theorem History.run_isSome {es : List Event} (h : History es)
    (hprepared : ∀ front now back, es = front ++ .start now :: back → Prepared front now)
    {front back : List Event} (hes : es = front ++ back) :
    ∃ s, run step empty front = some s := by
  induction front using List.reverseRecOn generalizing back with
  | nil => exact ⟨_, rfl⟩
  | append_singleton front e ih =>
      rw [List.append_assoc] at hes
      obtain ⟨s, hrun⟩ := ih hes
      have hafter := after_run hrun
      suffices hstep : (s.step e).isSome = true by
        obtain ⟨s', hs'⟩ := Option.isSome_iff_exists.mp hstep
        exact ⟨s', run_snoc.mpr ⟨s, hrun, hs'⟩⟩
      cases e with
      | start now =>
          exact (start_isSome_iff hafter (h.past hes)).mpr (hprepared front now back hes)
      | archive now =>
          have hne : front ≠ [] := by
            rintro rfl
            obtain ⟨t, ht⟩ := h.started _ _ hes
            cases ht
          simp only [step, insertMessage, hafter.created hne, if_true]
          split <;> rfl

/-- **Schema initialisation succeeds exactly when each start was
prepared**: for every history of starts and archived messages, every
`ensure_schema` succeeds and leaves the partitions of the month and the
next two iff each start either comes at most two months after an earlier
one, or in a month in which nothing was archived before it. -/
theorem always_starts_iff {es : List Event} (h : History es) :
    AlwaysStarts es ↔
      ∀ front now back, es = front ++ .start now :: back → Prepared front now := by
  constructor
  · intro hall front now back hes
    obtain ⟨s, s', hrun, hs', -⟩ := hall front now back hes
    have hsome : (s.ensureSchema now).isSome = true := by simp [hs']
    exact (start_isSome_iff (after_run hrun) (h.past hes)).mp hsome
  · intro hprepared front now back hes
    obtain ⟨s, hrun⟩ := h.run_isSome hprepared hes
    have hsome := (start_isSome_iff (after_run hrun) (h.past hes)).mpr
      (hprepared front now back hes)
    obtain ⟨s', hs'⟩ := Option.isSome_iff_exists.mp hsome
    exact ⟨s, s', hrun, hs', (of_ensureSchema (after_run hrun).monthly hs').2.1⟩

/-! ### A service that runs for months -/

/-- A time of the year 2026. -/
def sampleMonth (month : Nat) (h : 1 ≤ month ∧ month ≤ 12) : DateTime :=
  { sampleTime with
    month := month
    day := 1
    valid := by
      have hdays := one_le_daysInMonth 2026 month
      simp [sampleTime]
      omega }

/-- Started in March; a mail of June finds no partition; the restart in
June finds the mail. -/
def longRun : List Event :=
  [.start (sampleMonth 3 (by decide)), .archive (sampleMonth 6 (by decide)),
    .start (sampleMonth 6 (by decide))]

theorem restart_fails : History longRun ∧ ¬AlwaysStarts longRun := by
  refine ⟨⟨by decide, fun e back h => ?_⟩, fun h => ?_⟩
  · cases h
    exact ⟨_, rfl⟩
  · obtain ⟨s, s', hrun, hs', -⟩ := h [_, _] _ [] rfl
    have hnone : (run step empty longRun).isSome = false := by decide +kernel
    have hstep : s.step (.start (sampleMonth 6 (by decide))) = some s' := hs'
    have hend : run step empty longRun = some s' := run_snoc.mpr ⟨s, hrun, hstep⟩
    rw [hend] at hnone
    cases hnone

/-- The same service, restarted in May. -/
theorem restart_succeeds : AlwaysStarts
    [.start (sampleMonth 3 (by decide)), .start (sampleMonth 5 (by decide)),
      .archive (sampleMonth 6 (by decide)), .start (sampleMonth 6 (by decide))] := by
  refine (always_starts_iff ⟨by decide, fun e back h => ?_⟩).mpr ?_
  · cases h
    exact ⟨_, rfl⟩
  · intro front now back h
    rcases front with _ | ⟨e₁, _ | ⟨e₂, _ | ⟨e₃, _ | ⟨e₄, rest⟩⟩⟩⟩
    · exact .inr fun t ht => absurd ht List.not_mem_nil
    · cases h
      exact .inl ⟨_, List.mem_cons_self, by decide⟩
    · cases h
    · cases h
      exact .inl ⟨sampleMonth 5 (by decide), by simp, by decide⟩
    · simp at h

end Schema

end MailArchiver

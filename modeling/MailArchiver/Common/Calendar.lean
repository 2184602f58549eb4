import MailArchiver.Common.Time

/-!
# Common — Calendar

`date.toordinal()`: the days counted from the first of January of year 1.
The order of dates is the order of their ordinals, so that a distance in
days can be stated without walking through the calendar.
-/

namespace MailArchiver

/-- `_days_before_year(year)`. -/
def daysBeforeYear (year : Nat) : Nat :=
  (year - 1) * 365 + (year - 1) / 4 - (year - 1) / 100 + (year - 1) / 400

/-- `_days_before_month(year, month)`. -/
def daysBeforeMonth (year : Nat) : Nat → Nat
  | 0 => 0
  | month + 1 => daysBeforeMonth year month + (if month = 0 then 0 else daysInMonth year month)

/-- `d.toordinal()`. -/
def Date.toordinal (d : Date) : Nat :=
  daysBeforeYear d.year + daysBeforeMonth d.year d.month + d.day

/-- A date of the calendar. -/
structure Date.Valid (d : Date) : Prop where
  year : 1 ≤ d.year
  month : 1 ≤ d.month ∧ d.month ≤ 12
  day : 1 ≤ d.day ∧ d.day ≤ daysInMonth d.year d.month

theorem DateTime.date_valid (t : DateTime) : t.date.Valid := by
  obtain ⟨h₁, -, h₃, h₄, h₅, h₆, -⟩ := t.valid
  exact ⟨h₁, ⟨h₃, h₄⟩, h₅, h₆⟩

example : sampleTime.date.toordinal = 739689 := by decide

/-! ## The lengths of months and years -/

theorem daysBeforeMonth_succ {year month : Nat} (h : 1 ≤ month) :
    daysBeforeMonth year (month + 1) = daysBeforeMonth year month + daysInMonth year month := by
  rw [daysBeforeMonth, if_neg (by omega)]

theorem daysBeforeMonth_mono (year : Nat) {m n : Nat} (h : m ≤ n) :
    daysBeforeMonth year m ≤ daysBeforeMonth year n := by
  induction h with
  | refl => exact Nat.le_refl _
  | step _ ih => exact Nat.le_trans ih (Nat.le_add_right _ _)

/-- The length of a year. -/
def daysInYear (year : Nat) : Nat := if isLeap year then 366 else 365

theorem daysBeforeMonth_thirteen (year : Nat) : daysBeforeMonth year 13 = daysInYear year := by
  cases h : isLeap year with
  | true => simp [daysBeforeMonth, daysInMonth, daysInYear, h]
  | false => simp [daysBeforeMonth, daysInMonth, daysInYear, h]

theorem daysBeforeYear_succ {year : Nat} (h : 1 ≤ year) :
    daysBeforeYear (year + 1) = daysBeforeYear year + daysInYear year := by
  obtain ⟨k, rfl⟩ := Nat.exists_eq_add_of_le' h
  have hcentury : k / 100 ≤ k / 4 := Nat.div_le_div_left (by decide) (by decide)
  simp only [daysBeforeYear, daysInYear, isLeap, Bool.and_eq_true, Bool.or_eq_true,
    decide_eq_true_eq, Nat.add_sub_cancel, Nat.succ_div, Nat.dvd_iff_mod_eq_zero]
  -- A multiple of 400 is one of 100, a multiple of 100 one of 4.
  by_cases h4 : (k + 1) % 4 = 0
  · by_cases h100 : (k + 1) % 100 = 0
    · by_cases h400 : (k + 1) % 400 = 0
      · simp [h4, h100, h400]
        omega
      · simp [h4, h100, h400]
        omega
    · have h400 : (k + 1) % 400 ≠ 0 := by omega
      simp [h4, h100, h400]
      omega
  · have h100 : (k + 1) % 100 ≠ 0 := by omega
    have h400 : (k + 1) % 400 ≠ 0 := by omega
    simp [h4, h100, h400]
    omega

theorem daysBeforeYear_mono {y z : Nat} (hy : 1 ≤ y) (h : y ≤ z) :
    daysBeforeYear y ≤ daysBeforeYear z := by
  induction h with
  | refl => exact Nat.le_refl _
  | @step z hz ih =>
      rw [Nat.succ_eq_add_one, daysBeforeYear_succ (Nat.le_trans hy hz)]
      exact Nat.le_trans ih (Nat.le_add_right _ _)

/-! ## The order of dates -/

namespace Date

/-- A day lies before the first of the next month. -/
theorem le_daysBeforeMonth {d : Date} (hd : d.Valid) {month : Nat} (h : d.month < month) :
    daysBeforeMonth d.year d.month + d.day ≤ daysBeforeMonth d.year month := by
  have hnext := @daysBeforeMonth_succ d.year _ hd.month.1
  have hmono := daysBeforeMonth_mono d.year (show d.month + 1 ≤ month from h)
  have hday := hd.day.2
  omega

/-- And before the first of the next year. -/
theorem toordinal_le_daysBeforeYear {d : Date} (hd : d.Valid) {year : Nat} (h : d.year < year) :
    d.toordinal ≤ daysBeforeYear year := by
  have hmonth := le_daysBeforeMonth hd (show d.month < 13 by have := hd.month.2; omega)
  rw [daysBeforeMonth_thirteen] at hmonth
  have hnext := daysBeforeYear_succ hd.year
  have hmono := daysBeforeYear_mono (show 1 ≤ d.year + 1 by omega) (show d.year + 1 ≤ year from h)
  rw [toordinal]
  omega

theorem toordinal_lt_of_before {c d : Date} (hc : c.Valid) (hd : d.Valid)
    (h : c.before d = true) : c.toordinal < d.toordinal := by
  have hday := hd.day.1
  simp only [before, fieldsBefore, Bool.or_eq_true, Bool.and_eq_true, decide_eq_true_eq,
    Bool.and_false, Bool.or_false] at h
  rcases h with hyear | ⟨hyear, hmonth | ⟨hmonth, hlt⟩⟩
  · have := toordinal_le_daysBeforeYear hc hyear
    rw [toordinal]
    rw [toordinal] at this ⊢
    omega
  · have := le_daysBeforeMonth hc hmonth
    rw [toordinal, toordinal, ← hyear]
    omega
  · rw [toordinal, toordinal, ← hyear, ← hmonth]
    omega

/-- Of two dates one is before the other, or they are equal. -/
theorem before_trichotomy (c d : Date) :
    c.before d = true ∨ c = d ∨ d.before c = true := by
  obtain ⟨y, m, k⟩ := c
  obtain ⟨y', m', k'⟩ := d
  simp only [before, fieldsBefore, Bool.or_eq_true, Bool.and_eq_true, decide_eq_true_eq,
    Bool.and_false, Bool.or_false, Date.mk.injEq]
  omega

/-- **Dates compare by their ordinals.** -/
theorem before_iff {c d : Date} (hc : c.Valid) (hd : d.Valid) :
    c.before d = true ↔ c.toordinal < d.toordinal := by
  refine ⟨toordinal_lt_of_before hc hd, fun hlt => ?_⟩
  rcases before_trichotomy c d with h | rfl | h
  · exact h
  · exact absurd hlt (Nat.lt_irrefl _)
  · have := toordinal_lt_of_before hd hc h
    omega

theorem toordinal_inj {c d : Date} (hc : c.Valid) (hd : d.Valid) :
    c.toordinal = d.toordinal ↔ c = d := by
  constructor
  · intro heq
    rcases before_trichotomy c d with h | h | h
    · have := toordinal_lt_of_before hc hd h
      omega
    · exact h
    · have := toordinal_lt_of_before hd hc h
      omega
  · rintro rfl
    rfl

end Date

/-! ## Distances in days -/

/-- The fields of a time of day. -/
def DateTime.time (t : DateTime) : List Nat := [t.hour, t.minute, t.second, t.microsecond]

/-- `s` lies more than `days` days before `t`, both in UTC. -/
def DateTime.OlderThan (days : Nat) (t s : DateTime) : Prop :=
  s.date.toordinal + days < t.date.toordinal ∨
    s.date.toordinal + days = t.date.toordinal ∧ fieldsBefore s.time t.time = true

/-- Where `c` is `days` days before `t`, to be older is to be before `c`. -/
theorem olderThan_iff_before {days : Nat} {t c s : DateTime}
    (hdate : c.date.toordinal + days = t.date.toordinal) (htime : c.time = t.time) :
    t.OlderThan days s ↔ s.before c = true := by
  have hlt := Date.before_iff s.date_valid c.date_valid
  have heq := Date.toordinal_inj s.date_valid c.date_valid
  rw [before_eq, Bool.or_eq_true, Bool.and_eq_true, decide_eq_true_eq, hlt, ← heq,
    DateTime.OlderThan, ← htime]
  refine or_congr (by omega) (and_congr (by omega) ?_)
  rfl

end MailArchiver

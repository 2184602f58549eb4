import Mathlib.Algebra.Group.Nat.Defs
import Mathlib.Data.List.Basic

/-!
# Common — Time

Python's aware `datetime`, by its fields: the services store instants in
UTC, print them with `isoformat()` and compare them with `<`. A value
outside the calendar cannot be built (`valid`).
-/

namespace MailArchiver

def isLeap (year : Nat) : Bool :=
  year % 4 = 0 && (year % 100 ≠ 0 || year % 400 = 0)

def daysInMonth (year month : Nat) : Nat :=
  if month = 2 then (if isLeap year then 29 else 28)
  else if month = 4 ∨ month = 6 ∨ month = 9 ∨ month = 11 then 30
  else 31

theorem one_le_daysInMonth (year month : Nat) : 1 ≤ daysInMonth year month := by
  unfold daysInMonth
  split
  · split <;> decide
  · split <;> decide

theorem daysInMonth_le (year month : Nat) : daysInMonth year month ≤ 31 := by
  unfold daysInMonth
  split
  · split <;> decide
  · split <;> decide

/-- An aware `datetime.datetime`; the offset is in minutes east of UTC. -/
structure DateTime where
  year : Nat
  month : Nat
  day : Nat
  hour : Nat
  minute : Nat
  second : Nat
  microsecond : Nat
  utcoffset : Int
  valid : 1 ≤ year ∧ year ≤ 9999 ∧ 1 ≤ month ∧ month ≤ 12
    ∧ 1 ≤ day ∧ day ≤ daysInMonth year month
    ∧ hour < 24 ∧ minute < 60 ∧ second < 60 ∧ microsecond < 1000000
    ∧ -1440 < utcoffset ∧ utcoffset < 1440
  deriving DecidableEq, Repr

/-- An instant for the sample runs. -/
def sampleTime : DateTime where
  year := 2026
  month := 3
  day := 14
  hour := 15
  minute := 9
  second := 26
  microsecond := 535897
  utcoffset := 0
  valid := by decide

/-- `t.replace(tzinfo=timezone.utc)`. -/
def DateTime.replaceUtc (t : DateTime) : DateTime :=
  { t with
    utcoffset := 0
    valid := by
      obtain ⟨h₁, h₂, h₃, h₄, h₅, h₆, h₇, h₈, h₉, h₁₀, -, -⟩ := t.valid
      exact ⟨h₁, h₂, h₃, h₄, h₅, h₆, h₇, h₈, h₉, h₁₀, by decide, by decide⟩ }

/-- A number in decimal, zero-padded to `width`: the `{:0Nd}` format. -/
def zeroPad (width n : Nat) : String :=
  String.ofList (List.replicate (width - (Nat.toDigits 10 n).length) '0' ++ Nat.toDigits 10 n)

theorem toList_zeroPad (width n : Nat) : (zeroPad width n).toList =
    List.replicate (width - (Nat.toDigits 10 n).length) '0' ++ Nat.toDigits 10 n := by
  simp [zeroPad]

/-- What fits in the width takes exactly the width. -/
theorem length_zeroPad {width n : Nat} (hwidth : 0 < width) (h : n < 10 ^ width) :
    (zeroPad width n).toList.length = width := by
  have hle := (Nat.length_toDigits_le_iff (b := 10) (by decide) hwidth).mpr h
  rw [toList_zeroPad, List.length_append, List.length_replicate]
  omega

theorem isDigit_zeroPad {width n : Nat} {c : Char} (h : c ∈ (zeroPad width n).toList) :
    c.isDigit = true := by
  rw [toList_zeroPad, List.mem_append] at h
  rcases h with h | h
  · rw [List.eq_of_mem_replicate h]
    rfl
  · exact Nat.isDigit_of_mem_toDigits (by decide) (by decide) h

/-- Reading the digits back. -/
theorem ofDigitChars_zeroPad (width n : Nat) :
    Nat.ofDigitChars 10 (zeroPad width n).toList 0 = n := by
  rw [toList_zeroPad, Nat.ofDigitChars_append, Nat.ofDigitChars_replicate_zero, Nat.mul_zero,
    Nat.ofDigitChars_ten_toDigits]

theorem zeroPad_inj {width n m : Nat} : zeroPad width n = zeroPad width m ↔ n = m := by
  constructor
  · intro h
    rw [← ofDigitChars_zeroPad width n, h, ofDigitChars_zeroPad]
  · rintro rfl
    rfl

/-- `datetime.isoformat()` of an aware value. -/
def DateTime.isoformat (t : DateTime) : String :=
  zeroPad 4 t.year ++ "-" ++ zeroPad 2 t.month ++ "-" ++ zeroPad 2 t.day
    ++ "T" ++ zeroPad 2 t.hour ++ ":" ++ zeroPad 2 t.minute ++ ":" ++ zeroPad 2 t.second
    ++ (if t.microsecond = 0 then "" else "." ++ zeroPad 6 t.microsecond)
    ++ (if t.utcoffset < 0 then "-" else "+")
    ++ zeroPad 2 (t.utcoffset.natAbs / 60) ++ ":" ++ zeroPad 2 (t.utcoffset.natAbs % 60)

/-- Lexicographic comparison of two field lists. -/
def fieldsBefore : List Nat → List Nat → Bool
  | a :: as, b :: bs => decide (a < b) || (decide (a = b) && fieldsBefore as bs)
  | _, _ => false

/-- `a < b` of two UTC values: field by field from the year down. -/
def DateTime.before (a b : DateTime) : Bool :=
  fieldsBefore [a.year, a.month, a.day, a.hour, a.minute, a.second, a.microsecond]
    [b.year, b.month, b.day, b.hour, b.minute, b.second, b.microsecond]

/-! ## Dates -/

/-- A `datetime.date`, or a `date` of PostgreSQL. -/
structure Date where
  year : Nat
  month : Nat
  day : Nat
  deriving DecidableEq, Repr

/-- `t.date()`. -/
def DateTime.date (t : DateTime) : Date := ⟨t.year, t.month, t.day⟩

/-- `a < b`. -/
def Date.before (a b : Date) : Bool :=
  fieldsBefore [a.year, a.month, a.day] [b.year, b.month, b.day]

theorem fieldsBefore_append {xs ys us vs : List Nat} (h : xs.length = ys.length) :
    fieldsBefore (xs ++ us) (ys ++ vs) =
      (fieldsBefore xs ys || (decide (xs = ys) && fieldsBefore us vs)) := by
  induction xs generalizing ys with
  | nil =>
      obtain rfl : ys = [] := List.length_eq_zero_iff.mp h.symm
      simp [fieldsBefore]
  | cons x xs ih =>
      cases ys with
      | nil => simp at h
      | cons y ys =>
          rw [List.cons_append, List.cons_append, fieldsBefore, fieldsBefore,
            ih (by simpa using h)]
          by_cases hlt : x < y
          · simp [hlt]
          · by_cases heq : x = y
            · simp [heq]
            · simp [hlt, heq]

/-- Instants compare by their days, and within a day by their times. -/
theorem before_eq (a b : DateTime) : a.before b =
    (a.date.before b.date || (decide (a.date = b.date)
      && fieldsBefore [a.hour, a.minute, a.second, a.microsecond]
        [b.hour, b.minute, b.second, b.microsecond])) := by
  have hsplit := @fieldsBefore_append [a.year, a.month, a.day] [b.year, b.month, b.day]
    [a.hour, a.minute, a.second, a.microsecond] [b.hour, b.minute, b.second, b.microsecond] rfl
  simpa [DateTime.before, Date.before, DateTime.date] using hsplit

theorem before_of_date {a b : DateTime} (h : a.date.before b.date = true) : a.before b = true := by
  rw [before_eq, h, Bool.true_or]

end MailArchiver

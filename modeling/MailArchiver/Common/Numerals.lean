import MailArchiver.Common.Bytes
import MailArchiver.Common.Text

/-!
# Common — Numerals

`str(n)` and `int(s)` of Python integers, which go as texts through the
settings table and the environment. Both refuse a number of more than
4300 digits.
-/

namespace MailArchiver

/-- `sys.get_int_max_str_digits()`. -/
def intMaxStrDigits : Nat := 4300

/-- `str(n)`. -/
def pyStr (n : Int) : Except PyError String :=
  if (Nat.toDigits 10 n.natAbs).length ≤ intMaxStrDigits then .ok (toString n)
  else .error (.valueError "Exceeds the limit (4300 digits) for integer string conversion")

/-- The digits of a literal, single underscores between them taken out;
`digit` when the character before is a digit. -/
def literalDigits : Bool → List Char → Option (List Char)
  | digit, [] => if digit then some [] else none
  | digit, c :: cs =>
      if c = '_' then if digit then literalDigits false cs else none
      else if c.isDigit then (literalDigits true cs).map (c :: ·)
      else none

/-- The sign of a literal, and what follows it. -/
def literalSign : List Char → Bool × List Char
  | [] => (false, [])
  | c :: cs => if c = '-' then (true, cs) else if c = '+' then (false, cs) else (false, c :: cs)

/-- The zeros of Unicode's decimal digits beyond ASCII. -/
def decimalZeros : List Nat :=
  [0x660, 0x6F0, 0x7C0, 0x966, 0x9E6, 0xA66, 0xAE6, 0xB66, 0xBE6, 0xC66, 0xCE6, 0xD66, 0xDE6,
    0xE50, 0xED0, 0xF20, 0x1040, 0x1090, 0x17E0, 0x1810, 0x1946, 0x19D0, 0x1A80, 0x1A90, 0x1B50,
    0x1BB0, 0x1C40, 0x1C50, 0xA620, 0xA8D0, 0xA900, 0xA9D0, 0xA9F0, 0xAA50, 0xABF0, 0xFF10,
    0x104A0, 0x10D30, 0x11066, 0x110F0, 0x11136, 0x111D0, 0x112F0, 0x11450, 0x114D0, 0x11650,
    0x116C0, 0x11730, 0x118E0, 0x11950, 0x11C50, 0x11D50, 0x11DA0, 0x11F50, 0x16A60, 0x16AC0,
    0x16B50, 0x1D7CE, 0x1D7D8, 0x1D7E2, 0x1D7EC, 0x1D7F6, 0x1E140, 0x1E2F0, 0x1E4F0, 0x1E950,
    0x1FBF0]

/-- What `int` reads for a character of a text that is not ASCII: a digit
for a digit, a blank for a space, and `?` for what is neither. -/
def literalChar (c : Char) : Char :=
  if c.toNat < 127 then c
  else if isSpace c then ' '
  else
    match decimalZeros.find? fun first => first ≤ c.toNat && c.toNat < first + 10 with
    | some first => Char.ofNat (48 + (c.toNat - first))
    | none => '?'

/-- The blanks `int` skips at both ends: those of C, four fewer than
`str.strip` takes off an ASCII text. -/
def isIntBlank (c : Char) : Bool := c.toNat = 32 || (9 ≤ c.toNat && c.toNat ≤ 13)

/-- The literal in a text. -/
def literal (cs : List Char) : List Char :=
  let cs := if cs.all fun c => c.toNat < 128 then cs else cs.map literalChar
  (cs.dropWhile isIntBlank).rdropWhile isIntBlank

/-- `int(s)`. -/
def pyInt (s : String) : Except PyError Int :=
  let (negative, cs) := literalSign (literal s.toList)
  match literalDigits false cs with
  | none => .error (.valueError "invalid literal for int() with base 10")
  | some ds =>
      if ds.length ≤ intMaxStrDigits then
        let n := Nat.ofDigitChars 10 ds 0
        .ok (if negative then -(n : Int) else n)
      else .error (.valueError "Exceeds the limit (4300 digits) for integer string conversion")

example : pyInt " +1_000\n" = .ok 1000 := by decide
example : pyInt "\x1c25" = .error (.valueError "invalid literal for int() with base 10") := by
  decide
example : pyInt "365 jours" = .error (.valueError "invalid literal for int() with base 10") := by
  decide

theorem literalDigits_digits {ds : List Char} (h : ∀ c ∈ ds, c.isDigit = true) {digit : Bool}
    (hne : digit = true ∨ ds ≠ []) : literalDigits digit ds = some ds := by
  induction ds generalizing digit with
  | nil => simpa [literalDigits] using hne
  | cons c ds ih =>
      obtain ⟨hc, hds⟩ := List.forall_mem_cons.mp h
      have hunderscore : c ≠ '_' := by
        rintro rfl
        exact absurd hc (by decide)
      rw [literalDigits, if_neg hunderscore, if_pos hc, ih hds (.inl rfl)]
      rfl

theorem literalSign_digits {ds : List Char} (h : ∀ c ∈ ds, c.isDigit = true) :
    literalSign ds = (false, ds) := by
  cases ds with
  | nil => rfl
  | cons c ds =>
      have hc := h c List.mem_cons_self
      have hminus : c ≠ '-' := by
        rintro rfl
        exact absurd hc (by decide)
      have hplus : c ≠ '+' := by
        rintro rfl
        exact absurd hc (by decide)
      rw [literalSign, if_neg hminus, if_neg hplus]

/-- An ASCII text without blanks is its literal. -/
theorem literal_eq_self {cs : List Char} (h : ∀ c ∈ cs, 32 < c.toNat ∧ c.toNat < 128) :
    literal cs = cs := by
  have hascii : cs.all (fun c => c.toNat < 128) = true :=
    List.all_eq_true.mpr fun c hc => decide_eq_true (h c hc).2
  have hblank : ∀ c ∈ cs, isIntBlank c = false := by
    intro c hc
    have := (h c hc).1
    simp only [isIntBlank, Bool.or_eq_false_iff, Bool.and_eq_false_iff, decide_eq_false_iff_not]
    omega
  have hfront : cs.dropWhile isIntBlank = cs := by
    rw [List.dropWhile_eq_self_iff]
    intro hlen
    simp [hblank _ (List.getElem_mem hlen)]
  rw [literal, if_pos hascii, hfront, List.rdropWhile_eq_self_iff]
  intro hne
  simp [hblank _ (List.getLast_mem hne)]

theorem toNat_of_isDigit {c : Char} (h : c.isDigit = true) : 32 < c.toNat ∧ c.toNat < 128 := by
  simp only [Char.isDigit, Bool.and_eq_true, decide_eq_true_eq, ge_iff_le,
    UInt32.le_iff_toNat_le] at h
  exact ⟨Nat.lt_of_lt_of_le (by decide) h.1, Nat.lt_of_le_of_lt h.2 (by decide)⟩

/-- **A number that can be written can be read back.** -/
theorem pyInt_pyStr {n : Nat} {s : String} (h : pyStr n = .ok s) : pyInt s = .ok (n : Int) := by
  rw [pyStr, Int.natAbs_natCast] at h
  split at h
  · rename_i hlen
    obtain rfl := Except.ok.inj h
    have hlist : (toString (n : Int)).toList = Nat.toDigits 10 n := by
      show (toString n).toList = _
      rw [Nat.toString_eq_repr, Nat.toList_repr]
    have hdigits : ∀ c ∈ Nat.toDigits 10 n, c.isDigit = true := fun c hc =>
      Nat.isDigit_of_mem_toDigits (by decide) (by decide) hc
    have hne : Nat.toDigits 10 n ≠ [] := Nat.toDigits_ne_nil
    simp only [pyInt, hlist, literal_eq_self fun c hc => toNat_of_isDigit (hdigits c hc),
      literalSign_digits hdigits, literalDigits_digits hdigits (.inr hne)]
    rw [if_pos hlen, Nat.ofDigitChars_ten_toDigits]
    rfl
  · cases h

theorem toString_nat_inj {m n : Nat} : toString m = toString n ↔ m = n := by
  refine ⟨fun h => ?_, congrArg toString⟩
  have hread : ∀ k : Nat, Nat.ofDigitChars 10 (toString k).toList 0 = k := by
    intro k
    rw [Nat.toString_eq_repr, Nat.toList_repr, Nat.ofDigitChars_ten_toDigits]
  rw [← hread m, h, hread]

end MailArchiver

import Mathlib.Data.List.Basic

/-!
# Lib — Base64

The standard alphabet with padding (`encode`), and the LENIENT decoder
most runtimes ship (`decode`): characters outside the alphabet are
skipped, a pad that completes a quantum ends the input, and the only
errors are a quantum cut short. `decode_encode` is the round trip.
-/

namespace Base64

/-- The character of a six-bit value. -/
def charOf (v : Nat) : Char :=
  if v < 26 then Char.ofNat (v + 'A'.toNat)
  else if v < 52 then Char.ofNat (v - 26 + 'a'.toNat)
  else if v < 62 then Char.ofNat (v - 52 + '0'.toNat)
  else if v = 62 then '+'
  else '/'

/-- The six-bit value of an alphabet character. -/
def valueOf? (c : Char) : Option Nat :=
  if 'A' ≤ c ∧ c ≤ 'Z' then some (c.toNat - 'A'.toNat)
  else if 'a' ≤ c ∧ c ≤ 'z' then some (c.toNat - 'a'.toNat + 26)
  else if '0' ≤ c ∧ c ≤ '9' then some (c.toNat - '0'.toNat + 52)
  else if c = '+' then some 62
  else if c = '/' then some 63
  else none

/-- Three bytes to four characters, the last group padded. -/
def encode : List UInt8 → List Char
  | [] => []
  | [a] => [charOf (a.toNat / 4), charOf (a.toNat % 4 * 16), '=', '=']
  | [a, b] =>
      [charOf (a.toNat / 4), charOf (a.toNat % 4 * 16 + b.toNat / 16),
        charOf (b.toNat % 16 * 4), '=']
  | a :: b :: c :: rest =>
      charOf (a.toNat / 4) :: charOf (a.toNat % 4 * 16 + b.toNat / 16)
        :: charOf (b.toNat % 16 * 4 + c.toNat / 64) :: charOf (c.toNat % 64) :: encode rest

/-- Why a text is refused: one character alone in its quantum, or two or
three without the pads that close it. -/
inductive Error where
  | oneCharacterOver
  | incorrectPadding
  deriving DecidableEq, Repr

/-- The decoder loop: `quad` characters of the current quantum read,
`pads` pad characters seen in a row, `left` the bits not yet emitted. -/
def decodeLoop : List Char → (quad pads left : Nat) → Except Error (List UInt8)
  | [], quad, _, _ =>
      if quad = 0 then .ok []
      else if quad = 1 then .error .oneCharacterOver
      else .error .incorrectPadding
  | c :: cs, quad, pads, left =>
      if c = '=' then
        if 2 ≤ quad then
          if 4 ≤ quad + (pads + 1) then .ok [] else decodeLoop cs quad (pads + 1) left
        else decodeLoop cs quad pads left
      else
        match valueOf? c with
        | none => decodeLoop cs quad pads left
        | some v =>
            if quad = 0 then decodeLoop cs 1 0 v
            else if quad = 1 then
              (decodeLoop cs 2 0 (v % 16)).map (UInt8.ofNat (left * 4 + v / 16) :: ·)
            else if quad = 2 then
              (decodeLoop cs 3 0 (v % 4)).map (UInt8.ofNat (left * 16 + v / 4) :: ·)
            else
              (decodeLoop cs 0 0 0).map (UInt8.ofNat (left * 64 + v) :: ·)

/-- The lenient decoder. -/
def decode (cs : List Char) : Except Error (List UInt8) := decodeLoop cs 0 0 0

theorem valueOf?_charOf : ∀ v < 64, valueOf? (charOf v) = some v ∧ charOf v ≠ '=' := by
  decide

/-- One alphabet character moves the loop on by its value. -/
theorem decodeLoop_charOf {v : Nat} (hv : v < 64) (cs : List Char) (quad pads left : Nat) :
    decodeLoop (charOf v :: cs) quad pads left =
      if quad = 0 then decodeLoop cs 1 0 v
      else if quad = 1 then
        (decodeLoop cs 2 0 (v % 16)).map (UInt8.ofNat (left * 4 + v / 16) :: ·)
      else if quad = 2 then
        (decodeLoop cs 3 0 (v % 4)).map (UInt8.ofNat (left * 16 + v / 4) :: ·)
      else
        (decodeLoop cs 0 0 0).map (UInt8.ofNat (left * 64 + v) :: ·) := by
  obtain ⟨hval, hne⟩ := valueOf?_charOf v hv
  rw [decodeLoop, if_neg hne, hval]

theorem ofNat_eq {b : UInt8} {n : Nat} (h : n = b.toNat) : UInt8.ofNat n = b := by
  rw [h, UInt8.ofNat_toNat]

/-- Decoding what `encode` wrote gives the bytes back. -/
theorem decode_encode (bs : List UInt8) : decode (encode bs) = .ok bs := by
  rw [decode]
  fun_induction encode bs with
  | case1 => rfl
  | case2 a =>
      have ha := a.toNat_lt
      have hout : UInt8.ofNat (a.toNat / 4 * 4 + a.toNat % 4 * 16 / 16) = a :=
        ofNat_eq (by omega)
      simp only [decodeLoop_charOf (show a.toNat / 4 < 64 by omega),
        decodeLoop_charOf (show a.toNat % 4 * 16 < 64 by omega), hout]
      rfl
  | case3 a b =>
      have ha := a.toNat_lt
      have hb := b.toNat_lt
      have hout₁ : UInt8.ofNat (a.toNat / 4 * 4 + (a.toNat % 4 * 16 + b.toNat / 16) / 16) = a :=
        ofNat_eq (by omega)
      have hout₂ : UInt8.ofNat ((a.toNat % 4 * 16 + b.toNat / 16) % 16 * 16
          + b.toNat % 16 * 4 / 4) = b := ofNat_eq (by omega)
      simp only [decodeLoop_charOf (show a.toNat / 4 < 64 by omega),
        decodeLoop_charOf (show a.toNat % 4 * 16 + b.toNat / 16 < 64 by omega),
        decodeLoop_charOf (show b.toNat % 16 * 4 < 64 by omega), hout₁, hout₂]
      rfl
  | case4 a b c rest ih =>
      have ha := a.toNat_lt
      have hb := b.toNat_lt
      have hc := c.toNat_lt
      have hout₁ : UInt8.ofNat (a.toNat / 4 * 4 + (a.toNat % 4 * 16 + b.toNat / 16) / 16) = a :=
        ofNat_eq (by omega)
      have hout₂ : UInt8.ofNat ((a.toNat % 4 * 16 + b.toNat / 16) % 16 * 16
          + (b.toNat % 16 * 4 + c.toNat / 64) / 4) = b := ofNat_eq (by omega)
      have hout₃ : UInt8.ofNat ((b.toNat % 16 * 4 + c.toNat / 64) % 4 * 64
          + c.toNat % 64) = c := ofNat_eq (by omega)
      simp only [decodeLoop_charOf (show a.toNat / 4 < 64 by omega),
        decodeLoop_charOf (show a.toNat % 4 * 16 + b.toNat / 16 < 64 by omega),
        decodeLoop_charOf (show b.toNat % 16 * 4 + c.toNat / 64 < 64 by omega),
        decodeLoop_charOf (show c.toNat % 64 < 64 by omega), hout₁, hout₂, hout₃, ih]
      rfl

end Base64

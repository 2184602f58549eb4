import Mathlib.Data.List.Basic

/-!
# Common — Bytes

The Python values every service handles: `bytes`, `str.encode()`,
`bytes.hex()` and `bytes.fromhex()`, and the exceptions that cross the
modelled functions. A `str` is a Lean `String`: both are sequences of
code points, and `encode` is UTF-8 on both sides. A `str` holding a lone
surrogate has no counterpart here; where the source can meet one
(`.encode()` raises), the email package is modelled as raising already.
-/

namespace MailArchiver

/-- Python `bytes`. -/
abbrev Bytes := List UInt8

/-- The exceptions the modelled functions raise or let through. The
texts are the source's own where the source gives one. -/
inductive PyError where
  | valueError (msg : String)
  | typeError (msg : String)
  | keyError (msg : String)
  | indexError (msg : String)
  | overflowError (msg : String)
  | lookupError (msg : String)
  | binasciiError (msg : String)
  | unicodeDecodeError
  | unicodeEncodeError
  | structError
  | invalidTag
  | zlibError
  | clientError
  | integrityError
  | dataError
  | operationalError
  | accessDenied
  | connectionError (msg : String)
  | attributeError (msg : String)
  deriving DecidableEq, Repr

instance decEqExcept {ε α : Type} [DecidableEq ε] [DecidableEq α] : DecidableEq (Except ε α)
  | .error e, .error e' => decidable_of_iff (e = e') (by simp)
  | .ok a, .ok b => decidable_of_iff (a = b) (by simp)
  | .error _, .ok _ => isFalse (by simp)
  | .ok _, .error _ => isFalse (by simp)

/-- A block that returns ran each of its steps to an answer. -/
theorem bind_eq_ok {ε α β : Type} {x : Except ε α} {f : α → Except ε β} {b : β} :
    (x >>= f) = .ok b ↔ ∃ a, x = .ok a ∧ f a = .ok b := by
  cases x with
  | error e => simp [bind, Except.bind]
  | ok a => simp [bind, Except.bind]

theorem pure_eq_ok {ε α : Type} {a b : α} : (pure a : Except ε α) = .ok b ↔ a = b := by
  simp [pure, Except.pure]

theorem map_eq_ok {ε α β : Type} {x : Except ε α} {f : α → β} {b : β} :
    x.map f = .ok b ↔ ∃ a, x = .ok a ∧ f a = b := by
  cases x with
  | error e => simp [Except.map]
  | ok a => simp [Except.map]

theorem isOk_iff {ε α : Type} {x : Except ε α} : x.isOk = true ↔ ∃ a, x = .ok a := by
  cases x with
  | error e => simp [Except.isOk, Except.toBool]
  | ok a => simp [Except.isOk, Except.toBool]

/-- A comprehension whose every element has an answer has one. -/
theorem mapM_eq_ok {ε α β : Type} {f : α → Except ε β} {g : α → β} {xs : List α}
    (h : ∀ x ∈ xs, f x = .ok (g x)) : xs.mapM f = .ok (xs.map g) := by
  induction xs with
  | nil => rfl
  | cons x xs ih =>
      obtain ⟨hx, hxs⟩ := List.forall_mem_cons.mp h
      rw [List.mapM_cons, hx, ih hxs]
      rfl

theorem isOk_of_mapM {ε α β : Type} {f : α → Except ε β} {xs : List α} {ys : List β}
    (h : xs.mapM f = .ok ys) : ∀ x ∈ xs, (f x).isOk = true := by
  induction xs generalizing ys with
  | nil => exact List.forall_mem_nil _
  | cons x xs ih =>
      rw [List.mapM_cons, bind_eq_ok] at h
      obtain ⟨y, hy, h⟩ := h
      rw [bind_eq_ok] at h
      obtain ⟨ys', hys, -⟩ := h
      exact List.forall_mem_cons.mpr ⟨isOk_iff.mpr ⟨y, hy⟩, ih hys⟩

/-! ## `str.encode()` -/

/-- `str.encode()`: the UTF-8 bytes of a text. -/
def encode (s : String) : Bytes := s.toUTF8.data.toList

@[simp] theorem encode_append (s t : String) : encode (s ++ t) = encode s ++ encode t := by
  simp [encode, ByteArray.data_append]

theorem encode_inj {s t : String} : encode s = encode t ↔ s = t := by
  constructor
  · intro h
    apply String.toByteArray_inj.mp
    apply ByteArray.ext
    exact Array.toList_inj.mp h
  · rintro rfl
    rfl

theorem encode_ofList (l : List Char) :
    encode (String.ofList l) = l.flatMap String.utf8EncodeChar := by
  simp [encode, List.utf8Encode]

/-- `bytes.decode()`: strict UTF-8. -/
def decodeUtf8 (bs : Bytes) : Except PyError String :=
  match String.fromUTF8? ⟨bs.toArray⟩ with
  | some s => .ok s
  | none => .error .unicodeDecodeError

theorem decodeUtf8_encode (s : String) : decodeUtf8 (encode s) = .ok s := by
  have hbytes : (⟨(encode s).toArray⟩ : ByteArray) = s.toByteArray := by simp [encode]
  have hvalid : s.toByteArray.IsValidUTF8 := s.isValidUTF8
  rw [decodeUtf8, hbytes, String.fromUTF8?, dif_pos hvalid]
  rfl

/-! ## `bytes.hex()` and `bytes.fromhex()` -/

/-- The two lower-case digits of one byte. -/
def hexByte (b : UInt8) : List Char :=
  [Nat.digitChar (b.toNat / 16), Nat.digitChar (b.toNat % 16)]

/-- `bytes.hex()`. -/
def hex (bs : Bytes) : String := String.ofList (bs.flatMap hexByte)

/-- The value of one hexadecimal digit, either case. -/
def hexValue? (c : Char) : Option Nat :=
  if '0' ≤ c ∧ c ≤ '9' then some (c.toNat - '0'.toNat)
  else if 'a' ≤ c ∧ c ≤ 'f' then some (c.toNat - 'a'.toNat + 10)
  else if 'A' ≤ c ∧ c ≤ 'F' then some (c.toNat - 'A'.toNat + 10)
  else none

/-- `Py_ISSPACE`: the ASCII whitespace `bytes.fromhex` skips. -/
def isAsciiSpace (c : Char) : Bool :=
  c = ' ' || c = '\t' || c = '\n' || c = '\r' || c = '\x0b' || c = '\x0c'

/-- The loop of `bytes.fromhex`: whitespace is skipped between two bytes,
never between the two digits of one. -/
def fromhexChars : List Char → Except PyError Bytes
  | [] => .ok []
  | c :: cs =>
      if isAsciiSpace c then fromhexChars cs
      else
        match cs with
        | [] => .error (.valueError "non-hexadecimal number found in fromhex() arg")
        | d :: ds =>
            match hexValue? c, hexValue? d with
            | some hi, some lo => (fromhexChars ds).map (UInt8.ofNat (16 * hi + lo) :: ·)
            | _, _ => .error (.valueError "non-hexadecimal number found in fromhex() arg")

/-- `bytes.fromhex(s)`. -/
def fromhex (s : String) : Except PyError Bytes := fromhexChars s.toList

theorem hexValue?_digitChar : ∀ n < 16,
    hexValue? (Nat.digitChar n) = some n ∧ isAsciiSpace (Nat.digitChar n) = false := by
  decide

theorem fromhexChars_hex (bs : Bytes) : fromhexChars (bs.flatMap hexByte) = .ok bs := by
  induction bs with
  | nil => rfl
  | cons b bs ih =>
      have hb : b.toNat < 256 := b.toNat_lt
      obtain ⟨hhi, hsp⟩ := hexValue?_digitChar (b.toNat / 16) (by omega)
      obtain ⟨hlo, -⟩ := hexValue?_digitChar (b.toNat % 16) (by omega)
      have hbyte : UInt8.ofNat (16 * (b.toNat / 16) + b.toNat % 16) = b := by
        rw [Nat.div_add_mod, UInt8.ofNat_toNat]
      simp only [List.flatMap_cons, hexByte, List.cons_append, List.nil_append, fromhexChars,
        hsp, hhi, hlo, hbyte, Bool.false_eq_true, if_false]
      rw [ih]
      rfl

/-- Reading back what `hex` wrote. -/
theorem fromhex_hex (bs : Bytes) : fromhex (hex bs) = .ok bs := by
  rw [fromhex, hex, String.toList_ofList, fromhexChars_hex]

theorem hex_inj {a b : Bytes} : hex a = hex b ↔ a = b := by
  constructor
  · intro h
    have ha := fromhex_hex a
    rw [h, fromhex_hex] at ha
    exact (Except.ok.inj ha).symm
  · rintro rfl
    rfl

theorem utf8_digitChar : ∀ n < 16, (String.utf8EncodeChar (Nat.digitChar n)).length = 1 := by
  decide

/-- The digits are ASCII: `hex` spends two bytes of text a byte. -/
theorem length_encode_hex (bs : Bytes) : (encode (hex bs)).length = 2 * bs.length := by
  rw [hex, encode_ofList]
  induction bs with
  | nil => rfl
  | cons b bs ih =>
      have hb : b.toNat < 256 := b.toNat_lt
      have hhi := utf8_digitChar (b.toNat / 16) (by omega)
      have hlo := utf8_digitChar (b.toNat % 16) (by omega)
      simp only [List.flatMap_cons, List.flatMap_append, List.length_append, ih, hexByte,
        List.flatMap_nil, List.length_nil, hhi, hlo, List.length_cons]
      omega

end MailArchiver

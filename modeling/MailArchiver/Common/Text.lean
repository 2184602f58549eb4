import Mathlib.Data.List.DropRight

/-!
# Common — Text

`str.strip`, on all texts and on ASCII ones, and how the latter goes with
lower-casing. Where the model of the services takes `lower` as a
parameter it takes `strip` as one too; the runs on samples use the ASCII
ones.
-/

namespace MailArchiver

/-- The ASCII characters `str.strip` takes off. -/
def isBlank (c : Char) : Bool :=
  c = ' ' || (9 ≤ c.toNat && c.toNat ≤ 13) || (28 ≤ c.toNat && c.toNat ≤ 31)

/-- `chars.strip()`. -/
def stripChars (cs : List Char) : List Char := (cs.dropWhile isBlank).rdropWhile isBlank

/-- `s.strip()`. -/
def asciiStrip (s : String) : String := String.ofList (stripChars s.toList)

/-- `str.isspace` of one character. -/
def isSpace (c : Char) : Bool :=
  isBlank c || (0x2000 ≤ c.toNat && c.toNat ≤ 0x200A)
    || [0x85, 0xA0, 0x1680, 0x2028, 0x2029, 0x202F, 0x205F, 0x3000].contains c.toNat

/-- `s.strip()`, on any text. -/
def pyStrip (s : String) : String :=
  String.ofList ((s.toList.dropWhile isSpace).rdropWhile isSpace)

/-! ## ASCII texts -/

theorem toList_asciiStrip (s : String) : (asciiStrip s).toList = stripChars s.toList := by
  simp [asciiStrip]

theorem stripChars_sublist (cs : List Char) : (stripChars cs).Sublist cs :=
  (List.rdropWhile_prefix ..).sublist.trans (List.dropWhile_sublist _)

theorem stripChars_stripChars (cs : List Char) : stripChars (stripChars cs) = stripChars cs := by
  have hfront : (stripChars cs).dropWhile isBlank = stripChars cs := by
    rw [List.dropWhile_eq_self_iff]
    intro hlen
    -- The first character kept is the first one after the blanks.
    have hprefix' := List.rdropWhile_prefix isBlank (cs.dropWhile isBlank)
    have hfirst := hprefix'.getElem hlen
    have hkept := List.dropWhile_eq_self_iff.mp (@List.dropWhile_idempotent _ isBlank cs)
      (Nat.lt_of_lt_of_le hlen hprefix'.length_le)
    rw [← hfirst] at hkept
    exact hkept
  rw [stripChars, hfront, stripChars, List.rdropWhile_idempotent]

theorem asciiStrip_asciiStrip (s : String) : asciiStrip (asciiStrip s) = asciiStrip s := by
  rw [asciiStrip, toList_asciiStrip, stripChars_stripChars]
  rfl

theorem isBlank_eq_false {c : Char} (h : 32 < c.toNat) : isBlank c = false := by
  have hspace : c ≠ ' ' := by
    rintro rfl
    exact absurd h (by decide)
  simp only [isBlank, hspace, decide_false, Bool.false_or, Bool.or_eq_false_iff,
    Bool.and_eq_false_iff, decide_eq_false_iff_not]
  omega

/-- A letter `toLower` changes is above the blanks, and so is what it
becomes. -/
theorem toLower_eq_or (c : Char) : c.toLower = c ∨ 32 < c.toNat ∧ 32 < c.toLower.toNat := by
  delta Char.toLower
  by_cases h : c.val ≥ 'A'.val ∧ c.val ≤ 'Z'.val
  · rw [dif_pos h]
    simp only [ge_iff_le, UInt32.le_iff_toNat_le, show 'A'.val.toNat = 65 from rfl,
      show 'Z'.val.toNat = 90 from rfl] at h
    refine .inr ⟨by simp only [Char.toNat]; omega, ?_⟩
    simp only [Char.toNat, UInt32.toNat_add, UInt32.toNat_sub, show 'A'.val.toNat = 65 from rfl,
      show 'a'.val.toNat = 97 from rfl]
    omega
  · exact .inl (dif_neg h)

/-- Lower-casing neither makes nor removes a blank. -/
theorem isBlank_toLower (c : Char) : isBlank c.toLower = isBlank c := by
  rcases toLower_eq_or c with h | ⟨hupper, hlower⟩
  · rw [h]
  · rw [isBlank_eq_false hupper, isBlank_eq_false hlower]

theorem stripChars_map_toLower (cs : List Char) :
    stripChars (cs.map Char.toLower) = (stripChars cs).map Char.toLower := by
  have hcomp : isBlank ∘ Char.toLower = isBlank := funext isBlank_toLower
  rw [stripChars, stripChars, List.dropWhile_map, hcomp, List.rdropWhile, List.rdropWhile,
    ← List.map_reverse, List.dropWhile_map, hcomp, List.map_reverse]

theorem stripChars_map_toLower_iff (cs : List Char) :
    stripChars (cs.map Char.toLower) = cs.map Char.toLower ↔ stripChars cs = cs := by
  rw [stripChars_map_toLower]
  constructor
  · intro h
    refine (stripChars_sublist cs).eq_of_length ?_
    simpa using congrArg List.length h
  · intro h
    rw [h]

theorem asciiStrip_toLower_iff (s : String) :
    asciiStrip s.toLower = s.toLower ↔ asciiStrip s = s := by
  have hlower : s.toLower.toList = s.toList.map Char.toLower := String.toList_map
  rw [← String.toList_inj, ← String.toList_inj, toList_asciiStrip, toList_asciiStrip, hlower]
  exact stripChars_map_toLower_iff s.toList

end MailArchiver

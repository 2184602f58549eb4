import Mathlib.Data.List.Basic

/-!
# Lib — Slots

Lists whose elements are addressed by their position, such as processes
or requests: what is left of one after a slot is overwritten or taken out,
how many of its elements meet a condition then, and which is the first.
-/

namespace Slots

variable {α : Type} {l : List α} {x y : α} {i : Nat}

theorem mem_eraseIdx_or (h : x ∈ l) (i : Nat) : x ∈ l.eraseIdx i ∨ l[i]? = some x := by
  obtain ⟨j, hj⟩ := List.mem_iff_getElem?.mp h
  by_cases hij : j = i
  · exact .inr (hij ▸ hj)
  · exact .inl (List.mem_eraseIdx_iff_getElem?.mpr ⟨j, hij, hj⟩)

theorem mem_set_or (h : x ∈ l) (i : Nat) (y : α) : x ∈ l.set i y ∨ l[i]? = some x := by
  obtain ⟨j, hj⟩ := List.mem_iff_getElem?.mp h
  by_cases hij : i = j
  · exact .inr (hij ▸ hj)
  · exact .inl (List.mem_iff_getElem?.mpr ⟨j, by rw [List.getElem?_set_ne hij, hj]⟩)

theorem mem_set_self (h : l[i]? = some x) (y : α) : y ∈ l.set i y := by
  obtain ⟨hi, -⟩ := List.getElem?_eq_some_iff.mp h
  exact List.mem_iff_getElem?.mpr ⟨i, List.getElem?_set_self hi⟩

/-- A slot of the new list is the one written or an old one. -/
theorem getElem?_set_or {j : Nat} (h : (l.set i y)[j]? = some x) :
    (i = j ∧ x = y) ∨ (i ≠ j ∧ l[j]? = some x) := by
  by_cases hij : i = j
  · subst hij
    have hlt : i < l.length := by
      rw [← List.length_set (a := y) (i := i)]
      exact (List.getElem?_eq_some_iff.mp h).1
    rw [List.getElem?_set_self hlt] at h
    exact .inl ⟨rfl, (Option.some.inj h).symm⟩
  · rw [List.getElem?_set_ne hij] at h
    exact .inr ⟨hij, h⟩

/-- A new element at either end counts for itself. -/
theorem countP_cons (a : α) (l : List α) (p : α → Bool) :
    (a :: l).countP p = l.countP p + (p a).toNat := by
  rw [List.countP_cons]
  cases p a <;> rfl

theorem countP_snoc (l : List α) (a : α) (p : α → Bool) :
    (l ++ [a]).countP p = l.countP p + (p a).toNat := by
  rw [List.countP_append, countP_cons, List.countP_nil, Nat.zero_add]

/-- Taking an element out takes it out of the count. -/
theorem countP_eraseIdx (h : l[i]? = some x) (p : α → Bool) :
    (l.eraseIdx i).countP p + (p x).toNat = l.countP p := by
  induction l generalizing i with
  | nil => cases h
  | cons a l ih =>
      cases i with
      | zero =>
          obtain rfl := Option.some.inj h
          rw [List.eraseIdx_cons_zero, countP_cons]
      | succ i =>
          rw [List.eraseIdx_cons_succ, countP_cons, countP_cons, ← ih h]
          omega

/-- Overwriting it puts the new one in its place. -/
theorem countP_set (h : l[i]? = some x) (y : α) (p : α → Bool) :
    (l.set i y).countP p + (p x).toNat = l.countP p + (p y).toNat := by
  induction l generalizing i with
  | nil => cases h
  | cons a l ih =>
      cases i with
      | zero =>
          obtain rfl := Option.some.inj h
          rw [List.set_cons_zero, countP_cons, countP_cons]
          omega
      | succ i =>
          have hrest := ih h
          rw [List.set_cons_succ, countP_cons, countP_cons]
          omega

/-! ## A log of what the slots have come to -/

/-- A slot that comes to a new entry adds it to the log, up to the order. -/
theorem filterMap_set_perm {β : Type} {f : α → Option β} {new : Option β} (h : l[i]? = some x)
    (hf : (f y).toList = (f x).toList ++ new.toList) :
    ((l.set i y).filterMap f).Perm (l.filterMap f ++ new.toList) := by
  induction l generalizing i with
  | nil => cases h
  | cons a l ih =>
      have hcons : ∀ (a : α) (l : List α), (a :: l).filterMap f = (f a).toList ++ l.filterMap f := by
        intro a l
        cases ha : f a with
        | none => simp [ha]
        | some b => simp [ha]
      cases i with
      | zero =>
          obtain rfl := Option.some.inj h
          rw [List.set_cons_zero, hcons, hcons, hf, List.append_assoc, List.append_assoc]
          exact List.perm_append_comm.append_left _
      | succ i =>
          rw [List.set_cons_succ, hcons, hcons, List.append_assoc]
          exact (ih h).append_left _

/-! ## The first element that meets a condition -/

variable {p : α → Bool}

/-- One without such an element in front of it. -/
theorem find?_of_take (h : l[i]? = some x) (hx : p x = true)
    (hfirst : ((l.take i).all fun y => !p y) = true) : l.find? p = some x := by
  induction l generalizing i with
  | nil => cases h
  | cons a l ih =>
      cases i with
      | zero =>
          obtain rfl := Option.some.inj h
          exact List.find?_cons_of_pos hx
      | succ i =>
          rw [List.take_succ_cons, List.all_cons, Bool.and_eq_true, Bool.not_eq_true'] at hfirst
          rw [List.find?_cons_of_neg (by simp [hfirst.1])]
          exact ih h hfirst.2

/-- It stays the first when another is taken out. -/
theorem find?_eraseIdx (hfind : l.find? p = some x) (h : l[i]? = some y) (hne : y ≠ x) :
    (l.eraseIdx i).find? p = some x := by
  induction l generalizing i with
  | nil => cases h
  | cons a l ih =>
      cases i with
      | zero =>
          obtain rfl := Option.some.inj h
          rw [List.eraseIdx_cons_zero]
          by_cases ha : p a = true
          · rw [List.find?_cons_of_pos ha] at hfind
            exact absurd (Option.some.inj hfind) hne
          · rwa [List.find?_cons_of_neg ha] at hfind
      | succ i =>
          rw [List.eraseIdx_cons_succ]
          by_cases ha : p a = true
          · rw [List.find?_cons_of_pos ha] at hfind ⊢
            exact hfind
          · rw [List.find?_cons_of_neg ha] at hfind ⊢
            exact ih hfind h

/-- Or is overwritten by one that meets the condition no sooner. -/
theorem find?_set {z : α} (hfind : l.find? p = some x) (h : l[i]? = some y) (hne : y ≠ x)
    (hz : p z = true → p y = true) : (l.set i z).find? p = some x := by
  induction l generalizing i with
  | nil => cases h
  | cons a l ih =>
      cases i with
      | zero =>
          obtain rfl := Option.some.inj h
          rw [List.set_cons_zero]
          by_cases ha : p a = true
          · rw [List.find?_cons_of_pos ha] at hfind
            exact absurd (Option.some.inj hfind) hne
          · rw [List.find?_cons_of_neg ha] at hfind
            rwa [List.find?_cons_of_neg fun hpz => ha (hz hpz)]
      | succ i =>
          rw [List.set_cons_succ]
          by_cases ha : p a = true
          · rw [List.find?_cons_of_pos ha] at hfind ⊢
            exact hfind
          · rw [List.find?_cons_of_neg ha] at hfind ⊢
            exact ih hfind h

end Slots

import Mathlib.Data.List.Basic

/-!
# Lib — Blocks

Concatenations of blocks of one fixed width `w > 0`. Such a
concatenation is uniquely decodable on its own (`flatten_inj`); behind a
head of unknown length it is not, and `append_flatten_eq_iff` says
exactly how two readings of one sequence can differ: the longer head has
swallowed the first blocks behind the other one.
-/

namespace Blocks

variable {α : Type*} {w : Nat}

/-- Every block has width `w`. -/
def Wide (w : Nat) (bs : List (List α)) : Prop := ∀ b ∈ bs, b.length = w

theorem Wide.cons {b : List α} {bs : List (List α)} (hb : b.length = w) (h : Wide w bs) :
    Wide w (b :: bs) := by
  intro x hx
  rcases List.mem_cons.mp hx with rfl | hx
  · exact hb
  · exact h x hx

theorem Wide.tail {b : List α} {bs : List (List α)} (h : Wide w (b :: bs)) : Wide w bs :=
  fun x hx => h x (List.mem_cons_of_mem _ hx)

theorem length_flatten {bs : List (List α)} (h : Wide w bs) :
    bs.flatten.length = w * bs.length := by
  induction bs with
  | nil => simp
  | cons b bs ih =>
      rw [List.flatten_cons, List.length_append, ih h.tail, h b (by simp), List.length_cons,
        Nat.mul_succ, Nat.add_comm]

/-- A concatenation of blocks of known width is uniquely decodable. -/
theorem flatten_inj (hw : 0 < w) {bs cs : List (List α)} (hb : Wide w bs) (hc : Wide w cs)
    (h : bs.flatten = cs.flatten) : bs = cs := by
  have hlen : bs.length = cs.length := by
    have := congrArg List.length h
    rw [length_flatten hb, length_flatten hc] at this
    exact Nat.eq_of_mul_eq_mul_left hw this
  induction bs generalizing cs with
  | nil => exact (List.length_eq_zero_iff.mp hlen.symm).symm
  | cons b bs ih =>
      cases cs with
      | nil => simp at hlen
      | cons c cs =>
          have hbc : b.length = c.length := by rw [hb b (by simp), hc c (by simp)]
          obtain ⟨rfl, htail⟩ := List.append_inj h hbc
          rw [ih hb.tail hc.tail htail (by simpa using hlen)]

/-- A split of a concatenation at the head of another one falls between
two blocks: the rest is a suffix of the first sequence of blocks. -/
theorem flatten_eq_append_flatten (hw : 0 < w) {bs cs : List (List α)} {p : List α}
    (hb : Wide w bs) (hc : Wide w cs) (h : bs.flatten = p ++ cs.flatten) :
    ∃ k ≤ bs.length, p = (bs.take k).flatten ∧ cs = bs.drop k := by
  have hlen := congrArg List.length h
  rw [List.length_append, length_flatten hb, length_flatten hc] at hlen
  have hle : cs.length ≤ bs.length := by
    refine Nat.le_of_mul_le_mul_left ?_ hw
    omega
  -- `cs` takes the last blocks of `bs`, `p` the `k` before them
  refine ⟨bs.length - cs.length, Nat.sub_le _ _, ?_⟩
  have hdrop : Wide w (bs.drop (bs.length - cs.length)) :=
    fun x hx => hb x (List.mem_of_mem_drop hx)
  have hlast : cs.flatten.length = (bs.drop (bs.length - cs.length)).flatten.length := by
    rw [length_flatten hc, length_flatten hdrop, List.length_drop]
    congr 1
    omega
  have hsplit : p ++ cs.flatten = (bs.take (bs.length - cs.length)).flatten
      ++ (bs.drop (bs.length - cs.length)).flatten := by
    rw [← h, ← List.flatten_append, List.take_append_drop]
  obtain ⟨hp, hcs⟩ := List.append_inj' hsplit hlast
  exact ⟨hp, flatten_inj hw hc hdrop hcs⟩

/-- Two readings of one sequence as a head and blocks of width `w` are
equal, or one head is the other followed by the first blocks behind it. -/
theorem append_flatten_eq_iff (hw : 0 < w) {g h : List α} {bs cs : List (List α)}
    (hb : Wide w bs) (hc : Wide w cs) :
    g ++ bs.flatten = h ++ cs.flatten ↔
      (∃ k ≤ bs.length, h = g ++ (bs.take k).flatten ∧ cs = bs.drop k)
        ∨ (∃ k ≤ cs.length, g = h ++ (cs.take k).flatten ∧ bs = cs.drop k) := by
  constructor
  · intro heq
    rcases List.append_eq_append_iff.mp heq with ⟨p, rfl, hrest⟩ | ⟨p, rfl, hrest⟩
    · obtain ⟨k, hk, rfl, hdrop⟩ := flatten_eq_append_flatten hw hb hc hrest
      exact .inl ⟨k, hk, rfl, hdrop⟩
    · obtain ⟨k, hk, rfl, hdrop⟩ := flatten_eq_append_flatten hw hc hb hrest
      exact .inr ⟨k, hk, rfl, hdrop⟩
  · rintro (⟨k, -, rfl, rfl⟩ | ⟨k, -, rfl, rfl⟩)
    · rw [List.append_assoc, ← List.flatten_append, List.take_append_drop]
    · rw [List.append_assoc, ← List.flatten_append, List.take_append_drop]

end Blocks

import Mathlib.Data.List.Basic

/-!
# Lib — BoolQuery

Boolean queries of a document search engine over leaf clauses of any
kind: a `bool` node asks for all of its `must` and `filter` parts, none
of its `must_not` parts and at least `minimum_should_match` of its
`should` parts. A query means a set of documents; the lemmas below read
that set off the query.
-/

/-- A query over leaf clauses `κ`. -/
inductive BoolQuery (κ : Type) where
  | clause (c : κ)
  | bool (must filter should mustNot : List (BoolQuery κ)) (minimumShouldMatch : Nat)

namespace BoolQuery

variable {κ δ : Type} (holds : κ → δ → Bool)

mutual
/-- Whether a document matches a query. -/
def selects (doc : δ) : BoolQuery κ → Bool
  | .clause c => holds c doc
  | .bool must filter should mustNot n =>
      allSelect doc must && allSelect doc filter && !anySelects doc mustNot
        && decide (n ≤ countSelects doc should)

def allSelect (doc : δ) : List (BoolQuery κ) → Bool
  | [] => true
  | q :: qs => selects doc q && allSelect doc qs

def anySelects (doc : δ) : List (BoolQuery κ) → Bool
  | [] => false
  | q :: qs => selects doc q || anySelects doc qs

def countSelects (doc : δ) : List (BoolQuery κ) → Nat
  | [] => 0
  | q :: qs => (if selects doc q then 1 else 0) + countSelects doc qs
end

theorem allSelect_eq (doc : δ) (qs : List (BoolQuery κ)) :
    allSelect holds doc qs = qs.all (selects holds doc) := by
  induction qs with
  | nil => rfl
  | cons q qs ih => rw [allSelect, ih, List.all_cons]

theorem anySelects_eq (doc : δ) (qs : List (BoolQuery κ)) :
    anySelects holds doc qs = qs.any (selects holds doc) := by
  induction qs with
  | nil => rfl
  | cons q qs ih => rw [anySelects, ih, List.any_cons]

theorem countSelects_eq (doc : δ) (qs : List (BoolQuery κ)) :
    countSelects holds doc qs = qs.countP (selects holds doc) := by
  induction qs with
  | nil => rfl
  | cons q qs ih =>
      rw [countSelects, ih, List.countP_cons, Nat.add_comm]

@[simp] theorem selects_clause (doc : δ) (c : κ) :
    selects holds doc (.clause c) = holds c doc := by
  rw [selects]

/-- The meaning of a `bool` node. -/
theorem selects_bool (doc : δ) (must filter should mustNot : List (BoolQuery κ)) (n : Nat) :
    selects holds doc (.bool must filter should mustNot n) = true ↔
      (∀ q ∈ must, selects holds doc q = true) ∧ (∀ q ∈ filter, selects holds doc q = true)
        ∧ (∀ q ∈ mustNot, selects holds doc q = false)
        ∧ n ≤ should.countP (selects holds doc) := by
  rw [selects, allSelect_eq, allSelect_eq, anySelects_eq, countSelects_eq]
  simp [and_assoc]

/-- A pure disjunction. -/
theorem selects_anyOf (doc : δ) (should : List (BoolQuery κ)) :
    selects holds doc (.bool [] [] should [] 1) = true ↔
      ∃ q ∈ should, selects holds doc q = true := by
  rw [selects_bool]
  simp [Nat.one_le_iff_ne_zero]

/-- A pure exclusion. -/
theorem selects_noneOf (doc : δ) (mustNot : List (BoolQuery κ)) :
    selects holds doc (.bool [] [] [] mustNot 0) = true ↔
      ∀ q ∈ mustNot, selects holds doc q = false := by
  simp [selects_bool]

end BoolQuery

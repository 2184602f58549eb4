import Mathlib.Data.List.Sort

/-!
# Lib — Ranking

Results in the order of a sort: rows compared by one value after the
other, ties broken by a last comparison. Where no tie is left the ranking
is a function of what is ranked, whatever order it is found in.
-/

namespace Ranking

variable {α : Type}

/-- A comparison that ranks any two rows. -/
structure Total (le : α → α → Bool) : Prop where
  total : ∀ a b, le a b = true ∨ le b a = true
  trans : ∀ a b c, le a b = true → le b c = true → le a c = true

/-- It ranks any two of these rows one way only. -/
def Decides (le : α → α → Bool) (rows : List α) : Prop :=
  ∀ a ∈ rows, ∀ b ∈ rows, le a b = true → le b a = true → a = b

/-- By `key`, the greatest first, then by `tie`. -/
def descBy (key : α → Int) (tie : α → α → Bool) (a b : α) : Bool :=
  decide (key b < key a) || (decide (key a = key b) && tie a b)

/-- The rows in their order. -/
def ranked (le : α → α → Bool) (rows : List α) : List α :=
  rows.insertionSort fun a b => le a b = true

variable {le tie : α → α → Bool} {rows rows' : List α}

theorem descBy_iff {key : α → Int} {a b : α} :
    descBy key tie a b = true ↔ key b < key a ∨ (key a = key b ∧ tie a b = true) := by
  simp [descBy]

theorem Total.descBy (h : Total tie) (key : α → Int) : Total (descBy key tie) where
  total := by
    intro a b
    rw [descBy_iff, descBy_iff]
    rcases lt_trichotomy (key b) (key a) with hlt | heq | hgt
    · exact .inl (.inl hlt)
    · rcases h.total a b with hab | hba
      · exact .inl (.inr ⟨heq.symm, hab⟩)
      · exact .inr (.inr ⟨heq, hba⟩)
    · exact .inr (.inl hgt)
  trans := by
    intro a b c hab hbc
    rw [descBy_iff] at hab hbc ⊢
    rcases hab with hab | ⟨hab, htab⟩
    · exact .inl (by omega)
    · rcases hbc with hbc | ⟨hbc, htbc⟩
      · exact .inl (by omega)
      · exact .inr ⟨hab.trans hbc, h.trans a b c htab htbc⟩

/-- One more value to sort by leaves no tie where there was none. -/
theorem Decides.descBy (h : Decides tie rows) (key : α → Int) :
    Decides (descBy key tie) rows := by
  intro a ha b hb hab hba
  rw [descBy_iff] at hab hba
  have htab : tie a b = true := by
    rcases hab with hlt | ⟨-, htab⟩
    · exact absurd hba (by omega)
    · exact htab
  have htba : tie b a = true := by
    rcases hba with hlt | ⟨-, htba⟩
    · exact absurd hab (by omega)
    · exact htba
  exact h a ha b hb htab htba

theorem Decides.subset (h : Decides le rows) (hsub : rows' ⊆ rows) : Decides le rows' :=
  fun a ha b hb => h a (hsub ha) b (hsub hb)

theorem ranked_perm (le : α → α → Bool) (rows : List α) : (ranked le rows).Perm rows :=
  List.perm_insertionSort _ rows

/-- Each row is ranked before the ones after it. -/
theorem ranked_pairwise (h : Total le) (rows : List α) :
    (ranked le rows).Pairwise fun a b => le a b = true := by
  have : Std.Total fun a b => le a b = true := ⟨h.total⟩
  have : IsTrans α fun a b => le a b = true := ⟨h.trans⟩
  exact List.pairwise_insertionSort _ rows

/-- **The order the rows are found in does not show.** -/
theorem ranked_eq_of_perm (h : Total le) (hdecides : Decides le rows) (hperm : rows.Perm rows') :
    ranked le rows = ranked le rows' := by
  have hp := (ranked_perm le rows).trans (hperm.trans (ranked_perm le rows').symm)
  refine hp.eq_of_pairwise (fun a b ha hb => ?_) (ranked_pairwise h rows) (ranked_pairwise h rows')
  have ha' := (ranked_perm le rows).mem_iff.mp ha
  have hb' := hperm.mem_iff.mpr ((ranked_perm le rows').mem_iff.mp hb)
  exact hdecides a ha' b hb'

end Ranking

import Mathlib.Data.List.Basic

/-!
# Lib — Transition

Transition systems given by an executable step: an event is possible in a
state or it is not. A run is a list of events; what one step preserves a
run preserves (`run_invariant`), also when the run is only known to meet
a condition at each of its steps (`run_invariant_of_meets`). A procedure
is a system that steps until it is final (`runUntil`); a measure that
each step lowers shows that it gets there (`runUntil_total`).
-/

namespace Transition

variable {σ ε : Type} (step : σ → ε → Option σ)

/-- The state after a list of events, if all of them were possible. -/
def run : σ → List ε → Option σ
  | s, [] => some s
  | s, e :: es =>
      match step s e with
      | none => none
      | some s' => run s' es

/-- The states some run from `init` ends in. -/
def Reachable (init s : σ) : Prop := ∃ es, run step init es = some s

/-- Every step of a run meets a condition on the event and the state
before it. -/
def Meets (C : σ → ε → Prop) : σ → List ε → Prop
  | _, [] => True
  | s, e :: es =>
      C s e ∧
        match step s e with
        | none => True
        | some s' => Meets C s' es

/-- The same for a condition that is computed. -/
def meetsAll (check : σ → ε → Bool) : σ → List ε → Bool
  | _, [] => true
  | s, e :: es =>
      check s e &&
        match step s e with
        | none => true
        | some s' => meetsAll check s' es

/-- Steps until the state is final, each with the next event. -/
def runUntil (final : σ → Bool) (next : Nat → ε) : Nat → σ → Option σ
  | 0, s => if final s then some s else none
  | fuel + 1, s =>
      if final s then some s
      else
        match step s (next fuel) with
        | none => none
        | some s' => runUntil final next fuel s'

variable {step}

@[simp] theorem run_nil (s : σ) : run step s [] = some s := rfl

theorem run_cons_eq_some {s t : σ} {e : ε} {es : List ε} :
    run step s (e :: es) = some t ↔ ∃ s', step s e = some s' ∧ run step s' es = some t := by
  rw [run]
  cases step s e with
  | none => simp
  | some s' => simp

theorem run_append {s t : σ} {es fs : List ε} :
    run step s (es ++ fs) = some t ↔ ∃ u, run step s es = some u ∧ run step u fs = some t := by
  induction es generalizing s with
  | nil => simp
  | cons e es ih =>
      rw [List.cons_append, run_cons_eq_some]
      constructor
      · rintro ⟨s', hs, hrun⟩
        obtain ⟨u, hu, ht⟩ := ih.mp hrun
        exact ⟨u, run_cons_eq_some.mpr ⟨s', hs, hu⟩, ht⟩
      · rintro ⟨u, hu, ht⟩
        obtain ⟨s', hs, hu'⟩ := run_cons_eq_some.mp hu
        exact ⟨s', hs, ih.mpr ⟨u, hu', ht⟩⟩

theorem Reachable.snoc {init s s' : σ} {e : ε} (h : Reachable step init s)
    (hs : step s e = some s') : Reachable step init s' := by
  obtain ⟨es, hes⟩ := h
  exact ⟨es ++ [e], run_append.mpr ⟨s, hes, run_cons_eq_some.mpr ⟨s', hs, rfl⟩⟩⟩

theorem meets_cons {C : σ → ε → Prop} {s : σ} {e : ε} {es : List ε} (he : C s e)
    (hrest : ∀ s', step s e = some s' → Meets step C s' es) : Meets step C s (e :: es) := by
  refine ⟨he, ?_⟩
  cases hs : step s e with
  | none => trivial
  | some s' => exact hrest s' hs

theorem meets_append {C : σ → ε → Prop} {s t : σ} {es fs : List ε} (hrun : run step s es = some t) :
    Meets step C s (es ++ fs) ↔ Meets step C s es ∧ Meets step C t fs := by
  induction es generalizing s with
  | nil =>
      obtain rfl := Option.some.inj hrun
      simp [Meets]
  | cons e es ih =>
      obtain ⟨s', hs', hrun'⟩ := run_cons_eq_some.mp hrun
      rw [List.cons_append, Meets, Meets, hs', and_assoc]
      exact and_congr_right fun _ => ih hrun'

/-- Two conditions are met together. -/
theorem Meets.and {C D : σ → ε → Prop} {s : σ} {es : List ε} (hC : Meets step C s es)
    (hD : Meets step D s es) : Meets step (fun s e => C s e ∧ D s e) s es := by
  induction es generalizing s with
  | nil => trivial
  | cons e es ih =>
      refine meets_cons ⟨hC.1, hD.1⟩ fun s' hs => ?_
      have hC' := hC.2
      have hD' := hD.2
      rw [hs] at hC' hD'
      exact ih hC' hD'

/-- A condition on the events alone. -/
theorem meets_of_forall {C : ε → Prop} {s : σ} {es : List ε} (h : ∀ e ∈ es, C e) :
    Meets step (fun _ e => C e) s es := by
  induction es generalizing s with
  | nil => trivial
  | cons e es ih =>
      refine ⟨h e List.mem_cons_self, ?_⟩
      cases step s e with
      | none => trivial
      | some s' => exact ih fun e' he' => h e' (List.mem_cons_of_mem _ he')

/-- Every step of a run stands behind the events that lead to its state. -/
theorem meets_place {init s : σ} {before es : List ε} (h : run step init before = some s) :
    Meets step (fun u e => ∃ front back, before ++ es = front ++ e :: back
      ∧ run step init front = some u) s es := by
  induction es generalizing before s with
  | nil => trivial
  | cons e es ih =>
      refine meets_cons ⟨before, es, rfl, h⟩ fun s' hs => ?_
      have hrun : run step init (before ++ [e]) = some s' :=
        run_append.mpr ⟨s, h, run_cons_eq_some.mpr ⟨s', hs, rfl⟩⟩
      have hnext := ih hrun
      rwa [List.append_assoc] at hnext

/-- A condition that a check decides where an invariant holds. -/
theorem meets_of_meetsAll {I : σ → Prop} {C : σ → ε → Prop} {check : σ → ε → Bool}
    (hstep : ∀ s e s', I s → check s e = true → step s e = some s' → I s')
    (hcheck : ∀ s e, I s → check s e = true → C s e) {s : σ} {es : List ε} (hs : I s)
    (h : meetsAll step check s es = true) : Meets step C s es := by
  induction es generalizing s with
  | nil => trivial
  | cons e es ih =>
      rw [meetsAll, Bool.and_eq_true] at h
      obtain ⟨he, hrest⟩ := h
      refine ⟨hcheck s e hs he, ?_⟩
      cases hs' : step s e with
      | none => trivial
      | some s' =>
          rw [hs'] at hrest
          exact ih (hstep s e s' hs he hs') hrest

/-- A condition that a check decides everywhere. -/
theorem meets_of_check {C : σ → ε → Prop} {check : σ → ε → Bool}
    (hcheck : ∀ s e, check s e = true → C s e) {s : σ} {es : List ε}
    (h : meetsAll step check s es = true) : Meets step C s es :=
  meets_of_meetsAll (I := fun _ => True) (fun _ _ _ _ _ _ => trivial) (fun s e _ => hcheck s e)
    trivial h

/-- What each step preserves holds at the end of a run, if it held at its
beginning. -/
theorem run_invariant {I : σ → Prop} (hstep : ∀ s e s', I s → step s e = some s' → I s')
    {s t : σ} {es : List ε} (hrun : run step s es = some t) (hs : I s) : I t := by
  induction es generalizing s with
  | nil => exact Option.some.inj hrun ▸ hs
  | cons e es ih =>
      obtain ⟨s', hs', hrun'⟩ := run_cons_eq_some.mp hrun
      exact ih hrun' (hstep s e s' hs hs')

/-- An invariant that holds initially holds of every reachable state. -/
theorem Reachable.invariant {I : σ → Prop} {init s : σ} (h : Reachable step init s)
    (hinit : I init) (hstep : ∀ s e s', I s → step s e = some s' → I s') : I s := by
  obtain ⟨es, hes⟩ := h
  exact run_invariant hstep hes hinit

/-- The same for steps that meet a condition. -/
theorem run_invariant_of_meets {I : σ → Prop} {C : σ → ε → Prop}
    (hstep : ∀ s e s', I s → C s e → step s e = some s' → I s') {s t : σ} {es : List ε}
    (hrun : run step s es = some t) (hmeets : Meets step C s es) (hs : I s) : I t := by
  induction es generalizing s with
  | nil => exact Option.some.inj hrun ▸ hs
  | cons e es ih =>
      obtain ⟨s', hs', hrun'⟩ := run_cons_eq_some.mp hrun
      obtain ⟨hC, hrest⟩ := hmeets
      rw [hs'] at hrest
      exact ih hrun' hrest (hstep s e s' hs hC hs')

/-- **Where one step keeps a property exactly under a condition on the
state before it**, all states of a run have the property iff all its
steps meet the condition. -/
theorem always_iff_meets {I : σ → Prop} {C : σ → ε → Prop}
    (hiff : ∀ s e s', I s → step s e = some s' → (I s' ↔ C s e)) {s t : σ} {es : List ε}
    (hrun : run step s es = some t) (hs : I s) :
    (∀ front back u, es = front ++ back → run step s front = some u → I u)
      ↔ Meets step C s es := by
  induction es generalizing s with
  | nil =>
      refine ⟨fun _ => trivial, fun _ front back u hsplit hu => ?_⟩
      obtain ⟨rfl, -⟩ := List.append_eq_nil_iff.mp hsplit.symm
      exact Option.some.inj hu ▸ hs
  | cons e es ih =>
      obtain ⟨s', hs', hrun'⟩ := run_cons_eq_some.mp hrun
      rw [Meets, hs']
      constructor
      · intro halways
        have hI : I s' := halways [e] es s' rfl (run_cons_eq_some.mpr ⟨s', hs', rfl⟩)
        refine ⟨(hiff s e s' hs hs').mp hI, (ih hrun' hI).mp fun front back u hsplit hu => ?_⟩
        exact halways (e :: front) back u (by rw [hsplit, List.cons_append])
          (run_cons_eq_some.mpr ⟨s', hs', hu⟩)
      · rintro ⟨hC, hrest⟩ front back u hsplit hu
        have hI : I s' := (hiff s e s' hs hs').mpr hC
        cases front with
        | nil => exact Option.some.inj hu ▸ hs
        | cons e' front =>
            rw [List.cons_append, List.cons.injEq] at hsplit
            obtain ⟨rfl, hsplit⟩ := hsplit
            obtain ⟨s'', hs'', hu'⟩ := run_cons_eq_some.mp hu
            obtain rfl : s' = s'' := Option.some.inj (hs'.symm.trans hs'')
            exact (ih hrun' hI).mpr hrest front back u hsplit hu'

/-- **Total correctness**: where each step from a state that is not final
is possible, keeps the invariant and lowers the measure, enough fuel
gives a final state with the invariant. -/
theorem runUntil_total {final : σ → Bool} {next : Nat → ε} {I : σ → Prop} {measure : σ → Nat}
    (hstep : ∀ s i, I s → final s = false →
      ∃ s', step s (next i) = some s' ∧ I s' ∧ measure s' < measure s)
    {fuel : Nat} {s : σ} (hs : I s) (hfuel : measure s ≤ fuel) :
    ∃ t, runUntil step final next fuel s = some t ∧ I t ∧ final t = true := by
  induction fuel generalizing s with
  | zero =>
      cases hfinal : final s with
      | true => exact ⟨s, by simp [runUntil, hfinal], hs, hfinal⟩
      | false =>
          obtain ⟨s', -, -, hlt⟩ := hstep s 0 hs hfinal
          omega
  | succ fuel ih =>
      cases hfinal : final s with
      | true => exact ⟨s, by simp [runUntil, hfinal], hs, hfinal⟩
      | false =>
          obtain ⟨s', hs', hinv, hlt⟩ := hstep s fuel hs hfinal
          obtain ⟨t, ht, hI, hend⟩ := ih hinv (by omega)
          refine ⟨t, ?_, hI, hend⟩
          simp only [runUntil, hfinal, hs', Bool.false_eq_true, if_false]
          exact ht

end Transition

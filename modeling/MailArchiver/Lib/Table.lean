import Mathlib.Algebra.BigOperators.Group.List.Basic
import Mathlib.Data.List.Nodup

/-!
# Lib — Table

Tables as lists of rows with a unique key: lookups by the key, what
deleting and adding rows does to it, and counting and summing the rows of
a link table.
-/

namespace Table

variable {α κ : Type} {key : α → κ} {rows : List α}

/-- The row under a key is the one that has it. -/
theorem find?_key [DecidableEq κ] (hnodup : (rows.map key).Nodup) {a : α} (ha : a ∈ rows) :
    rows.find? (fun r => key r = key a) = some a := by
  cases hfind : rows.find? fun r => key r = key a with
  | none => exact absurd (List.find?_eq_none.mp hfind a ha) (by simp)
  | some b =>
      have hkey : key b = key a := by simpa using List.find?_some hfind
      rw [List.inj_on_of_nodup_map hnodup (List.mem_of_find?_eq_some hfind) ha hkey]

/-- It is the only one. -/
theorem filter_key [DecidableEq κ] (hnodup : (rows.map key).Nodup) {a : α} (ha : a ∈ rows) :
    rows.filter (fun r => key r = key a) = [a] := by
  obtain ⟨front, back, rfl⟩ := List.append_of_mem ha
  rw [List.map_append, List.map_cons, List.nodup_middle, List.nodup_cons, ← List.map_append] at hnodup
  have hother : ∀ r ∈ front ++ back, key r ≠ key a :=
    fun r hr heq => hnodup.1 (List.mem_map.mpr ⟨r, hr, heq⟩)
  have hfront : front.filter (fun r => key r = key a) = [] :=
    List.filter_eq_nil_iff.mpr fun r hr => by simpa using hother r (List.mem_append_left _ hr)
  have hback : back.filter (fun r => key r = key a) = [] :=
    List.filter_eq_nil_iff.mpr fun r hr => by simpa using hother r (List.mem_append_right _ hr)
  rw [List.filter_append, List.filter_cons, if_pos (by simp), hfront, hback, List.nil_append]

/-- Deleting rows keeps the key unique. -/
theorem nodup_filter (hnodup : (rows.map key).Nodup) (p : α → Bool) :
    ((rows.filter p).map key).Nodup :=
  hnodup.sublist (List.filter_sublist.map key)

/-- So does a new row with a new key. -/
theorem nodup_append (hnodup : (rows.map key).Nodup) {a : α} (ha : ∀ r ∈ rows, key r ≠ key a) :
    ((rows ++ [a]).map key).Nodup := by
  rw [List.map_append, List.map_singleton, List.nodup_append]
  refine ⟨hnodup, List.nodup_singleton _, ?_⟩
  intro k hk k' hk'
  obtain ⟨r, hr, rfl⟩ := List.mem_map.mp hk
  rw [List.mem_singleton.mp hk']
  exact ha r hr

/-- A sequence that is above every key gives a new one. -/
theorem nodup_insert {key : α → Nat} {next : Nat} (hnodup : (rows.map key).Nodup)
    (hfresh : ∀ r ∈ rows, key r < next) {a : α} (ha : key a = next) :
    ((rows ++ [a]).map key).Nodup := by
  refine nodup_append hnodup fun r hr heq => ?_
  have hlt := hfresh r hr
  omega

theorem fresh_insert {key : α → Nat} {next : Nat} (hfresh : ∀ r ∈ rows, key r < next) {a : α}
    (ha : key a = next) : ∀ r ∈ rows ++ [a], key r < next + 1 := by
  intro r hr
  rcases List.mem_append.mp hr with hr | hr
  · exact Nat.lt_succ_of_lt (hfresh r hr)
  · rw [List.mem_singleton.mp hr, ha]
    exact Nat.lt_succ_self next

/-- An update that leaves the keys. -/
theorem map_key_update {f : α → α} (hf : ∀ r, key (f r) = key r) :
    (rows.map f).map key = rows.map key := by
  rw [List.map_map]
  exact List.map_congr_left fun r _ => hf r

theorem fresh_update {key : α → Nat} {next : Nat} {f : α → α} (hf : ∀ r, key (f r) = key r)
    (hfresh : ∀ r ∈ rows, key r < next) : ∀ r ∈ rows.map f, key r < next := by
  intro r hr
  obtain ⟨old, hold, rfl⟩ := List.mem_map.mp hr
  exact (hf old).symm ▸ hfresh old hold

/-- Rows told apart by one key are told apart by any other that agrees
with it. -/
theorem nodup_of_iff {ι : Type} {key' : α → ι} (hnodup : (rows.map key).Nodup)
    (h : ∀ a ∈ rows, ∀ b ∈ rows, key a = key b ↔ key' a = key' b) : (rows.map key').Nodup := by
  have hrows : rows.Nodup := List.Nodup.of_map _ hnodup
  refine List.Nodup.map_on (fun a ha b hb hab => ?_) hrows
  exact List.inj_on_of_nodup_map hnodup ha hb ((h a ha b hb).mpr hab)

theorem countP_or_of_disjoint {p q : α → Bool} (h : ∀ a ∈ rows, p a = true → q a = false) :
    rows.countP (fun a => p a || q a) = rows.countP p + rows.countP q := by
  induction rows with
  | nil => rfl
  | cons a rows ih =>
      have ih := ih fun b hb => h b (List.mem_cons_of_mem _ hb)
      have ha := h a List.mem_cons_self
      rw [List.countP_cons, List.countP_cons, List.countP_cons, ih]
      cases hp : p a with
      | false => simp; omega
      | true => simp [ha hp]; omega

/-- If as many rows satisfy `p` and `q` as satisfy `p`, they are the same. -/
theorem of_countP_le {p q : α → Prop} [DecidablePred p] [DecidablePred q]
    (h : rows.countP (fun a => p a) ≤ rows.countP fun a => p a ∧ q a) {a : α} (ha : a ∈ rows)
    (hp : p a) : q a := by
  have hle : ∀ rows : List α, rows.countP (fun a => p a ∧ q a) ≤ rows.countP fun a => p a := by
    intro rows
    refine List.countP_mono_left fun a _ hpq => ?_
    exact decide_eq_true (of_decide_eq_true hpq).1
  obtain ⟨front, back, rfl⟩ := List.append_of_mem ha
  rw [List.countP_append, List.countP_append, List.countP_cons, List.countP_cons] at h
  have hfront := hle front
  have hback := hle back
  by_contra hq
  simp only [hp, hq, decide_true, and_false, decide_false, if_true, Bool.false_eq_true,
    if_false] at h
  omega

section Links

variable {ι : Type} [DecidableEq α] [DecidableEq κ] [DecidableEq ι] {f : α → κ} {g : α → ι}

/-- The links of one pair, in a table that holds each pair once. -/
theorem countP_pair (hinj : ∀ x y, f x = f y → g x = g y → x = y) (hrows : rows.Nodup) (k : κ)
    (i : ι) : rows.countP (fun l => g l = i ∧ f l = k) =
      if ∃ l ∈ rows, f l = k ∧ g l = i then 1 else 0 := by
  split
  · rename_i h
    obtain ⟨l, hl, rfl, rfl⟩ := h
    have hcount : rows.countP (fun x => g x = g l ∧ f x = f l) = rows.count l := by
      refine List.countP_congr fun x _ => ?_
      simp only [decide_eq_true_eq, beq_iff_eq]
      exact ⟨fun hx => hinj x l hx.2 hx.1, fun hx => hx ▸ ⟨rfl, rfl⟩⟩
    rw [hcount, List.count_eq_one_of_mem hrows hl]
  · rename_i h
    refine List.countP_eq_zero.mpr fun l hl hx => h ⟨l, hl, ?_⟩
    exact (of_decide_eq_true hx).symm

/-- The links from a set of keys to `i`: one for each key that has one. -/
theorem countP_links (hinj : ∀ x y, f x = f y → g x = g y → x = y) (hrows : rows.Nodup)
    {keys : List κ} (hkeys : keys.Nodup) (i : ι) :
    rows.countP (fun l => g l = i ∧ f l ∈ keys) =
      keys.countP fun k => ∃ l ∈ rows, f l = k ∧ g l = i := by
  induction keys with
  | nil => simp
  | cons k keys ih =>
      obtain ⟨hk, hkeys⟩ := List.nodup_cons.mp hkeys
      have hsplit : rows.countP (fun l => g l = i ∧ f l ∈ k :: keys) =
          rows.countP (fun l => g l = i ∧ f l = k)
            + rows.countP (fun l => g l = i ∧ f l ∈ keys) := by
        rw [← countP_or_of_disjoint]
        · refine List.countP_congr fun l _ => ?_
          simp only [List.mem_cons, decide_eq_true_eq, Bool.or_eq_true]
          tauto
        · intro l _ hl
          obtain ⟨-, rfl⟩ := of_decide_eq_true hl
          simp [hk]
      rw [hsplit, countP_pair hinj hrows, ih hkeys, List.countP_cons, Nat.add_comm]
      simp only [decide_eq_true_eq]

end Links

end Table

import Mathlib.Data.List.Basic
import Mathlib.Order.Lattice

/-!
# Lib — Paging

Keyset pagination over rows in strictly decreasing order of a key: a page
is the first rows behind a cursor, and the next cursor is the key of its
last row. The rows may change between two requests (`rowsAt`); what is
there all along is found once, and nothing comes twice.
-/

namespace Paging

variable {α κ : Type} [LinearOrder κ] (key : α → κ)

/-- The rows come in strictly decreasing order. -/
def Decreasing (rows : List α) : Prop := rows.Pairwise fun a b => key b < key a

/-- Behind the cursor, which may be before the first row. -/
def behind : Option κ → α → Bool
  | none, _ => true
  | some cursor, a => decide (key a < cursor)

/-- Everything is behind the cursor before the first row. -/
@[simp] theorem filter_behind_none (rows : List α) : rows.filter (behind key none) = rows :=
  List.filter_eq_self.mpr fun _ _ => rfl

def page (rows : List α) (cursor : Option κ) (size : Nat) : List α :=
  (rows.filter (behind key cursor)).take size

/-- The pages of at most so many requests, the first one being request
`k`, and whether the last was short. -/
def follow (rowsAt : Nat → List α) (size : Nat) : Nat → Nat → Option κ → List (List α) × Bool
  | 0, _, _ => ([], false)
  | n + 1, k, cursor =>
      let rows := page key (rowsAt k) cursor size
      if rows.length < size then ([rows], true)
      else
        match rows.getLast? with
        | none => ([rows], true)
        | some a =>
            let rest := follow rowsAt size n (k + 1) (some (key a))
            (rows :: rest.1, rest.2)

variable {key} {rows : List α} {cursor : Option κ} {size : Nat}

theorem Decreasing.page (h : Decreasing key rows) (cursor : Option κ) (size : Nat) :
    Decreasing key (page key rows cursor size) :=
  h.sublist ((List.take_sublist ..).trans List.filter_sublist)

theorem mem_rows_of_mem_page {a : α} (h : a ∈ page key rows cursor size) :
    a ∈ rows ∧ behind key cursor a = true :=
  List.mem_filter.mp (List.mem_of_mem_take h)

/-- The last row of a page is the least. -/
theorem Decreasing.last_le (h : Decreasing key rows) {a b : α} (ha : a ∈ rows)
    (hb : rows.getLast? = some b) : key b ≤ key a := by
  obtain ⟨front, rfl⟩ := List.getLast?_eq_some_iff.mp hb
  rcases List.mem_append.mp ha with ha | ha
  · exact le_of_lt ((List.pairwise_append.mp h).2.2 a ha b (List.mem_singleton_self b))
  · exact le_of_eq (congrArg key (List.mem_singleton.mp ha).symm)

/-- What a page leaves out comes behind its last row. -/
theorem mem_page_or_behind (h : Decreasing key rows) {a b : α} (ha : a ∈ rows)
    (hbehind : behind key cursor a = true) (hb : (page key rows cursor size).getLast? = some b) :
    a ∈ page key rows cursor size ∨ key a < key b := by
  have hmem : a ∈ rows.filter (behind key cursor) := List.mem_filter.mpr ⟨ha, hbehind⟩
  have hdec : Decreasing key (rows.filter (behind key cursor)) := h.sublist List.filter_sublist
  rw [← List.take_append_drop size (rows.filter (behind key cursor))] at hmem hdec
  rcases List.mem_append.mp hmem with hmem | hmem
  · exact .inl hmem
  · exact .inr ((List.pairwise_append.mp hdec).2.2 b (List.mem_of_getLast? hb) a hmem)

/-- A short page is everything behind the cursor. -/
theorem mem_page_of_short {a : α} (ha : a ∈ rows) (hbehind : behind key cursor a = true)
    (hshort : (page key rows cursor size).length < size) : a ∈ page key rows cursor size := by
  have hall : page key rows cursor size = rows.filter (behind key cursor) := by
    rw [page, List.length_take] at hshort
    rw [page, List.take_of_length_le (by omega)]
  rw [hall]
  exact List.mem_filter.mpr ⟨ha, hbehind⟩

theorem behind_of_lt {a b : α} (hb : behind key cursor b = true) (hab : key a < key b) :
    behind key cursor a = true := by
  cases cursor with
  | none => rfl
  | some c => exact decide_eq_true (lt_trans hab (of_decide_eq_true hb))

section

variable {rowsAt : Nat → List α}

/-- The three ways a request ends: a short page, or a full one and the
pages that follow it. -/
theorem follow_succ_cases (n k : Nat) (cursor : Option κ) (size : Nat) :
    (follow key rowsAt size (n + 1) k cursor = ([page key (rowsAt k) cursor size], true)
        ∧ ((page key (rowsAt k) cursor size).length < size
          ∨ page key (rowsAt k) cursor size = []))
      ∨ ∃ b rest, (page key (rowsAt k) cursor size).getLast? = some b
        ∧ size ≤ (page key (rowsAt k) cursor size).length
        ∧ follow key rowsAt size n (k + 1) (some (key b)) = rest
        ∧ follow key rowsAt size (n + 1) k cursor
            = (page key (rowsAt k) cursor size :: rest.1, rest.2) := by
  rw [follow]
  split
  · exact .inl ⟨rfl, .inl ‹_›⟩
  · cases hlast : (page key (rowsAt k) cursor size).getLast? with
    | none => exact .inl ⟨rfl, .inr (List.getLast?_eq_none_iff.mp hlast)⟩
    | some b => exact .inr ⟨b, _, rfl, by omega, rfl, rfl⟩

/-- Every row found was there at its request, behind the first cursor. -/
theorem mem_follow {n k : Nat} {cursor : Option κ} {a : α}
    (ha : a ∈ (follow key rowsAt size n k cursor).1.flatten) :
    behind key cursor a = true
      ∧ ∃ j < (follow key rowsAt size n k cursor).1.length, a ∈ rowsAt (k + j) := by
  induction n generalizing k cursor with
  | zero => simp [follow] at ha
  | succ n ih =>
      rcases follow_succ_cases n k cursor size with ⟨heq, -⟩ | ⟨b, rest, hb, -, hrest, heq⟩
      · rw [heq] at ha ⊢
        obtain ⟨hmem, hbehind⟩ := mem_rows_of_mem_page (by simpa using ha)
        exact ⟨hbehind, 0, by simp, hmem⟩
      · rw [heq] at ha ⊢
        subst hrest
        rcases List.mem_append.mp (List.flatten_cons ▸ ha) with ha | ha
        · obtain ⟨hmem, hbehind⟩ := mem_rows_of_mem_page ha
          exact ⟨hbehind, 0, by simp, hmem⟩
        · obtain ⟨hbehind, j, hj, hmem⟩ := ih ha
          have hbb := (mem_rows_of_mem_page (List.mem_of_getLast? hb)).2
          refine ⟨behind_of_lt hbb (of_decide_eq_true hbehind), j + 1, ?_, ?_⟩
          · rw [List.length_cons]
            omega
          · rwa [Nat.add_comm j 1, ← Nat.add_assoc]

/-- **No row comes twice**, whatever changes between the requests. -/
theorem follow_decreasing (h : ∀ k, Decreasing key (rowsAt k)) (n k : Nat) (cursor : Option κ) :
    Decreasing key (follow key rowsAt size n k cursor).1.flatten := by
  induction n generalizing k cursor with
  | zero => exact List.Pairwise.nil
  | succ n ih =>
      rcases follow_succ_cases n k cursor size with ⟨heq, -⟩ | ⟨b, rest, hb, -, hrest, heq⟩
      · rw [heq]
        simpa using (h k).page cursor size
      · rw [heq, List.flatten_cons]
        subst hrest
        refine List.pairwise_append.mpr ⟨(h k).page cursor size, ih _ _, fun a ha c hc => ?_⟩
        have hcb : key c < key b := of_decide_eq_true (mem_follow hc).1
        exact lt_of_lt_of_le hcb (((h k).page cursor size).last_le ha hb)

/-- **A row that is there at every request is found**, once the pages end. -/
theorem mem_follow_of_present (h : ∀ k, Decreasing key (rowsAt k)) (hsize : 0 < size) {n k : Nat}
    {cursor : Option κ} (hend : (follow key rowsAt size n k cursor).2 = true) {a : α}
    (hbehind : behind key cursor a = true)
    (hpresent : ∀ j < (follow key rowsAt size n k cursor).1.length, a ∈ rowsAt (k + j)) :
    a ∈ (follow key rowsAt size n k cursor).1.flatten := by
  induction n generalizing k cursor with
  | zero => simp [follow] at hend
  | succ n ih =>
      rcases follow_succ_cases n k cursor size with ⟨heq, hshort⟩ | ⟨b, rest, hb, -, hrest, heq⟩
      · rw [heq] at hpresent ⊢
        have hlt : (page key (rowsAt k) cursor size).length < size := by
          rcases hshort with hlt | hnil
          · exact hlt
          · rw [hnil]
            exact hsize
        simpa using mem_page_of_short (hpresent 0 (by simp)) hbehind hlt
      · rw [heq] at hend hpresent ⊢
        subst hrest
        rw [List.flatten_cons, List.mem_append]
        rcases mem_page_or_behind (h k) (hpresent 0 (by simp)) hbehind hb with hmem | hlt
        · exact .inl hmem
        · refine .inr (ih hend (decide_eq_true hlt) fun j hj => ?_)
          have := hpresent (j + 1) (by simpa using hj)
          rwa [Nat.add_comm j 1, ← Nat.add_assoc] at this

end

/-! ## Rows that do not change -/

/-- Behind the last row of a page come the rows the page left out. -/
theorem filter_behind_last (h : Decreasing key rows) {b : α}
    (hb : (page key rows cursor size).getLast? = some b) :
    rows.filter (behind key (some (key b))) = (rows.filter (behind key cursor)).drop size := by
  have hdec : Decreasing key (rows.filter (behind key cursor)) := h.sublist List.filter_sublist
  have hbb := (mem_rows_of_mem_page (List.mem_of_getLast? hb)).2
  have hsub : rows.filter (behind key (some (key b)))
      = (rows.filter (behind key cursor)).filter (behind key (some (key b))) := by
    rw [List.filter_filter]
    refine List.filter_congr fun a _ => ?_
    by_cases hlt : key a < key b
    · rw [behind_of_lt hbb hlt, Bool.and_true]
    · simp [behind, hlt]
  rw [hsub]
  rw [← List.take_append_drop size (rows.filter (behind key cursor))] at hdec
  conv_lhs => rw [← List.take_append_drop size (rows.filter (behind key cursor))]
  obtain ⟨htake, -, hcross⟩ := List.pairwise_append.mp hdec
  have hnone : ((rows.filter (behind key cursor)).take size).filter (behind key (some (key b)))
      = [] := by
    refine List.filter_eq_nil_iff.mpr fun a ha => ?_
    have hle : key b ≤ key a := Decreasing.last_le htake ha hb
    simp [behind, hle]
  have hall : ((rows.filter (behind key cursor)).drop size).filter (behind key (some (key b)))
      = (rows.filter (behind key cursor)).drop size := by
    refine List.filter_eq_self.mpr fun a ha => ?_
    exact decide_eq_true (hcross b (List.mem_of_getLast? hb) a ha)
  rw [List.filter_append, hnone, hall, List.nil_append]

/-- **Enough requests page through all rows behind the cursor**, in their
order. -/
theorem follow_const (h : Decreasing key rows) (hsize : 0 < size) {n : Nat} (k : Nat)
    {cursor : Option κ} (hn : (rows.filter (behind key cursor)).length < n * size) :
    (follow key (fun _ => rows) size n k cursor).2 = true
      ∧ (follow key (fun _ => rows) size n k cursor).1.flatten
        = rows.filter (behind key cursor) := by
  induction n generalizing k cursor with
  | zero => omega
  | succ n ih =>
      rcases @follow_succ_cases α κ _ key (fun _ => rows) n k cursor size with
        ⟨heq, hshort⟩ | ⟨b, rest, hb, hfull, hrest, heq⟩
      · rw [heq]
        have hlen : (rows.filter (behind key cursor)).length ≤ size := by
          rcases hshort with hlt | hnil
          · rw [page, List.length_take] at hlt
            omega
          · have : (page key rows cursor size).length = 0 := by rw [hnil]; rfl
            rw [page, List.length_take] at this
            omega
        refine ⟨rfl, ?_⟩
        rw [List.flatten_cons, List.flatten_nil, List.append_nil, page,
          List.take_of_length_le hlen]
      · have hdrop := filter_behind_last h hb
        have hless : (rows.filter (behind key (some (key b)))).length < n * size := by
          rw [page, List.length_take] at hfull
          rw [hdrop, List.length_drop]
          rw [Nat.succ_mul] at hn
          omega
        obtain ⟨hend, hflat⟩ := ih (k + 1) hless
        rw [heq, ← hrest]
        refine ⟨hend, ?_⟩
        rw [List.flatten_cons, hflat, hdrop]
        exact List.take_append_drop size _

end Paging

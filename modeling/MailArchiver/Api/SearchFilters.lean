import MailArchiver.Api.Search
import Mathlib.Order.Lattice

/-!
# Api — SearchFilters

What the query of `search_advanced` means. The route turns the request
into a dictionary without the absent fields, `SearchService.advanced`
tests each entry for truth, and a bound of 0 is false: a `size_max` of 0
is dropped like an absent one.
-/

namespace MailArchiver

/-! ## From the request to the filters -/

/-- `AdvancedSearchRequest`: the filters and the cursor. -/
structure AdvancedSearchRequest extends Filters where
  searchAfter : Option (List Scalar)
  deriving DecidableEq, Repr

/-- A value in the dictionary of a request. -/
inductive Field where
  | str (s : String)
  | bool (b : Bool)
  | int (n : Int)
  | list (vs : List Scalar)
  deriving DecidableEq, Repr

/-- A dictionary, its entries in order. -/
abbrev Entries := List (String × Field)

/-- The entry of a field that is not `None`. -/
def entry {α : Type} (key : String) (f : α → Field) (v : Option α) : Entries :=
  v.toList.map fun a => (key, f a)

/-- `req.model_dump(exclude_none=True)`. -/
def AdvancedSearchRequest.modelDump (req : AdvancedSearchRequest) : Entries :=
  entry "text" .str req.text ++ entry "from_" .str req.from_ ++ entry "to" .str req.to_
    ++ entry "participant" .str req.participant ++ entry "subject" .str req.subject
    ++ entry "date_from" .str req.dateFrom ++ entry "date_to" .str req.dateTo
    ++ entry "has_attachment" .bool req.hasAttachment ++ entry "size_min" .int req.sizeMin
    ++ entry "size_max" .int req.sizeMax ++ entry "search_after" .list req.searchAfter

/-- What is left after `filters.pop(key)`. -/
def Entries.without (d : Entries) (key : String) : Entries := d.filter (·.1 ≠ key)

/-- The dictionary `search_advanced` hands to `SearchService.advanced`. -/
def AdvancedSearchRequest.entries (req : AdvancedSearchRequest) : Entries :=
  let filters := req.modelDump.without "search_after"
  match filters.lookup "from_" with
  | none => filters
  | some v => filters.without "from_" ++ [("from", v)]

def Field.str? : Field → Option String
  | .str s => some s
  | _ => none

def Field.bool? : Field → Option Bool
  | .bool b => some b
  | _ => none

def Field.int? : Field → Option Int
  | .int n => some n
  | _ => none

/-- What `SearchService.advanced` reads with `filters.get`. -/
def Entries.filters (d : Entries) : Filters where
  text := (d.lookup "text").bind Field.str?
  from_ := (d.lookup "from").bind Field.str?
  to_ := (d.lookup "to").bind Field.str?
  participant := (d.lookup "participant").bind Field.str?
  subject := (d.lookup "subject").bind Field.str?
  dateFrom := (d.lookup "date_from").bind Field.str?
  dateTo := (d.lookup "date_to").bind Field.str?
  hasAttachment := (d.lookup "has_attachment").bind Field.bool?
  sizeMin := (d.lookup "size_min").bind Field.int?
  sizeMax := (d.lookup "size_max").bind Field.int?

/-- The query of the route, for an account of the given perimeter. -/
def searchAdvancedQuery (lower : String → String) (req : AdvancedSearchRequest)
    (restrictAddrs : Option (List String)) : Query :=
  advancedQuery lower req.entries.filters restrictAddrs

@[simp] theorem entry_none {α : Type} (key : String) (f : α → Field) : entry key f none = [] := rfl

@[simp] theorem lookup_entry {α : Type} (k key : String) (f : α → Field) (v : Option α) :
    (entry key f v).lookup k = if k = key then v.map f else none := by
  cases v with
  | none => simp [entry]
  | some a =>
      by_cases h : k = key
      · simp [entry, h]
      · have hne : (k == key) = false := beq_false_of_ne h
        simp [entry, List.lookup_cons, h, hne]

@[simp] theorem without_entry {α : Type} (k key : String) (f : α → Field) (v : Option α) :
    (entry key f v).without k = if k = key then [] else entry key f v := by
  cases v with
  | none => simp [entry, Entries.without]
  | some a =>
      by_cases h : k = key
      · simp [entry, Entries.without, h]
      · simp [entry, Entries.without, h, Ne.symm h]

@[simp] theorem without_append (k : String) (d d' : Entries) :
    Entries.without (d ++ d') k = d.without k ++ d'.without k := List.filter_append ..

theorem bind_str (v : Option String) : (v.map Field.str).bind Field.str? = v := by
  cases v <;> rfl

theorem bind_bool (v : Option Bool) : (v.map Field.bool).bind Field.bool? = v := by
  cases v <;> rfl

theorem bind_int (v : Option Int) : (v.map Field.int).bind Field.int? = v := by
  cases v <;> rfl

/-- The route renames one key and drops another. -/
theorem entries_eq (req : AdvancedSearchRequest) : req.entries =
    (req.modelDump.without "search_after").without "from_" ++ entry "from" .str req.from_ := by
  have hlookup : (req.modelDump.without "search_after").lookup "from_" = req.from_.map .str := by
    simp [AdvancedSearchRequest.modelDump, List.lookup_append]
  rw [AdvancedSearchRequest.entries, hlookup]
  cases hfrom : req.from_ with
  | none => simp [AdvancedSearchRequest.modelDump, hfrom]
  | some v => rfl

/-- It loses no filter on the way. -/
theorem filters_entries (req : AdvancedSearchRequest) : req.entries.filters = req.toFilters := by
  simp [entries_eq, Entries.filters, AdvancedSearchRequest.modelDump, List.lookup_append, bind_str,
    bind_bool, bind_int]

/-! ## What a request asks for -/

/-- What OpenSearch's `range` on a date means: both bounds, each alone. -/
def Engine.LawfulRange (e : Engine) : Prop :=
  ∀ gte lte doc, e.dateRange gte lte doc = (e.dateRange gte none doc && e.dateRange none lte doc)

/-- A document satisfies every filter that is present; an empty string
counts as absent, 0 and `False` as values. -/
structure Filters.Satisfied (e : Engine) (f : Filters) (doc : IndexDoc) : Prop where
  text : ∀ q ∈ given f.text, e.multiMatch q ["subject", "body"] doc = true
  from_ : ∀ v ∈ given f.from_, doc.fromAddr = v
  to_ : ∀ v ∈ given f.to_, v ∈ doc.toAddrs
  participant : ∀ p ∈ given f.participant, p ∈ doc.fromAddr :: (doc.toAddrs ++ doc.ccAddrs)
  subject : ∀ q ∈ given f.subject, e.matchPhrase "subject" q doc = true
  hasAttachment : ∀ b ∈ f.hasAttachment, doc.hasAttachment = b
  dateFrom : ∀ d ∈ given f.dateFrom, e.dateRange (some (.str d)) none doc = true
  dateTo : ∀ d ∈ given f.dateTo, e.dateRange none (some (.str d)) doc = true
  sizeMin : ∀ n ∈ f.sizeMin, n ≤ doc.sizeBytes
  sizeMax : ∀ n ∈ f.sizeMax, (doc.sizeBytes : Int) ≤ n

/-- A document is in a perimeter: one of its addresses is, lower-cased. -/
def InPerimeter (lower : String → String) (restrictAddrs : Option (List String)) (doc : IndexDoc) :
    Prop :=
  ∀ addrs ∈ restrictAddrs,
    ∃ a ∈ doc.fromAddr :: (doc.toAddrs ++ doc.ccAddrs), a ∈ addrs.map lower

/-- The query selects what the request asks for. -/
def Means (lower : String → String) (req : AdvancedSearchRequest)
    (restrictAddrs : Option (List String)) : Prop :=
  ∀ e : Engine, e.LawfulRange → ∀ doc,
    (searchAdvancedQuery lower req restrictAddrs).selects e doc = true ↔
      req.Satisfied e doc ∧ InPerimeter lower restrictAddrs doc

section

variable {e : Engine} {lower : String → String}

/-! ## Clause by clause -/

/-- The filters whose bounds of 0 are left out. -/
def Filters.kept (f : Filters) : Filters :=
  { f with sizeMin := givenInt f.sizeMin, sizeMax := givenInt f.sizeMax }

theorem holds_size (doc : IndexDoc) (gte lte : Option Int) :
    Clause.holds e (.range "size_bytes" (gte.map .int) (lte.map .int)) doc = true ↔
      (∀ n ∈ gte, n ≤ doc.sizeBytes) ∧ ∀ n ∈ lte, (doc.sizeBytes : Int) ≤ n := by
  have hvalues : doc.values "size_bytes" = [.int doc.sizeBytes] := by simp [IndexDoc.values]
  simp only [Clause.holds, hvalues]
  cases gte <;> cases lte <;> simp [Scalar.within]

theorem select_dates (hrange : e.LawfulRange) (doc : IndexDoc) (gte lte : Option String) :
    (∀ q ∈ rangeClause "date" (gte.map .str) (lte.map .str), Query.selects e q doc = true) ↔
      (∀ d ∈ gte, e.dateRange (some (.str d)) none doc = true) ∧
        ∀ d ∈ lte, e.dateRange none (some (.str d)) doc = true := by
  cases gte with
  | none =>
      cases lte with
      | none => simp [rangeClause]
      | some d => simp [rangeClause, Query.selects, Clause.holds]
  | some d =>
      cases lte with
      | none => simp [rangeClause, Query.selects, Clause.holds]
      | some d' =>
          have hsplit := hrange (some (.str d)) (some (.str d')) doc
          simp [rangeClause, Query.selects, Clause.holds, hsplit]

theorem select_sizes (doc : IndexDoc) (gte lte : Option Int) :
    (∀ q ∈ rangeClause "size_bytes" (gte.map .int) (lte.map .int), Query.selects e q doc = true) ↔
      (∀ n ∈ gte, n ≤ doc.sizeBytes) ∧ ∀ n ∈ lte, (doc.sizeBytes : Int) ≤ n := by
  have hholds := @holds_size e doc gte lte
  rw [rangeClause]
  split
  · rename_i hnone
    simp only [Option.map_eq_none_iff] at hnone
    simp [hnone.1, hnone.2]
  · simpa [Query.selects] using hholds

theorem holds_term_from (v : String) (doc : IndexDoc) :
    Clause.holds e (.term "from_addr" (.str v)) doc = true ↔ doc.fromAddr = v := by
  simp [Clause.holds, IndexDoc.values, eq_comm]

theorem holds_term_to (v : String) (doc : IndexDoc) :
    Clause.holds e (.term "to_addrs" (.str v)) doc = true ↔ v ∈ doc.toAddrs := by
  simp [Clause.holds, IndexDoc.values]

theorem holds_term_cc (v : String) (doc : IndexDoc) :
    Clause.holds e (.term "cc_addrs" (.str v)) doc = true ↔ v ∈ doc.ccAddrs := by
  simp [Clause.holds, IndexDoc.values]

theorem holds_term_attachment (b : Bool) (doc : IndexDoc) :
    Clause.holds e (.term "has_attachment" (.bool b)) doc = true ↔ doc.hasAttachment = b := by
  simp [Clause.holds, IndexDoc.values, eq_comm]

theorem selects_participant (p : String) (doc : IndexDoc) :
    Query.selects e (.bool [] []
        [.clause (.term "from_addr" (.str p)), .clause (.term "to_addrs" (.str p)),
          .clause (.term "cc_addrs" (.str p))] [] 1) doc = true ↔
      p ∈ doc.fromAddr :: (doc.toAddrs ++ doc.ccAddrs) := by
  rw [Query.selects, BoolQuery.selects_anyOf]
  simp [holds_term_from, holds_term_to, holds_term_cc, @eq_comm _ p doc.fromAddr]

/-- The `must` list asks for every filter kept. -/
theorem select_must_iff (hrange : e.LawfulRange) (f : Filters) (doc : IndexDoc) :
    (∀ q ∈ advancedMust f, Query.selects e q doc = true) ↔ f.kept.Satisfied e doc := by
  simp only [advancedMust, List.forall_mem_append, select_dates hrange, select_sizes,
    List.forall_mem_map, Option.mem_toList, selects_participant]
  simp only [Query.selects, BoolQuery.selects_clause, holds_term_from, holds_term_to,
    holds_term_attachment]
  constructor
  · rintro ⟨⟨⟨⟨⟨⟨⟨htext, hfrom⟩, hto⟩, hpart⟩, hsubject⟩, hatt⟩, hdates⟩, hsizes⟩
    exact ⟨htext, hfrom, hto, hpart, hsubject, hatt, hdates.1, hdates.2, hsizes.1, hsizes.2⟩
  · rintro ⟨htext, hfrom, hto, hpart, hsubject, hatt, hafter, hbefore, hmin, hmax⟩
    exact ⟨⟨⟨⟨⟨⟨⟨htext, hfrom⟩, hto⟩, hpart⟩, hsubject⟩, hatt⟩, hafter, hbefore⟩, hmin, hmax⟩

/-- **What the query selects**: the documents in the perimeter that
satisfy the filters kept. -/
theorem selects_advancedQuery_iff (hrange : e.LawfulRange) (f : Filters)
    (restrictAddrs : Option (List String)) (doc : IndexDoc) :
    (advancedQuery lower f restrictAddrs).selects e doc = true ↔
      f.kept.Satisfied e doc ∧ InPerimeter lower restrictAddrs doc := by
  have hmust : (∀ q ∈ if (advancedMust f).isEmpty then [.clause .matchAll] else advancedMust f,
      Query.selects e q doc = true) ↔ f.kept.Satisfied e doc := by
    rw [← select_must_iff hrange]
    split
    · rename_i hempty
      rw [List.isEmpty_iff.mp hempty]
      simp [Query.selects, Clause.holds]
    · rfl
  cases restrictAddrs with
  | none =>
      rw [advancedQuery, searchQuery, Query.selects, BoolQuery.selects_bool]
      refine ⟨fun h => ⟨hmust.mp h.1, by simp [InPerimeter]⟩, fun h => ⟨hmust.mpr h.1, ?_⟩⟩
      simp
  | some addrs =>
      rw [advancedQuery, selects_searchQuery, hmust, withinScope_iff]
      simp [InPerimeter]

/-- A bound of 0 left out matters for the upper bound alone. -/
theorem satisfied_iff_kept (f : Filters) (doc : IndexDoc) :
    f.Satisfied e doc ↔ f.kept.Satisfied e doc ∧ (f.sizeMax = some 0 → doc.sizeBytes = 0) := by
  constructor
  · intro h
    refine ⟨{ h with sizeMin := ?_, sizeMax := ?_ }, fun hzero => ?_⟩
    · exact fun n hn => h.sizeMin n (Option.mem_filter_iff.mp hn).1
    · exact fun n hn => h.sizeMax n (Option.mem_filter_iff.mp hn).1
    · have := h.sizeMax 0 hzero
      omega
  · rintro ⟨h, hzero⟩
    refine { h with sizeMin := ?_, sizeMax := ?_ }
    · intro n hn
      by_cases hn0 : n = 0
      · omega
      · exact h.sizeMin n (Option.mem_filter_iff.mpr ⟨hn, by simpa using hn0⟩)
    · intro n hn
      by_cases hn0 : n = 0
      · subst hn0
        have := hzero hn
        omega
      · exact h.sizeMax n (Option.mem_filter_iff.mpr ⟨hn, by simpa using hn0⟩)

/-! ## A document that a bound of 0 should exclude -/

/-- An engine whose text and date clauses hold of everything. -/
def permissiveEngine : Engine where
  multiMatch := fun _ _ _ => true
  matchPhrase := fun _ _ _ => true
  dateRange := fun _ _ _ => true

/-- A document that is not empty and satisfies the other filters, in a
perimeter that is not empty. -/
def otherwiseSatisfying (lower : String → String) (f : Filters)
    (restrictAddrs : Option (List String)) : IndexDoc where
  docId := some 1
  messageId := ""
  date := ""
  archivedAt := ""
  fromAddr := f.from_.getD ""
  toAddrs := f.to_.toList ++ f.participant.toList
  ccAddrs := (restrictAddrs.getD []).map lower
  subject := ""
  body := ""
  hasAttachment := f.hasAttachment.getD false
  attachmentNames := []
  sizeBytes := 1 + (f.sizeMin.getD 0).toNat
  retentionClass := ""

theorem otherwiseSatisfying_kept (f : Filters) (restrictAddrs : Option (List String))
    (hzero : f.sizeMax = some 0) :
    f.kept.Satisfied permissiveEngine (otherwiseSatisfying lower f restrictAddrs) := by
  have hgiven : ∀ {v : Option String} {a : String}, a ∈ given v → v = some a :=
    fun ha => (Option.mem_filter_iff.mp ha).1
  refine ⟨fun _ _ => rfl, fun v hv => ?_, fun v hv => ?_, fun v hv => ?_, fun _ _ => rfl,
    fun b hb => ?_, fun _ _ => rfl, fun _ _ => rfl, fun n hn => ?_, fun n hn => ?_⟩
  · have hfrom : f.from_ = some v := hgiven hv
    simp [otherwiseSatisfying, hfrom]
  · have hto : f.to_ = some v := hgiven hv
    simp [otherwiseSatisfying, hto]
  · have hpart : f.participant = some v := hgiven hv
    simp [otherwiseSatisfying, hpart]
  · simp only [Option.mem_def, Filters.kept] at hb
    simp [otherwiseSatisfying, hb]
  · have hmin : f.sizeMin = some n := (Option.mem_filter_iff.mp hn).1
    simp only [otherwiseSatisfying, hmin, Option.getD_some]
    omega
  · have hnone : f.kept.sizeMax = none := by
      show givenInt f.sizeMax = none
      rw [hzero]
      rfl
    rw [hnone] at hn
    cases hn

theorem otherwiseSatisfying_inPerimeter (f : Filters) {restrictAddrs : Option (List String)}
    (hscope : restrictAddrs ≠ some []) :
    InPerimeter lower restrictAddrs (otherwiseSatisfying lower f restrictAddrs) := by
  rintro addrs haddrs
  cases addrs with
  | nil => exact absurd haddrs hscope
  | cons a as =>
      rw [Option.mem_def] at haddrs
      exact ⟨lower a, by simp [otherwiseSatisfying, haddrs], List.mem_map_of_mem List.mem_cons_self⟩

/-- **When the query means the conjunction of the filters**: for every
request and perimeter, exactly unless `size_max` is 0 and the perimeter is
not empty. -/
theorem search_advanced_means_iff (req : AdvancedSearchRequest)
    (restrictAddrs : Option (List String)) :
    Means lower req restrictAddrs ↔ req.sizeMax ≠ some 0 ∨ restrictAddrs = some [] := by
  constructor
  · intro hmeans
    by_contra hnot
    rw [not_or, not_not] at hnot
    obtain ⟨hzero, hscope⟩ := hnot
    -- a mail within every filter but `size_max`, which an engine that matches all texts selects
    have hsel := (hmeans permissiveEngine (fun _ _ _ => rfl)
      (otherwiseSatisfying lower req.toFilters restrictAddrs)).mp
    rw [searchAdvancedQuery, filters_entries, selects_advancedQuery_iff fun _ _ _ => rfl] at hsel
    have hsat := (hsel ⟨otherwiseSatisfying_kept _ _ hzero,
      otherwiseSatisfying_inPerimeter _ hscope⟩).1
    have hempty := (satisfied_iff_kept _ _).mp hsat
    have := hempty.2 hzero
    simp only [otherwiseSatisfying] at this
    omega
  · intro hcond e hrange doc
    rw [searchAdvancedQuery, filters_entries, selects_advancedQuery_iff hrange,
      satisfied_iff_kept req.toFilters doc]
    rcases hcond with hmax | hscope
    · simp [hmax]
    · -- an empty perimeter selects nothing, whatever the filters
      have hout : ¬InPerimeter lower restrictAddrs doc := by
        intro hin
        obtain ⟨a, -, ha⟩ := hin [] hscope
        cases ha
      simp [hout]

end

/-! ## A search for empty mails -/

/-- A request with `size_max` 0 alone. -/
def emptyMails : AdvancedSearchRequest where
  text := none
  from_ := none
  to_ := none
  participant := none
  subject := none
  dateFrom := none
  dateTo := none
  hasAttachment := none
  sizeMin := none
  sizeMax := some 0
  searchAfter := none

/-- The administrator's query is `match_all`, and selects a mail of a
million bytes. -/
theorem size_max_zero_dropped :
    advancedMust emptyMails.entries.filters = [] ∧
    (searchAdvancedQuery String.toLower emptyMails none).selects permissiveEngine
        { otherwiseSatisfying String.toLower emptyMails.toFilters none with sizeBytes := 1000000 }
      = true ∧
    ¬Means String.toLower emptyMails none := by
  have hselects : ∀ n, (searchAdvancedQuery String.toLower emptyMails none).selects permissiveEngine
      { otherwiseSatisfying String.toLower emptyMails.toFilters none with sizeBytes := n }
        = true := by
    intro n
    rfl
  refine ⟨by decide, hselects _, fun hmeans => ?_⟩
  have hsat := ((hmeans permissiveEngine (fun _ _ _ => rfl) _).mp (hselects 1)).1
  have := hsat.sizeMax 0 rfl
  exact absurd this (by decide)

end MailArchiver

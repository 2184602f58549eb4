import MailArchiver.Api.Restore
import MailArchiver.Lib.Paging

/-!
# Api — Pagination

Following `next_search_after` from the first page of a search, by a client
and by `_run_perimeter_transfer`. The sort of `_search` is strict where
the documents have distinct `doc_id`s, so that the pages are those of the
library; OpenSearch reads a cursor back as the sort values it is made of
(`ReadsCursors`).
-/

namespace MailArchiver

open Paging Ranking Transition

variable (e : SearchEngine) (lower : String → String)

/-- The sort values of a hit, by which `_search` orders. -/
def SearchEngine.sortKey (h : Hit) : Int ×ₗ Int :=
  toLex (e.dateValue h.doc, SearchEngine.docIdValue h.doc)

/-- A cursor made of sort values is read as these values. -/
def SearchEngine.ReadsCursors : Prop := ∀ d i : Int, e.cursorValues [.int d, .int i] = (d, i)

/-- The cursors that a page hands out, and none. -/
def SortCursor : Option (List Scalar) → Prop
  | none => True
  | some cursor => ∃ d i : Int, cursor = [.int d, .int i]

/-- Pages of this query and size are answered. -/
def SearchEngine.Answers (query : Query) (size : Nat) : Prop :=
  ∀ searchAfter, SortCursor searchAfter → e.refuses ⟨size, query, searchAfter⟩ = none

/-- What the cursor of a request stands for. -/
def SearchEngine.cursorKey (cursor : Option (List Scalar)) : Option (Int ×ₗ Int) :=
  (cursor.filter (· ≠ [])).map fun c => toLex (e.cursorValues c)

/-- The documents of a search, in their order. -/
def SearchEngine.rows (contents : Contents) (filters : Filters)
    (restrictAddrs : Option (List String)) : List Hit :=
  e.matching contents (advancedQuery lower filters restrictAddrs)

variable {e lower}

/-! ## The rows of a search -/

theorem mem_rows {contents : Contents} {filters : Filters} {restrictAddrs : Option (List String)}
    {hit : Hit} : hit ∈ e.rows lower contents filters restrictAddrs ↔ hit ∈ contents.hits
      ∧ (advancedQuery lower filters restrictAddrs).selects e.toEngine hit.doc = true :=
  (Ranking.ranked_perm _ _).mem_iff.trans List.mem_filter

/-- A search without filters selects the perimeter, if there is one. -/
theorem selects_noFilters {restrictAddrs : Option (List String)} {doc : IndexDoc} :
    (advancedQuery lower noFilters restrictAddrs).selects e.toEngine doc = true ↔
      ∀ scope, restrictAddrs = some scope → withinScope e.toEngine lower scope doc = true := by
  have hall : Query.selects e.toEngine (.clause .matchAll) doc = true := by
    simp [Query.selects, Clause.holds]
  cases restrictAddrs with
  | none =>
      refine iff_of_true ?_ fun _ h => by cases h
      show Query.selects e.toEngine (.bool [.clause .matchAll] [] [] [] 0) doc = true
      simp only [Query.selects, BoolQuery.selects_bool] at hall ⊢
      simpa using hall
  | some scope =>
      rw [show (advancedQuery lower noFilters (some scope)).selects e.toEngine doc = true ↔ _ from
        selects_searchQuery _ scope doc]
      constructor
      · rintro ⟨-, hwithin⟩ scope' hscope
        obtain rfl := Option.some.inj hscope
        exact hwithin
      · intro h
        refine ⟨fun q hq => ?_, h scope rfl⟩
        rw [List.mem_singleton.mp hq]
        exact hall

/-- **The rows of a perimeter** are the documents that carry an address of
it, as the lower-cased perimeter spells it. -/
theorem mem_rows_perimeter {contents : Contents} {restrict : List String} {hit : Hit} :
    hit ∈ e.rows lower contents noFilters (some restrict) ↔ hit ∈ contents.hits
      ∧ ∃ a ∈ hit.doc.fromAddr :: (hit.doc.toAddrs ++ hit.doc.ccAddrs), a ∈ restrict.map lower := by
  rw [mem_rows, selects_noFilters, ← withinScope_iff]
  refine and_congr_right fun _ => ⟨fun h => h restrict rfl, ?_⟩
  intro hwithin scope hscope
  obtain rfl := Option.some.inj hscope
  exact hwithin

/-! ## The order of the sort -/

theorem docIdValue_inj {doc doc' : IndexDoc}
    (h : SearchEngine.docIdValue doc = SearchEngine.docIdValue doc') : doc.docId = doc'.docId := by
  unfold SearchEngine.docIdValue at h
  cases hd : doc.docId with
  | none =>
      cases hd' : doc'.docId with
      | none => rfl
      | some i' =>
          rw [hd, hd'] at h
          simp only at h
          omega
  | some i =>
      cases hd' : doc'.docId with
      | none =>
          rw [hd, hd'] at h
          simp only at h
          omega
      | some i' =>
          rw [hd, hd'] at h
          simp only [Int.natCast_inj] at h
          rw [h]

/-- `search_after` is behind the cursor in the sort. -/
theorem follows_eq_behind (cursor : Int × Int) (h : Hit) :
    e.follows cursor h = behind e.sortKey (some (toLex cursor)) h := by
  simp [SearchEngine.follows, behind, SearchEngine.sortKey, Prod.Lex.toLex_lt_toLex,
    Bool.decide_or, Bool.decide_and]

/-- The sort is strict on documents with distinct `doc_id`s. -/
theorem rows_decreasing (hranks : e.Ranks) {contents : Contents}
    (hids : (contents.hits.map fun h => h.doc.docId).Nodup) (filters : Filters)
    (restrictAddrs : Option (List String)) :
    Decreasing e.sortKey (e.rows lower contents filters restrictAddrs) := by
  have hperm := ranked_perm e.order
    (contents.hits.filter fun h => (advancedQuery lower filters restrictAddrs).selects e.toEngine h.doc)
  have hdistinct : ((e.rows lower contents filters restrictAddrs).map fun h => h.doc.docId).Nodup := by
    rw [SearchEngine.rows, SearchEngine.matching, (hperm.map _).nodup_iff]
    exact hids.sublist (List.filter_sublist.map _)
  have hsorted := ranked_pairwise hranks.order_total
    (contents.hits.filter fun h => (advancedQuery lower filters restrictAddrs).selects e.toEngine h.doc)
  refine (hsorted.and (List.pairwise_map.mp hdistinct)).imp fun {a b} hab => ?_
  obtain ⟨hle, hne⟩ := hab
  rw [SearchEngine.sortKey, SearchEngine.sortKey, Prod.Lex.toLex_lt_toLex]
  rw [SearchEngine.order, descBy_iff, descBy_iff] at hle
  rcases hle with hlt | ⟨heq, hlt | ⟨hid, -⟩⟩
  · exact .inl hlt
  · exact .inr ⟨heq.symm, hlt⟩
  · exact absurd (docIdValue_inj hid) hne

/-- A page of `_search` is a page of its rows. -/
theorem advanced_page {contents : Contents} {filters : Filters} {size : Nat}
    {restrictAddrs : Option (List String)} {cursor : Option (List Scalar)} {data : SearchResult}
    (h : advanced e lower contents filters size restrictAddrs cursor = .ok data) :
    data.results = (page e.sortKey (e.rows lower contents filters restrictAddrs) (e.cursorKey cursor)
        size).map Hit.resultRow
      ∧ data.nextSearchAfter = (page e.sortKey (e.rows lower contents filters restrictAddrs)
        (e.cursorKey cursor) size).getLast?.map fun h =>
          [.int (e.dateValue h.doc), .int (SearchEngine.docIdValue h.doc)] := by
  simp only [advanced, SearchEngine.search, bind_eq_ok, pure_eq_ok] at h
  obtain ⟨hits, hhits, rfl⟩ := h
  split at hhits
  · cases hhits
  · cases hhits
    rw [page, SearchEngine.cursorKey]
    cases cursor.filter (· ≠ []) with
    | none => exact ⟨by simp [SearchEngine.rows], by simp [SearchEngine.rows]⟩
    | some c =>
        have hfollows : e.follows (e.cursorValues c)
            = behind e.sortKey (some (toLex (e.cursorValues c))) :=
          funext (follows_eq_behind _)
        exact ⟨by simp [hfollows, SearchEngine.rows], by simp [hfollows, SearchEngine.rows]⟩

/-- And a search that is not refused gives one. -/
theorem advanced_ok {contents : Contents} {filters : Filters} {size : Nat}
    {restrictAddrs : Option (List String)} {cursor : Option (List Scalar)}
    (hanswers : e.Answers (advancedQuery lower filters restrictAddrs) size)
    (hcursor : SortCursor cursor) :
    ∃ data, advanced e lower contents filters size restrictAddrs cursor = .ok data := by
  have hfilter : cursor.filter (· ≠ []) = cursor := by
    cases cursor with
    | none => rfl
    | some c =>
        obtain ⟨d, i, rfl⟩ := hcursor
        rfl
  simp only [advanced, SearchEngine.search, hfilter, hanswers cursor hcursor]
  exact ⟨_, rfl⟩

/-! ## A client that follows the cursors -/

variable (e lower) in
/-- The results of at most `n` pages, request `k` being the first, and
whether the last page ended the search: it was short, or gave no cursor.
The documents may change between the requests. -/
def followSearch (contents : Nat → Contents) (filters : Filters) (size : Nat)
    (restrictAddrs : Option (List String)) :
    Nat → Nat → Option (List Scalar) → Except PyError (List (List ResultRow) × Bool)
  | 0, _, _ => .ok ([], false)
  | n + 1, k, cursor => do
      let data ← advanced e lower (contents k) filters size restrictAddrs cursor
      if data.nextSearchAfter = none ∨ data.results.length < size then return ([data.results], true)
      else do
        let (pages, ended) ← followSearch contents filters size restrictAddrs n (k + 1)
          data.nextSearchAfter
        return (data.results :: pages, ended)

theorem cursorKey_some (hreads : e.ReadsCursors) (d i : Int) :
    e.cursorKey (some [.int d, .int i]) = some (toLex (d, i)) := by
  simp [SearchEngine.cursorKey, Option.filter, hreads d i]

/-- A page and its cursor, as the library has them. -/
theorem nextSearchAfter_cases {contents : Contents} {filters : Filters} {size : Nat}
    {restrictAddrs : Option (List String)} {cursor : Option (List Scalar)} {data : SearchResult}
    (hreads : e.ReadsCursors)
    (h : advanced e lower contents filters size restrictAddrs cursor = .ok data) :
    (data.nextSearchAfter = none ∧ data.results = []
        ∧ page e.sortKey (e.rows lower contents filters restrictAddrs) (e.cursorKey cursor) size = [])
      ∨ ∃ b, (page e.sortKey (e.rows lower contents filters restrictAddrs) (e.cursorKey cursor)
            size).getLast? = some b
        ∧ SortCursor data.nextSearchAfter ∧ data.nextSearchAfter ≠ none ∧ data.results ≠ []
        ∧ e.cursorKey data.nextSearchAfter = some (e.sortKey b) := by
  obtain ⟨hresults, hnext⟩ := advanced_page h
  cases hlast : (page e.sortKey (e.rows lower contents filters restrictAddrs) (e.cursorKey cursor)
      size).getLast? with
  | none =>
      have hnil := List.getLast?_eq_none_iff.mp hlast
      rw [hlast] at hnext
      exact .inl ⟨hnext, by rw [hresults, hnil]; rfl, hnil⟩
  | some b =>
      rw [hlast] at hnext
      refine .inr ⟨b, rfl, ?_, ?_, ?_, ?_⟩
      · rw [hnext]
        exact ⟨_, _, rfl⟩
      · rw [hnext]
        nofun
      · rw [hresults, ne_eq, List.map_eq_nil_iff]
        intro hnil
        rw [hnil] at hlast
        cases hlast
      · rw [hnext]
        exact cursorKey_some hreads _ _

/-- Following the cursors is following the pages of the library. -/
theorem followSearch_eq (hreads : e.ReadsCursors) {contents : Nat → Contents} {filters : Filters}
    {size : Nat} {restrictAddrs : Option (List String)} {n k : Nat}
    {cursor : Option (List Scalar)} {pages : List (List ResultRow)} {ended : Bool}
    (h : followSearch e lower contents filters size restrictAddrs n k cursor = .ok (pages, ended)) :
    (follow e.sortKey (fun k => e.rows lower (contents k) filters restrictAddrs) size n k
        (e.cursorKey cursor)).1.map (List.map Hit.resultRow) = pages
      ∧ (follow e.sortKey (fun k => e.rows lower (contents k) filters restrictAddrs) size n k
        (e.cursorKey cursor)).2 = ended := by
  induction n generalizing k cursor pages ended with
  | zero =>
      cases h
      exact ⟨rfl, rfl⟩
  | succ n ih =>
      simp only [followSearch, bind_eq_ok] at h
      obtain ⟨data, hdata, h⟩ := h
      obtain ⟨hresults, -⟩ := advanced_page hdata
      have hlength : data.results.length = (page e.sortKey
          (e.rows lower (contents k) filters restrictAddrs) (e.cursorKey cursor) size).length := by
        rw [hresults, List.length_map]
      rw [follow]
      simp only [← hlength]
      -- both loops stop at a page without a cursor or shorter than asked for
      rcases nextSearchAfter_cases hreads hdata with ⟨hnone, -, hnil⟩ | ⟨b, hlast, -, hsome, -, hkey⟩
      · rw [if_pos (.inl hnone)] at h
        cases h
        split
        · exact ⟨by rw [hresults]; rfl, rfl⟩
        · rw [hnil] at hresults ⊢
          exact ⟨by rw [hresults]; rfl, rfl⟩
      · by_cases hshort : data.results.length < size
        · rw [if_pos (.inr hshort)] at h
          cases h
          rw [if_pos hshort]
          exact ⟨by rw [hresults]; rfl, rfl⟩
        · rw [if_neg (by simp [hsome, hshort])] at h
          rw [if_neg hshort, hlast]
          simp only [bind_eq_ok, pure_eq_ok] at h
          obtain ⟨⟨rest, stopped⟩, hrest, h⟩ := h
          cases h
          obtain ⟨hpages, hended⟩ := ih hrest
          rw [hkey] at hpages hended
          exact ⟨by simp only [List.map_cons, hpages, hresults], hended⟩

/-- A search that is not refused can be followed. -/
theorem followSearch_ok (hreads : e.ReadsCursors) {contents : Nat → Contents} {filters : Filters}
    {size : Nat} {restrictAddrs : Option (List String)}
    (hanswers : e.Answers (advancedQuery lower filters restrictAddrs) size) (n k : Nat)
    {cursor : Option (List Scalar)} (hcursor : SortCursor cursor) :
    ∃ pages ended,
      followSearch e lower contents filters size restrictAddrs n k cursor = .ok (pages, ended) := by
  induction n generalizing k cursor with
  | zero => exact ⟨_, _, rfl⟩
  | succ n ih =>
      obtain ⟨data, hdata⟩ := @advanced_ok e lower (contents k) filters size restrictAddrs cursor
        hanswers hcursor
      rw [followSearch, hdata]
      simp only [bind, Except.bind]
      split
      · exact ⟨_, _, rfl⟩
      · rcases nextSearchAfter_cases hreads hdata with ⟨hnone, -⟩ | ⟨b, -, hnext, -⟩
        · exact absurd (Or.inl hnone) ‹_›
        · obtain ⟨pages, ended, hrest⟩ := ih (k + 1) hnext
          exact ⟨_, _, by rw [hrest]; rfl⟩

/-! ## The transfer of a perimeter -/

/-- Calls that return nothing the execution reads. -/
def RestoreCall.silent : RestoreCall → Bool
  | .imapConnect .. => true
  | .imapLogin .. => true
  | .imapCreate _ => true
  | .imapLogout => true
  | .sendRaw .. => true
  | .setProgress .. => true
  | .finish .. => true
  | _ => false

variable (e lower) in
/-- No call raises, and searches are answered on these documents. -/
structure Serves (contents : Contents) (answer : RestoreCall → RestoreReply) : Prop where
  search : ∀ (restrict : List String) (cursor : Option (List Scalar)) (data : SearchResult),
    advanced e lower contents noFilters RestorePc.pageSize (some restrict) cursor = .ok data →
      answer (.search restrict cursor) = .page data
  getEml : ∀ id, ∃ raw, answer (.getEml id) = .eml raw
  append : ∀ folder raw, ∃ accepted, answer (.imapAppend folder raw) = .append accepted
  silent : ∀ call, call.silent = true → answer call = .done

/-- The execution gets its next answer. -/
def Restoration.answered (s : Restoration) (answer : RestoreCall → RestoreReply) :
    Option Restoration :=
  match s.pc.call with
  | some call => s.step (answer call)
  | none => none

def Restoration.ended (s : Restoration) : Bool := s.pc.call.isNone

section

variable (e) (rows : List Hit) (job : TransferJob) (restrict : List String)

/-- The documents behind a cursor. -/
def left (cursor : Option (List Scalar)) : List Hit :=
  rows.filter (behind e.sortKey (e.cursorKey cursor))

/-- A page the execution works on, the documents before it being done. -/
structure OnPage (p : TransferPage) : Prop where
  jobId : p.transfer.jobId = job.id
  restrict : p.transfer.restrict = restrict
  cursor : SortCursor p.data.nextSearchAfter
  more : p.data.nextSearchAfter ≠ none
  short : p.data.results.length < RestorePc.pageSize → left e rows p.data.nextSearchAfter = []

/-- What was visited, then the rest of the page and what is behind it. -/
def Covers (visited page : List Nat) (cursor : Option (List Scalar)) : Prop :=
  visited ++ page ++ (left e rows cursor).map (·.id) = rows.map (·.id)

/-- The invariant of a transfer nothing goes wrong in. -/
def Visits (status : JobStatus) (visited : List Nat) : RestorePc → Prop
  | .search t => (t.jobId = job.id ∧ t.restrict = restrict) ∧ SortCursor t.cursor
      ∧ Covers e rows visited [] t.cursor
  | .getEml p r rest => OnPage e rows job restrict p
      ∧ Covers e rows visited (r.id :: rest.map (·.id)) p.data.nextSearchAfter
  | .imapConnect p _ => OnPage e rows job restrict p ∧ Covers e rows visited [] p.data.nextSearchAfter
  | .imapLogin p _ => OnPage e rows job restrict p ∧ Covers e rows visited [] p.data.nextSearchAfter
  | .imapCreate p _ => OnPage e rows job restrict p ∧ Covers e rows visited [] p.data.nextSearchAfter
  | .imapAppend p _ _ _ _ =>
      OnPage e rows job restrict p ∧ Covers e rows visited [] p.data.nextSearchAfter
  | .imapLogout p (.ok _) =>
      OnPage e rows job restrict p ∧ Covers e rows visited [] p.data.nextSearchAfter
  | .sendRaw p _ _ _ _ =>
      OnPage e rows job restrict p ∧ Covers e rows visited [] p.data.nextSearchAfter
  | .setProgress p => OnPage e rows job restrict p ∧ Covers e rows visited [] p.data.nextSearchAfter
  | .finishDone t => t.jobId = job.id ∧ visited = rows.map (·.id)
  | .returned => status = .done ∧ visited = rows.map (·.id)
  | _ => False

/-- The steps that are left, at most. -/
def effort : RestorePc → Nat
  | .search t => 9 * (left e rows t.cursor).length + 2
  | .getEml p _ rest =>
      9 * (left e rows p.data.nextSearchAfter).length + 8 + p.raws.length + 2 * (rest.length + 1)
  | .imapConnect p _ => 9 * (left e rows p.data.nextSearchAfter).length + 7 + p.raws.length
  | .imapLogin p _ => 9 * (left e rows p.data.nextSearchAfter).length + 6 + p.raws.length
  | .imapCreate p _ => 9 * (left e rows p.data.nextSearchAfter).length + 5 + p.raws.length
  | .imapAppend p _ _ _ rest => 9 * (left e rows p.data.nextSearchAfter).length + 5 + rest.length
  | .imapLogout p _ => 9 * (left e rows p.data.nextSearchAfter).length + 4
  | .sendRaw p _ _ _ rest => 9 * (left e rows p.data.nextSearchAfter).length + 4 + rest.length
  | .setProgress p => 9 * (left e rows p.data.nextSearchAfter).length + 3
  | .finishDone _ => 1
  | _ => 0

end

variable {rows : List Hit} {job : TransferJob} {restrict : List String} {status : JobStatus}
  {visited : List Nat} {p : TransferPage}

theorem visits_appendNext (hpage : OnPage e rows job restrict p)
    (hcovers : Covers e rows visited [] p.data.nextSearchAfter) (cfg : RestoreImap) (n : Nat)
    (raws : List Fetched) : Visits e rows job restrict status visited (.appendNext p cfg n raws) := by
  cases raws with
  | nil => exact ⟨hpage, hcovers⟩
  | cons raw rest => exact ⟨hpage, hcovers⟩

theorem visits_sendNext (hpage : OnPage e rows job restrict p)
    (hcovers : Covers e rows visited [] p.data.nextSearchAfter) (cfg : SmtpConfig)
    (recipient : String) (raws : List Fetched) :
    Visits e rows job restrict status visited (.sendNext p cfg recipient raws) := by
  cases raws with
  | nil => exact ⟨hpage, hcovers⟩
  | cons raw rest => exact ⟨hpage, hcovers⟩

theorem visits_getNext (hpage : OnPage e rows job restrict p) {rest : List ResultRow}
    (hcovers : Covers e rows visited (rest.map (·.id)) p.data.nextSearchAfter) :
    Visits e rows job restrict status visited (.getNext p rest) := by
  cases rest with
  | cons r rest => exact ⟨hpage, hcovers⟩
  | nil =>
      rw [RestorePc.getNext]
      cases p.transfer.dest with
      | imap cfg => exact ⟨hpage, hcovers⟩
      | smtp cfg recipient => exact visits_sendNext hpage hcovers cfg recipient p.raws

theorem effort_appendNext (cfg : RestoreImap) (n : Nat) (raws : List Fetched) :
    effort e rows (.appendNext p cfg n raws)
      ≤ 9 * (left e rows p.data.nextSearchAfter).length + 4 + raws.length := by
  cases raws with
  | nil => exact le_refl _
  | cons raw rest =>
      simp only [RestorePc.appendNext, effort, List.length_cons]
      omega

theorem effort_sendNext (cfg : SmtpConfig) (recipient : String) (raws : List Fetched) :
    effort e rows (.sendNext p cfg recipient raws)
      ≤ 9 * (left e rows p.data.nextSearchAfter).length + 3 + raws.length := by
  cases raws with
  | nil => exact le_refl _
  | cons raw rest =>
      simp only [RestorePc.sendNext, effort, List.length_cons]
      omega

theorem effort_getNext (rest : List ResultRow) : effort e rows (.getNext p rest)
    ≤ 9 * (left e rows p.data.nextSearchAfter).length + 8 + p.raws.length + 2 * rest.length := by
  cases rest with
  | cons r rest => exact le_refl _
  | nil =>
      rw [RestorePc.getNext]
      cases p.transfer.dest with
      | imap cfg =>
          simp only [effort]
          omega
      | smtp cfg recipient =>
          have hsend := @effort_sendNext e rows p cfg recipient p.raws
          simp only
          omega

/-- A page of the search and the documents behind it. -/
theorem left_page (hreads : e.ReadsCursors) {contents : Contents} {cursor : Option (List Scalar)}
    {data : SearchResult} (hrows : e.rows lower contents noFilters (some restrict) = rows)
    (hdec : Decreasing e.sortKey rows)
    (hdata : advanced e lower contents noFilters RestorePc.pageSize (some restrict) cursor = .ok data) :
    data.results.map (·.id) = ((left e rows cursor).take RestorePc.pageSize).map (·.id)
      ∧ (data.results = [] → left e rows cursor = [])
      ∧ (data.results ≠ [] → SortCursor data.nextSearchAfter ∧ data.nextSearchAfter ≠ none
        ∧ left e rows data.nextSearchAfter = (left e rows cursor).drop RestorePc.pageSize) := by
  obtain ⟨hresults, -⟩ := advanced_page hdata
  rw [hrows, page] at hresults
  refine ⟨?_, fun hempty => ?_, fun hne => ?_⟩
  · rw [hresults, List.map_map]
    rfl
  · rw [hresults, List.map_eq_nil_iff, List.take_eq_nil_iff] at hempty
    rcases hempty with hzero | hnil
    · cases hzero
    · exact hnil
  · rcases nextSearchAfter_cases hreads hdata with ⟨-, hempty, -⟩ | ⟨b, hlast, hnext, hsome, -, hkey⟩
    · exact absurd hempty hne
    · rw [hrows] at hlast
      refine ⟨hnext, hsome, ?_⟩
      rw [left, hkey, filter_behind_last hdec hlast]
      rfl

/-- A page of results is worked on. -/
theorem onPage_of_search (hreads : e.ReadsCursors) {contents : Contents} {t : Transfer}
    {data : SearchResult} (hrows : e.rows lower contents noFilters (some t.restrict) = rows)
    (hdec : Decreasing e.sortKey rows) (htid : t.jobId = job.id)
    (hdata : advanced e lower contents noFilters RestorePc.pageSize (some t.restrict) t.cursor
      = .ok data) (hne : data.results ≠ []) : OnPage e rows job t.restrict ⟨t, data, []⟩ := by
  obtain ⟨hids, -, hmore⟩ := left_page hreads hrows hdec hdata
  obtain ⟨hcursor, hsome, hleft⟩ := hmore hne
  refine ⟨htid, rfl, hcursor, hsome, fun hshort => ?_⟩
  have hlength := congrArg List.length hids
  rw [List.length_map, List.length_map, List.length_take] at hlength
  rw [hleft, List.drop_eq_nil_iff]
  simp only at hshort
  omega

/-- The state after an answer. -/
theorem visits_answered {s : Restoration} {answer : RestoreCall → RestoreReply} {call : RestoreCall}
    {reply : RestoreReply} {pc : RestorePc} {m : Nat} (hjob : s.job.id = job.id)
    (hcall : s.pc.call = some call) (hreply : answer call = reply) (happlied : reply.applied = true)
    (hresume : s.pc.resume reply = some pc)
    (hvisits : Visits e rows job restrict (call.onJob s.job).status
      (s.visited ++ Restoration.visits call reply) pc) (heffort : effort e rows pc < m) :
    ∃ s', s.answered answer = some s'
      ∧ (s'.job.id = job.id ∧ Visits e rows job restrict s'.job.status s'.visited s'.pc)
      ∧ effort e rows s'.pc < m := by
  have hstep : s.answered answer = s.step reply := by
    rw [Restoration.answered, hcall, ← hreply]
  rw [hstep, Restoration.step, hcall, hresume]
  refine ⟨_, rfl, ⟨?_, ?_⟩, heffort⟩
  · simp only [happlied, if_true, Restoration.onJob_id, hjob]
  · simp only [happlied, if_true]
    exact hvisits

/-- A call the execution reads no answer of. -/
theorem visits_silent {s : Restoration} {answer : RestoreCall → RestoreReply} {call : RestoreCall}
    {pc : RestorePc} {m : Nat} (hjob : s.job.id = job.id) (hcall : s.pc.call = some call)
    (hreply : answer call = .done) (hresume : s.pc.resume .done = some pc)
    (hvisits : Visits e rows job restrict (call.onJob s.job).status s.visited pc)
    (heffort : effort e rows pc < m) :
    ∃ s', s.answered answer = some s'
      ∧ (s'.job.id = job.id ∧ Visits e rows job restrict s'.job.status s'.visited s'.pc)
      ∧ effort e rows s'.pc < m := by
  have hnone : Restoration.visits call .done = [] := by cases call <;> rfl
  exact visits_answered hjob hcall hreply rfl hresume (by rwa [hnone, List.append_nil]) heffort

/-- A search that finds mails: they are next, and the mails left come
behind them. -/
theorem visits_of_page (hreads : e.ReadsCursors) {contents : Contents} {t : Transfer}
    {data : SearchResult} (hrows : e.rows lower contents noFilters (some t.restrict) = rows)
    (hdec : Decreasing e.sortKey rows) (htid : t.jobId = job.id)
    (hcovers : Covers e rows visited [] t.cursor)
    (hdata : advanced e lower contents noFilters RestorePc.pageSize (some t.restrict) t.cursor
      = .ok data) (hne : data.results ≠ []) :
    Visits e rows job t.restrict status visited (.getNext ⟨t, data, []⟩ data.results)
      ∧ effort e rows (.getNext ⟨t, data, []⟩ data.results) < effort e rows (.search t) := by
  obtain ⟨hids, -, hmore⟩ := left_page hreads hrows hdec hdata
  obtain ⟨-, -, hleft⟩ := hmore hne
  constructor
  · refine visits_getNext (onPage_of_search hreads hrows hdec htid hdata hne) ?_
    simp only [Covers, List.append_nil] at hcovers ⊢
    rw [hids, hleft, List.append_assoc, ← List.map_append, List.take_append_drop]
    exact hcovers
  · -- the documents found leave the ones behind the cursor
    have heffort := @effort_getNext e rows ⟨t, data, []⟩ data.results
    have hlength := congrArg List.length hids
    have hpos := List.length_pos_iff.mpr hne
    rw [List.length_map, List.length_map, List.length_take] at hlength
    rw [hleft, List.length_drop, List.length_nil] at heffort
    refine lt_of_le_of_lt heffort ?_
    simp only [effort]
    omega

/-- **Each answer brings the transfer on**: the mails come in the order
of the search, and fewer steps are left. -/
theorem visits_progress {contents : Contents} (hreads : e.ReadsCursors)
    (hanswers : e.Answers (advancedQuery lower noFilters (some restrict)) RestorePc.pageSize)
    (hrows : e.rows lower contents noFilters (some restrict) = rows)
    (hdec : Decreasing e.sortKey rows) {answer : RestoreCall → RestoreReply}
    (hserves : Serves e lower contents answer) {s : Restoration} (hjob : s.job.id = job.id)
    (hinv : Visits e rows job restrict s.job.status s.visited s.pc) (hend : s.ended = false) :
    ∃ s', s.answered answer = some s'
      ∧ (s'.job.id = job.id ∧ Visits e rows job restrict s'.job.status s'.visited s'.pc)
      ∧ effort e rows s'.pc < effort e rows s.pc := by
  obtain ⟨pc, j, found, visited, accepted, refused⟩ := s
  cases pc with
  | search t =>
      obtain ⟨⟨htid, rfl⟩, hcursor, hcovers⟩ := hinv
      obtain ⟨data, hdata⟩ := @advanced_ok e lower contents noFilters _ _ t.cursor hanswers hcursor
      have hreply := hserves.search _ _ data hdata
      -- an empty page ends the transfer: no mail is left behind its cursor
      by_cases hempty : data.results = []
      · have hlast := (left_page hreads hrows hdec hdata).2.1 hempty
        refine visits_answered hjob rfl hreply rfl (by rw [RestorePc.resume, if_pos hempty]) ?_ ?_
        · refine ⟨htid, ?_⟩
          simpa [Covers, hlast, Restoration.visits] using hcovers
        · simp only [effort]
          omega
      · obtain ⟨hvisits, heffort⟩ := visits_of_page hreads hrows hdec htid hcovers hdata hempty
        exact visits_answered hjob rfl hreply rfl (by rw [RestorePc.resume, if_neg hempty])
          (by simpa [Restoration.visits] using hvisits) heffort
  | getEml p r rest =>
      obtain ⟨raw, hreply⟩ := hserves.getEml r.id
      obtain ⟨hpage, hcovers⟩ := hinv
      have hpage' : OnPage e rows job restrict { p with raws := p.raws ++ [⟨r.id, raw⟩] } :=
        ⟨hpage.jobId, hpage.restrict, hpage.cursor, hpage.more, hpage.short⟩
      refine visits_answered hjob rfl hreply rfl rfl (visits_getNext hpage' ?_) ?_
      · simpa [Covers, Restoration.visits] using hcovers
      · have heffort := @effort_getNext e rows { p with raws := p.raws ++ [⟨r.id, raw⟩] } rest
        rw [List.length_append, List.length_singleton] at heffort
        refine lt_of_le_of_lt heffort ?_
        simp only [effort]
        omega
  | imapConnect p cfg =>
      exact visits_silent hjob rfl (hserves.silent _ rfl) rfl hinv (by simp only [effort]; omega)
  | imapLogin p cfg =>
      exact visits_silent hjob rfl (hserves.silent _ rfl) rfl hinv (by simp only [effort]; omega)
  | imapCreate p cfg =>
      refine visits_silent hjob rfl (hserves.silent _ rfl) rfl
        (visits_appendNext hinv.1 hinv.2 cfg 0 p.raws) (lt_of_le_of_lt (effort_appendNext ..) ?_)
      simp only [effort]
      omega
  | imapAppend p cfg n raw rest =>
      obtain ⟨accepted, hreply⟩ := hserves.append cfg.folderOrDefault raw
      refine visits_answered hjob rfl hreply rfl rfl
        (visits_appendNext hinv.1 (by simpa [Restoration.visits] using hinv.2) cfg (n + 1) rest)
        (lt_of_le_of_lt (effort_appendNext ..) ?_)
      simp only [effort]
      omega
  | imapLogout p result =>
      cases result with
      | ok n =>
          refine visits_silent hjob rfl (hserves.silent _ rfl) rfl hinv ?_
          simp only [effort, RestorePc.afterLogout]
          omega
      | error error => exact hinv.elim
  | sendRaw p cfg recipient raw rest =>
      refine visits_silent hjob rfl (hserves.silent _ rfl) rfl
        (visits_sendNext hinv.1 hinv.2 cfg recipient rest) (lt_of_le_of_lt (effort_sendNext ..) ?_)
      simp only [effort]
      omega
  | setProgress p =>
      obtain ⟨hpage, hcovers⟩ := hinv
      -- a short page is the last one; a full one has a cursor
      by_cases hshort : p.data.results.length < RestorePc.pageSize
      · have hresume : (RestorePc.setProgress p).resume .done = some (.finishDone p.next) := by
          rw [RestorePc.resume, RestorePc.nextPage, if_pos (.inr hshort)]
        refine visits_silent hjob rfl (hserves.silent _ rfl) hresume ⟨hpage.jobId, ?_⟩ ?_
        · simpa [Covers, hpage.short hshort] using hcovers
        · simp only [effort]
          omega
      · have hresume : (RestorePc.setProgress p).resume .done = some (.search p.next) := by
          rw [RestorePc.resume, RestorePc.nextPage, if_neg (by simp [hpage.more, hshort])]
        refine visits_silent hjob rfl (hserves.silent _ rfl) hresume
          ⟨⟨hpage.jobId, hpage.restrict⟩, hpage.cursor, hcovers⟩ ?_
        simp only [effort, TransferPage.next]
        omega
  | finishDone t =>
      refine visits_silent hjob rfl (hserves.silent _ rfl) rfl ⟨?_, hinv.2⟩ Nat.one_pos
      simp [RestoreCall.onJob, hinv.1.trans hjob.symm]
  | returned => cases hend
  | raised error => cases hend
  | _ => exact hinv.elim

/-- **The transfer visits each mail of its perimeter once**, in the order
of the search, and ends: whatever is answered, as long as nothing raises
and the documents stay the same. -/
theorem transfer_visits {contents : Contents} (hreads : e.ReadsCursors)
    (hanswers : e.Answers (advancedQuery lower noFilters (some restrict)) RestorePc.pageSize)
    (hdec : Decreasing e.sortKey (e.rows lower contents noFilters (some restrict)))
    {answers : Nat → RestoreCall → RestoreReply} (hserves : ∀ i, Serves e lower contents (answers i))
    (job : TransferJob) (dest : Destination) {fuel : Nat}
    (hfuel : 9 * (e.rows lower contents noFilters (some restrict)).length + 2 ≤ fuel) :
    ∃ s, runUntil Restoration.answered Restoration.ended answers fuel
        (Restoration.start job restrict dest) = some s
      ∧ s.pc = .returned ∧ s.job.status = .done
      ∧ s.visited = (e.rows lower contents noFilters (some restrict)).map (·.id) := by
  generalize hrows : e.rows lower contents noFilters (some restrict) = rows at hdec hfuel ⊢
  have hleft : left e rows none = rows := filter_behind_none e.sortKey rows
  have hstart : Visits e rows job restrict job.status []
      (RestorePc.runPerimeterTransfer job.id restrict dest) :=
    ⟨⟨rfl, rfl⟩, trivial, by simp only [Covers, hleft, List.nil_append, List.append_nil]⟩
  obtain ⟨s, hrun, ⟨-, hvisits⟩, hended⟩ := runUntil_total
    (I := fun s => s.job.id = job.id ∧ Visits e rows job restrict s.job.status s.visited s.pc)
    (fun s i h hend => visits_progress hreads hanswers hrows hdec (hserves i) h.1 h.2 hend)
    (s := Restoration.start job restrict dest) ⟨rfl, hstart⟩
    (by simpa only [Restoration.start, RestorePc.runPerimeterTransfer, effort, hleft] using hfuel)
  refine ⟨s, hrun, ?_⟩
  obtain ⟨pc, j, found, visited, accepted, refused⟩ := s
  cases pc with
  | returned => exact ⟨rfl, hvisits⟩
  | raised error => exact hvisits.elim
  | _ => cases hended

/-! ## Pagination is exact -/

/-- Documents with one `doc_id` are one document, whenever they are
found. -/
def DistinctIds (contents : Nat → Contents) : Prop :=
  ∀ j k, ∀ h ∈ (contents j).hits, ∀ h' ∈ (contents k).hits, h.doc.docId = h'.doc.docId → h = h'

theorem DistinctIds.rows_decreasing {contents : Nat → Contents} (hids : DistinctIds contents)
    (hranks : e.Ranks) (filters : Filters) (restrictAddrs : Option (List String)) (k : Nat) :
    Decreasing e.sortKey (e.rows lower (contents k) filters restrictAddrs) := by
  have hnodup : (contents k).hits.Nodup := List.Nodup.of_map _ (contents k).unique
  exact MailArchiver.rows_decreasing hranks
    (hnodup.map_on fun h hh h' hh' heq => hids k k h hh h' hh' heq) filters restrictAddrs

/-- Results in strict order are found once each. -/
theorem nodup_of_decreasing {hits : List Hit} (h : Decreasing e.sortKey hits) : hits.Nodup :=
  h.imp fun hlt heq => absurd hlt (by rw [heq]; exact lt_irrefl _)

/-- What the pages hold, while documents come and go. -/
theorem followSearch_found (hranks : e.Ranks) (hreads : e.ReadsCursors) {contents : Nat → Contents}
    (hids : DistinctIds contents) {filters : Filters} {size : Nat} (hsize : 0 < size)
    {restrictAddrs : Option (List String)} {n : Nat} {pages : List (List ResultRow)} {ended : Bool}
    (h : followSearch e lower contents filters size restrictAddrs n 0 none = .ok (pages, ended)) :
    ∃ hits : List Hit, pages.flatten = hits.map Hit.resultRow ∧ Decreasing e.sortKey hits
      ∧ (hits.map fun h => h.doc.docId).Nodup
      ∧ (∀ h ∈ hits, ∃ j < pages.length, h ∈ e.rows lower (contents j) filters restrictAddrs)
      ∧ (ended = true → ∀ h,
        (∀ j < pages.length, h ∈ e.rows lower (contents j) filters restrictAddrs) →
          hits.count h = 1) := by
  have hdec := @DistinctIds.rows_decreasing e lower contents hids hranks filters restrictAddrs
  obtain ⟨rfl, rfl⟩ := followSearch_eq hreads h
  have hkey : e.cursorKey none = none := rfl
  rw [hkey]
  have hstrict := @follow_decreasing _ _ _ e.sortKey size _ hdec n 0 none
  have hfound := @mem_follow _ _ _ e.sortKey size
    (fun k => e.rows lower (contents k) filters restrictAddrs) n 0 none
  refine ⟨_, (List.map_flatten ..).symm, hstrict, ?_, fun h hh => ?_, fun hended h hpresent => ?_⟩
  · refine (nodup_of_decreasing hstrict).map_on fun h hh h' hh' heq => ?_
    obtain ⟨-, j, -, hj⟩ := hfound hh
    obtain ⟨-, k, -, hk⟩ := hfound hh'
    exact hids _ _ h (mem_rows.mp hj).1 h' (mem_rows.mp hk).1 heq
  · obtain ⟨-, j, hj, hmem⟩ := hfound hh
    rw [Nat.zero_add] at hmem
    exact ⟨j, by rwa [List.length_map], hmem⟩
  · refine List.count_eq_one_of_mem (nodup_of_decreasing hstrict) ?_
    refine mem_follow_of_present hdec hsize hended rfl fun j hj => ?_
    rw [Nat.zero_add]
    exact hpresent j (by rwa [List.length_map])

/-- Where nothing changes, enough pages are the whole search. -/
theorem followSearch_all (hranks : e.Ranks) (hreads : e.ReadsCursors) {contents : Nat → Contents}
    (hids : DistinctIds contents) {filters : Filters} {size : Nat} (hsize : 0 < size)
    {restrictAddrs : Option (List String)} (hsame : ∀ k, contents k = contents 0)
    (hanswers : e.Answers (advancedQuery lower filters restrictAddrs) size) {n : Nat}
    (hn : (e.rows lower (contents 0) filters restrictAddrs).length < n * size) :
    ∃ pages, followSearch e lower contents filters size restrictAddrs n 0 none = .ok (pages, true)
      ∧ pages.flatten = (e.rows lower (contents 0) filters restrictAddrs).map Hit.resultRow := by
  have hdec := @DistinctIds.rows_decreasing e lower contents hids hranks filters restrictAddrs 0
  obtain ⟨pages, ended, hok⟩ := @followSearch_ok e lower hreads contents filters size restrictAddrs
    hanswers n 0 none trivial
  obtain ⟨rfl, rfl⟩ := followSearch_eq hreads hok
  have hconst : (fun k => e.rows lower (contents k) filters restrictAddrs)
      = fun _ => e.rows lower (contents 0) filters restrictAddrs :=
    funext fun k => by rw [hsame k]
  have hkey : e.cursorKey none = none := rfl
  rw [hconst, hkey] at hok
  obtain ⟨hended, hflat⟩ := @follow_const _ _ _ e.sortKey _ size hdec hsize n 0 none
    (by rwa [filter_behind_none])
  rw [hended] at hok
  refine ⟨_, hok, ?_⟩
  rw [← List.map_flatten, hflat, filter_behind_none]

/-- **Cursor pagination is exact.** While documents come and go, following
the cursors gives results in strict order, no document twice, each found
where it matched, and once the pages end every document that matched at
each request. Where nothing changes, enough pages are exactly the search,
and the transfer of a perimeter visits each of its rows once: the
documents with an address of the perimeter (`mem_rows_perimeter`). -/
theorem pagination_exact (hranks : e.Ranks) (hreads : e.ReadsCursors) {contents : Nat → Contents}
    (hids : DistinctIds contents) (filters : Filters) {size : Nat} (hsize : 0 < size)
    (restrictAddrs : Option (List String)) :
    (∀ n pages ended,
        followSearch e lower contents filters size restrictAddrs n 0 none = .ok (pages, ended) →
          ∃ hits : List Hit, pages.flatten = hits.map Hit.resultRow ∧ Decreasing e.sortKey hits
            ∧ (hits.map fun h => h.doc.docId).Nodup
            ∧ (∀ h ∈ hits, ∃ j < pages.length, h ∈ e.rows lower (contents j) filters restrictAddrs)
            ∧ (ended = true → ∀ h,
              (∀ j < pages.length, h ∈ e.rows lower (contents j) filters restrictAddrs) →
                hits.count h = 1))
      ∧ ((∀ k, contents k = contents 0) →
        (e.Answers (advancedQuery lower filters restrictAddrs) size → ∀ n,
          (e.rows lower (contents 0) filters restrictAddrs).length < n * size →
            ∃ pages, followSearch e lower contents filters size restrictAddrs n 0 none
                = .ok (pages, true)
              ∧ pages.flatten
                = (e.rows lower (contents 0) filters restrictAddrs).map Hit.resultRow)
        ∧ ∀ restrict, e.Answers (advancedQuery lower noFilters (some restrict)) RestorePc.pageSize →
          ∀ (job : TransferJob) (dest : Destination), ∃ steps,
            ∀ answers, (∀ i, Serves e lower (contents 0) (answers i)) → ∀ fuel ≥ steps,
              ∃ s, runUntil Restoration.answered Restoration.ended answers fuel
                  (Restoration.start job restrict dest) = some s
                ∧ s.pc = .returned ∧ s.job.status = .done
                ∧ s.visited
                  = (e.rows lower (contents 0) noFilters (some restrict)).map (·.id)) := by
  refine ⟨fun n pages ended h => ?_, fun hsame => ⟨fun hanswers n hn => ?_, ?_⟩⟩
  · exact followSearch_found hranks hreads hids hsize h
  · exact followSearch_all hranks hreads hids hsize hsame hanswers hn
  · intro restrict hanswers job dest
    exact ⟨_, fun answers hserves fuel hfuel => transfer_visits hreads hanswers
      (hids.rows_decreasing hranks noFilters (some restrict) 0) hserves job dest hfuel⟩

/-! ### Two mails, page by page -/

def readCursor : List Scalar → Int × Int
  | [.int d, .int i] => (d, i)
  | _ => (0, 0)

/-- An engine that reads its cursors, and no dates. -/
def pagingSearch : SearchEngine := { sampleSearch with cursorValues := readCursor }

theorem pagingSearch_ranks : pagingSearch.Ranks where
  total := sampleSearch_ranks.total
  trans := sampleSearch_ranks.trans
  antisymm := sampleSearch_ranks.antisymm

def twoMails : Contents := ⟨[sampleHit 1 "bob@x.fr", sampleHit 2 "bob@x.fr"], by decide⟩

/-- Pages of one: the second is full and the third is empty. -/
theorem pagination_exact_two :
    ∃ pages, followSearch pagingSearch String.toLower (fun _ => twoMails) noFilters 1 none 3 0 none
        = .ok (pages, true)
      ∧ pages.flatten
        = (pagingSearch.rows String.toLower twoMails noFilters none).map Hit.resultRow := by
  have htwo : ∀ h ∈ twoMails.hits, ∀ h' ∈ twoMails.hits, h.doc.docId = h'.doc.docId → h = h' := by
    decide +kernel
  have hids : DistinctIds fun _ => twoMails := fun _ _ => htwo
  obtain ⟨-, hconst⟩ := @pagination_exact pagingSearch String.toLower pagingSearch_ranks
    (fun _ _ => rfl) _ hids noFilters 1 Nat.one_pos none
  exact (hconst fun _ => rfl).1 (fun _ _ => rfl) 3 (by decide +kernel)

end MailArchiver

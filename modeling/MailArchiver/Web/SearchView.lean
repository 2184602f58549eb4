import MailArchiver.Lib.Paging
import MailArchiver.Lib.Slots
import MailArchiver.Lib.Transition

/-!
# Web — SearchView

The search page of the web client: `run`, `load`, `prevPage` and
`nextPage` of `SearchView.vue`, over `searchAdvanced` of `api.js`. `load`
sends the filters and the cursor of the page as they are, and goes on when
the response arrives, with the page index and the cursors as they are
then: nothing ties a response to the page it was asked for.
-/

namespace MailArchiver

open Paging Transition

/-- `filters`, as typed in. -/
structure SearchForm where
  text : String
  from_ : String
  to_ : String
  participant : String
  subject : String
  dateFrom : String
  dateTo : String
  deriving DecidableEq, Repr

/-- `cleanFilters()`. -/
def cleanFilters (f : SearchForm) : List (String × String) :=
  [("text", f.text), ("from_", f.from_), ("to", f.to_), ("participant", f.participant),
    ("subject", f.subject), ("date_from", f.dateFrom), ("date_to", f.dateTo)].filter (·.2 ≠ "")

/-- A request of `searchAdvanced(filters, searchAfter, size)`. -/
structure SearchPayload (Cursor : Type) where
  filters : List (String × String)
  searchAfter : Option Cursor
  size : Nat
  deriving DecidableEq, Repr

/-- The JSON of a response. -/
structure SearchJson (Mail Cursor : Type) where
  total : Option Nat
  totalEstimated : Option Bool
  results : Option (List Mail)
  nextSearchAfter : Option Cursor

/-- What `searchAdvanced` returns. -/
structure SearchData (Mail Cursor : Type) where
  total : Nat
  totalEstimated : Bool
  results : List Mail
  nextSearchAfter : Option Cursor
  deriving DecidableEq, Repr

/-- The line above the results. -/
inductive SearchInfo where
  | blank
  | searching
  | noResults
  | resultsInfo (tot : Nat) (estimated : Bool) (first last : Nat)
  | error
  deriving DecidableEq, Repr

section

variable {Mail Cursor : Type}

def SearchJson.data (json : SearchJson Mail Cursor) : SearchData Mail Cursor where
  total := json.total.getD 0
  totalEstimated := json.totalEstimated.getD false
  results := json.results.getD []
  nextSearchAfter := json.nextSearchAfter

structure SearchView (Mail Cursor : Type) where
  filters : SearchForm
  results : List Mail
  info : SearchInfo
  total : Nat
  totalEstimated : Bool
  /-- The cursor of each page known. -/
  cursors : List (Option Cursor)
  pageIndex : Nat
  /-- `emit('expired')` was called. -/
  expired : Bool

namespace SearchView

def pageSize : Nat := 50

variable (v : SearchView Mail Cursor)

/-- `load()`, up to its `await`: what it sends. -/
def load : SearchView Mail Cursor × SearchPayload Cursor :=
  ({ v with info := .searching, results := [] },
    { filters := cleanFilters v.filters
      searchAfter := v.cursors[v.pageIndex]?.join
      size := pageSize })

/-- The cursor of the next page is remembered. -/
def pushes (data : SearchData Mail Cursor) : Prop :=
  v.pageIndex + 1 = v.cursors.length ∧ data.nextSearchAfter.isSome = true
    ∧ data.results.length = pageSize

instance (data : SearchData Mail Cursor) : Decidable (v.pushes data) :=
  inferInstanceAs (Decidable (_ ∧ _ ∧ _))

/-- `load()`, from its `await`. -/
def loaded (data : SearchData Mail Cursor) : SearchView Mail Cursor :=
  { v with
    results := data.results
    total := data.total
    totalEstimated := data.totalEstimated
    cursors := if v.pushes data then v.cursors ++ [data.nextSearchAfter] else v.cursors
    info :=
      if data.total = 0 then .noResults
      else
        .resultsInfo data.total data.totalEstimated (v.pageIndex * pageSize + 1)
          (v.pageIndex * pageSize + data.results.length) }

/-- The `catch` of `load()`. -/
def loadFailed (unauthorized : Bool) : SearchView Mail Cursor :=
  if unauthorized then { v with expired := true } else { v with info := .error }

/-- `run()`. -/
def run : SearchView Mail Cursor × SearchPayload Cursor :=
  load { v with cursors := [none], pageIndex := 0 }

def hasNext : Bool := v.pageIndex + 1 < v.cursors.length

/-- `prevPage()`. -/
def prevPage : Option (SearchView Mail Cursor × SearchPayload Cursor) :=
  if 0 < v.pageIndex then some (load { v with pageIndex := v.pageIndex - 1 }) else none

/-- `nextPage()`. -/
def nextPage : Option (SearchView Mail Cursor × SearchPayload Cursor) :=
  if v.hasNext then some (load { v with pageIndex := v.pageIndex + 1 }) else none

end SearchView

/-! ## A session -/

/-- A request, with the search and the page it was sent for. -/
structure SearchRequest (Cursor : Type) where
  payload : SearchPayload Cursor
  search : Nat
  page : Nat
  deriving DecidableEq, Repr

/-- The page and its requests in flight; `searches`, `searched` and
`answers` record what happened. -/
structure SearchSession (Mail Cursor : Type) where
  view : SearchView Mail Cursor
  inFlight : List (SearchRequest Cursor)
  /-- How many searches were started. -/
  searches : Nat
  /-- The filters of the last one. -/
  searched : List (String × String)
  /-- The responses that arrived. -/
  answers : List (SearchRequest Cursor × SearchData Mail Cursor)

inductive SearchEvent (Mail Cursor : Type) where
  | edit (filters : SearchForm)
  | run
  | prevPage
  | nextPage
  /-- The response to a request in flight. -/
  | arrive (k : Nat) (json : SearchJson Mail Cursor)
  | fail (k : Nat) (unauthorized : Bool)

namespace SearchSession

variable (s : SearchSession Mail Cursor)

def send (sent : SearchView Mail Cursor × SearchPayload Cursor) : SearchSession Mail Cursor :=
  { s with
    view := sent.1
    inFlight := s.inFlight ++ [⟨sent.2, s.searches, sent.1.pageIndex⟩] }

def start : SearchSession Mail Cursor :=
  { s with searches := s.searches + 1, searched := cleanFilters s.view.filters }.send s.view.run

def step : SearchEvent Mail Cursor → Option (SearchSession Mail Cursor)
  | .edit filters => some { s with view := { s.view with filters } }
  | .run => some s.start
  | .prevPage => some (s.view.prevPage.elim s s.send)
  | .nextPage => some (s.view.nextPage.elim s s.send)
  | .arrive k json =>
      s.inFlight[k]?.map fun r =>
        { s with
          view := s.view.loaded json.data
          inFlight := s.inFlight.eraseIdx k
          answers := (r, json.data) :: s.answers }
  | .fail k unauthorized =>
      s.inFlight[k]?.map fun _ =>
        { s with
          view := s.view.loadFailed unauthorized
          inFlight := s.inFlight.eraseIdx k }

/-- The page as it opens: `onMounted(run)`. -/
def mounted : SearchSession Mail Cursor :=
  start {
    view := {
      filters := ⟨"", "", "", "", "", "", ""⟩
      results := []
      info := .blank
      total := 0
      totalEstimated := false
      cursors := [none]
      pageIndex := 0
      expired := false }
    inFlight := []
    searches := 0
    searched := []
    answers := [] }

/-! ## Pages of the search shown -/

/-- A request for page `i` of the last search. -/
def IsPage (i : Nat) (r : SearchRequest Cursor) : Prop :=
  r.search = s.searches ∧ r.page = i
    ∧ r.payload = ⟨s.searched, s.view.cursors[i]?.join, SearchView.pageSize⟩

/-- The results shown are those of the page they are shown as. -/
def ShowsPage : Prop :=
  ∃ a ∈ s.answers, s.IsPage s.view.pageIndex a.1 ∧ s.view.results = a.2.results

/-- Each cursor is the one returned for the page before it. -/
def CursorsReturned : Prop :=
  ∀ i c, s.view.cursors[i + 1]? = some c →
    ∃ a ∈ s.answers, s.IsPage i a.1 ∧ c.isSome = true ∧ c = a.2.nextSearchAfter

end SearchSession

end

/-- The response of a search whose mails are `rows`, in this order. -/
def ServesPage {Mail Cursor : Type} [LinearOrder Cursor] (key : Mail → Cursor) (rows : List Mail)
    (payload : SearchPayload Cursor) (data : SearchData Mail Cursor) : Prop :=
  data.results = page key rows payload.searchAfter payload.size
    ∧ data.nextSearchAfter = data.results.getLast?.map key

/-- **The cursors belong to the search shown.** -/
structure SearchSession.Coherent {Mail Cursor : Type} [LinearOrder Cursor] (key : Mail → Cursor)
    (s : SearchSession Mail Cursor) : Prop where
  shown : s.inFlight = [] → s.ShowsPage
  cursors : s.CursorsReturned
  /-- Going through the pages neither skips nor repeats a mail. -/
  pages : ∀ rows, Decreasing key rows →
    (∀ a ∈ s.answers, a.1.search = s.searches → a.1.payload.filters = s.searched →
      ServesPage key rows a.1.payload a.2) →
    s.inFlight = [] →
      s.view.results =
        (rows.drop (s.view.pageIndex * SearchView.pageSize)).take SearchView.pageSize

/-! ## What keeps them together -/

namespace SearchSession

variable {Mail Cursor : Type}

/-- A request for the page shown, with the filters of the last search. -/
def IsCurrent (s : SearchSession Mail Cursor) (r : SearchRequest Cursor) : Prop :=
  r.search = s.searches ∧ r.page = s.view.pageIndex ∧ r.payload.filters = s.searched

/-- A response that is not for the page shown comes before another one and
leaves no cursor; the request that comes back last does not fail, unless
its page is already shown. -/
def Orderly (s : SearchSession Mail Cursor) : SearchEvent Mail Cursor → Prop
  | .arrive k json =>
      ∀ r, s.inFlight[k]? = some r →
        s.IsCurrent r ∨ s.inFlight.eraseIdx k ≠ [] ∧ ¬ s.view.pushes json.data
  | .fail k _ => s.inFlight.eraseIdx k ≠ [] ∨ s.ShowsPage
  | _ => True

instance [DecidableEq Cursor] (s : SearchSession Mail Cursor) (i : Nat)
    (r : SearchRequest Cursor) : Decidable (s.IsPage i r) :=
  inferInstanceAs (Decidable (_ ∧ _ ∧ _))

instance (s : SearchSession Mail Cursor) (r : SearchRequest Cursor) : Decidable (s.IsCurrent r) :=
  inferInstanceAs (Decidable (_ ∧ _ ∧ _))

instance [DecidableEq Mail] [DecidableEq Cursor] (s : SearchSession Mail Cursor) :
    Decidable s.ShowsPage :=
  inferInstanceAs (Decidable (∃ a ∈ s.answers, _))

instance [DecidableEq Mail] [DecidableEq Cursor] (s : SearchSession Mail Cursor) :
    (e : SearchEvent Mail Cursor) → Decidable (s.Orderly e)
  | .arrive k json =>
      inferInstanceAs (Decidable (∀ r ∈ s.inFlight[k]?,
        s.IsCurrent r ∨ s.inFlight.eraseIdx k ≠ [] ∧ ¬ s.view.pushes json.data))
  | .fail k _ => inferInstanceAs (Decidable (s.inFlight.eraseIdx k ≠ [] ∨ s.ShowsPage))
  | .edit _ => isTrue trivial
  | .run => isTrue trivial
  | .prevPage => isTrue trivial
  | .nextPage => isTrue trivial

/-- A request in flight; one of the last search asks for a page known. -/
structure Sent (s : SearchSession Mail Cursor) (r : SearchRequest Cursor) : Prop where
  search : r.search ≤ s.searches
  size : r.payload.size = SearchView.pageSize
  page : r.search = s.searches → r.page < s.view.cursors.length
  cursor : r.search = s.searches → r.payload.searchAfter = s.view.cursors[r.page]?.join

structure Inv (s : SearchSession Mail Cursor) : Prop where
  index : s.view.pageIndex < s.view.cursors.length
  first : s.view.cursors[0]? = some none
  sent : ∀ r ∈ s.inFlight, s.Sent r
  shown : s.inFlight = [] → s.ShowsPage
  cursors : s.CursorsReturned

variable {s s' : SearchSession Mail Cursor}

theorem Sent.isPage {r : SearchRequest Cursor} (h : s.Sent r) (hr : s.IsCurrent r) :
    s.IsPage s.view.pageIndex r := by
  obtain ⟨hsearch, hpage, hfilters⟩ := hr
  refine ⟨hsearch, hpage, ?_⟩
  rw [← hpage, ← h.cursor hsearch, ← h.size, ← hfilters]

/-- `Sent` depends on the cursors and on the number of searches alone. -/
theorem Sent.congr {r : SearchRequest Cursor} (h : s.Sent r) (hsearches : s'.searches = s.searches)
    (hcursors : s'.view.cursors = s.view.cursors) : s'.Sent r where
  search := hsearches ▸ h.search
  size := h.size
  page := by
    rw [hsearches, hcursors]
    exact h.page
  cursor := by
    rw [hsearches, hcursors]
    exact h.cursor

/-- A new search waits for its own first page. -/
theorem inv_start
    (h : ∀ r ∈ s.inFlight, r.search ≤ s.searches ∧ r.payload.size = SearchView.pageSize) :
    s.start.Inv where
  index := Nat.one_pos
  first := rfl
  sent := by
    intro r hr
    rcases List.mem_append.mp hr with hr | hr
    · -- a request of an earlier search
      obtain ⟨hsearch, hsize⟩ := h r hr
      have hlt : r.search ≠ s.searches + 1 := by omega
      exact ⟨Nat.le_succ_of_le hsearch, hsize, fun heq => absurd heq hlt, fun heq => absurd heq hlt⟩
    · obtain rfl := List.mem_singleton.mp hr
      exact ⟨Nat.le_refl _, rfl, fun _ => Nat.one_pos, fun _ => rfl⟩
  shown := fun hnil => absurd hnil (by simp [start, send])
  cursors := by
    intro i c hc
    simp [start, send, SearchView.run, SearchView.load] at hc

theorem inv_mounted : (mounted : SearchSession Mail Cursor).Inv :=
  inv_start fun r hr => by cases hr

/-- A page action waits for its page. -/
theorem inv_send (h : s.Inv) {i : Nat} (hi : i < s.view.cursors.length) :
    (s.send (SearchView.load { s.view with pageIndex := i })).Inv where
  index := hi
  first := h.first
  sent := by
    intro r hr
    rcases List.mem_append.mp hr with hr | hr
    · exact (h.sent r hr).congr rfl rfl
    · obtain rfl := List.mem_singleton.mp hr
      exact ⟨Nat.le_refl _, rfl, fun _ => hi, fun _ => rfl⟩
  shown := fun hnil => absurd hnil (by simp [send])
  cursors := h.cursors

/-! ### A response -/

theorem getElem?_loaded {v : SearchView Mail Cursor} (data : SearchData Mail Cursor) {i : Nat}
    (hi : i < v.cursors.length) : (v.loaded data).cursors[i]? = v.cursors[i]? := by
  simp only [SearchView.loaded]
  split
  · exact List.getElem?_append_left hi
  · rfl

theorem length_le_loaded (v : SearchView Mail Cursor) (data : SearchData Mail Cursor) :
    v.cursors.length ≤ (v.loaded data).cursors.length := by
  simp only [SearchView.loaded]
  split
  · simp
  · exact Nat.le_refl _

/-- A cursor was there before, or is the one the response leaves. -/
theorem getElem?_loaded_or {v : SearchView Mail Cursor} {data : SearchData Mail Cursor} {i : Nat}
    {c : Option Cursor} (h : (v.loaded data).cursors[i]? = some c) :
    v.cursors[i]? = some c
      ∨ v.pushes data ∧ i = v.cursors.length ∧ c = data.nextSearchAfter := by
  simp only [SearchView.loaded] at h
  split at h
  · rename_i hpushes
    rcases Nat.lt_or_ge i v.cursors.length with hi | hi
    · exact .inl (List.getElem?_append_left hi ▸ h)
    · rw [List.getElem?_append_right hi, List.getElem?_singleton] at h
      split at h
      · exact .inr ⟨hpushes, by omega, (Option.some.inj h).symm⟩
      · cases h
  · exact .inl h

/-- The session after the response to `r`. -/
theorem inv_arrive (h : s.Inv) {k : Nat} {r : SearchRequest Cursor} {data : SearchData Mail Cursor}
    (hr : s.inFlight[k]? = some r)
    (horderly : s.IsCurrent r ∨ s.inFlight.eraseIdx k ≠ [] ∧ ¬ s.view.pushes data) :
    Inv { s with
      view := s.view.loaded data
      inFlight := s.inFlight.eraseIdx k
      answers := (r, data) :: s.answers } := by
  -- the page a request was sent for stays the same: cursors are only appended
  have hkeep : ∀ {i : Nat}, i < s.view.cursors.length → ∀ {q}, s.IsPage i q →
      IsPage { s with
        view := s.view.loaded data
        inFlight := s.inFlight.eraseIdx k
        answers := (r, data) :: s.answers } i q := by
    rintro i hi q ⟨hsearch, hpage, hpayload⟩
    refine ⟨hsearch, hpage, ?_⟩
    rw [hpayload, getElem?_loaded data hi]
  have hsent := h.sent r (List.mem_of_getElem? hr)
  refine ⟨?_, ?_, ?_, ?_, ?_⟩
  · exact Nat.lt_of_lt_of_le h.index (length_le_loaded s.view data)
  · rw [getElem?_loaded data (Nat.zero_lt_of_lt h.index)]
    exact h.first
  · intro q hq
    obtain ⟨hsearch, hsize, hpage, hcursor⟩ := h.sent q (List.mem_of_mem_eraseIdx hq)
    refine ⟨hsearch, hsize, fun heq => ?_, fun heq => ?_⟩
    · exact Nat.lt_of_lt_of_le (hpage heq) (length_le_loaded s.view data)
    · rw [hcursor heq, getElem?_loaded data (hpage heq)]
  · intro hnil
    -- the last response is for the page shown
    have hcurrent := horderly.resolve_right fun hstale => hstale.1 hnil
    exact ⟨(r, data), List.mem_cons_self, hkeep h.index (hsent.isPage hcurrent), rfl⟩
  · intro i c hc
    rcases getElem?_loaded_or hc with hold | ⟨hpushes, hi, rfl⟩
    · obtain ⟨a, ha, hpage, hsome, hc'⟩ := h.cursors i c hold
      have hlt := (List.getElem?_eq_some_iff.mp hold).1
      exact ⟨a, List.mem_cons_of_mem _ ha, hkeep (by omega) hpage, hsome, hc'⟩
    · -- so is the response that leaves a cursor
      have hcurrent := horderly.resolve_right fun hstale => hstale.2 hpushes
      have hindex : s.view.pageIndex = i := by
        have := hpushes.1
        omega
      exact ⟨(r, data), List.mem_cons_self,
        hindex ▸ hkeep h.index (hsent.isPage hcurrent), hpushes.2.1, rfl⟩

/-- A failure leaves the cursors and the results. -/
theorem inv_fail (h : s.Inv) {k : Nat} {unauthorized : Bool}
    (horderly : s.inFlight.eraseIdx k ≠ [] ∨ s.ShowsPage) :
    Inv { s with
      view := s.view.loadFailed unauthorized
      inFlight := s.inFlight.eraseIdx k } := by
  have hsent : ∀ r ∈ s.inFlight.eraseIdx k, s.Sent r :=
    fun r hr => h.sent r (List.mem_of_mem_eraseIdx hr)
  have hshown : s.inFlight.eraseIdx k = [] → s.ShowsPage :=
    fun hnil => horderly.resolve_left fun hne => hne hnil
  cases unauthorized with
  | true => exact ⟨h.index, h.first, fun r hr => (hsent r hr).congr rfl rfl, hshown, h.cursors⟩
  | false => exact ⟨h.index, h.first, fun r hr => (hsent r hr).congr rfl rfl, hshown, h.cursors⟩

/-- One event. -/
theorem inv_step (h : s.Inv) {e : SearchEvent Mail Cursor} (horderly : s.Orderly e)
    (hstep : s.step e = some s') : s'.Inv := by
  cases e with
  | edit filters =>
      obtain rfl := Option.some.inj hstep
      exact ⟨h.index, h.first, fun r hr => (h.sent r hr).congr rfl rfl, h.shown, h.cursors⟩
  | run =>
      obtain rfl := Option.some.inj hstep
      exact inv_start fun r hr => ⟨(h.sent r hr).search, (h.sent r hr).size⟩
  | prevPage =>
      obtain rfl := Option.some.inj hstep
      unfold SearchView.prevPage
      split
      · exact inv_send h (Nat.lt_of_le_of_lt (Nat.sub_le ..) h.index)
      · exact h
  | nextPage =>
      obtain rfl := Option.some.inj hstep
      unfold SearchView.nextPage
      split
      · rename_i hnext
        exact inv_send h (of_decide_eq_true hnext)
      · exact h
  | arrive k json =>
      obtain ⟨r, hr, rfl⟩ := Option.map_eq_some_iff.mp hstep
      exact inv_arrive h hr (horderly r hr)
  | fail k unauthorized =>
      obtain ⟨r, -, rfl⟩ := Option.map_eq_some_iff.mp hstep
      exact inv_fail h horderly

/-! ## A user who waits -/

/-- Nothing is asked for while a request is in flight, a page is one of
the search that was started, and no request fails. -/
def Waits (s : SearchSession Mail Cursor) : SearchEvent Mail Cursor → Prop
  | .run => s.inFlight = []
  | .prevPage | .nextPage => s.inFlight = [] ∧ cleanFilters s.view.filters = s.searched
  | .fail _ _ => False
  | _ => True

/-- Then the request in flight is always for the page shown. -/
def Awaited (s : SearchSession Mail Cursor) : Prop := ∀ r ∈ s.inFlight, s.IsCurrent r

theorem awaited_send {v : SearchView Mail Cursor} (hnil : s.inFlight = [])
    (hfilters : cleanFilters v.filters = s.searched) : (s.send v.load).Awaited := by
  intro r hr
  rw [send, hnil, List.nil_append] at hr
  obtain rfl := List.mem_singleton.mp hr
  exact ⟨rfl, rfl, hfilters⟩

theorem awaited_step (h : s.Awaited) {e : SearchEvent Mail Cursor} (hwaits : s.Waits e)
    (hstep : s.step e = some s') : s'.Awaited := by
  cases e with
  | edit filters =>
      obtain rfl := Option.some.inj hstep
      exact h
  | run =>
      obtain rfl := Option.some.inj hstep
      exact awaited_send hwaits rfl
  | prevPage =>
      obtain rfl := Option.some.inj hstep
      unfold SearchView.prevPage
      split
      · exact awaited_send hwaits.1 hwaits.2
      · exact h
  | nextPage =>
      obtain rfl := Option.some.inj hstep
      unfold SearchView.nextPage
      split
      · exact awaited_send hwaits.1 hwaits.2
      · exact h
  | arrive k json =>
      obtain ⟨r, -, rfl⟩ := Option.map_eq_some_iff.mp hstep
      exact fun q hq => h q (List.mem_of_mem_eraseIdx hq)
  | fail k unauthorized => exact absurd hwaits id

theorem orderly_of_awaited (h : s.Awaited) {e : SearchEvent Mail Cursor} (hwaits : s.Waits e) :
    s.Orderly e := by
  cases e with
  | arrive k json => exact fun r hr => .inl (h r (List.mem_of_getElem? hr))
  | fail k unauthorized => exact absurd hwaits id
  | edit filters => trivial
  | run => trivial
  | prevPage => trivial
  | nextPage => trivial

/-! ## Paging through a search -/

variable [LinearOrder Cursor] {key : Mail → Cursor}

/-- Each cursor is behind the pages before it. -/
theorem filter_behind_cursor (h : s.Inv) {rows : List Mail} (hrows : Decreasing key rows)
    (hserves : ∀ a ∈ s.answers, a.1.search = s.searches → a.1.payload.filters = s.searched →
      ServesPage key rows a.1.payload a.2) {i : Nat} {c : Option Cursor}
    (hc : s.view.cursors[i]? = some c) :
    rows.filter (behind key c) = rows.drop (i * SearchView.pageSize) := by
  induction i generalizing c with
  | zero =>
      obtain rfl := Option.some.inj (h.first.symm.trans hc)
      simp
  | succ i ih =>
      obtain ⟨a, ha, ⟨hsearch, -, hpayload⟩, hsome, rfl⟩ := h.cursors i c hc
      have hlt : i < s.view.cursors.length := by
        have := (List.getElem?_eq_some_iff.mp hc).1
        omega
      have hi := List.getElem?_eq_getElem hlt
      obtain ⟨hresults, hnext⟩ := hserves a ha hsearch (by rw [hpayload])
      rw [hpayload, hi, Option.join_some] at hresults
      -- the cursor is the key of the last mail of page `i`
      rw [hnext, Option.isSome_map, Option.isSome_iff_exists] at hsome
      obtain ⟨b, hb⟩ := hsome
      rw [hnext, hb, Option.map_some, filter_behind_last hrows (hresults ▸ hb), ih hi,
        List.drop_drop, Nat.succ_mul]

theorem Inv.coherent (h : s.Inv) : s.Coherent key where
  shown := h.shown
  cursors := h.cursors
  pages := by
    intro rows hrows hserves hnil
    obtain ⟨a, ha, ⟨hsearch, -, hpayload⟩, hresults⟩ := h.shown hnil
    have hi := List.getElem?_eq_getElem h.index
    rw [hresults, (hserves a ha hsearch (by rw [hpayload])).1, hpayload, hi, Option.join_some, page,
      filter_behind_cursor h hrows hserves hi]

/-- **The cursors belong to the search shown** in every state of a session
in which a response that is not for the page shown comes before another
one and leaves no cursor. -/
theorem cursors_belong_to_search {events : List (SearchEvent Mail Cursor)}
    (hrun : Transition.run step mounted events = some s)
    (hmeets : Meets step Orderly mounted events) : s.Coherent key :=
  (run_invariant_of_meets (fun _ _ _ h horderly hstep => inv_step h horderly hstep) hrun hmeets
    inv_mounted).coherent

/-- So the cursors belong to the search shown when the user waits for each
response. -/
theorem waits_coherent {events : List (SearchEvent Mail Cursor)}
    (hrun : Transition.run step mounted events = some s)
    (hmeets : Meets step Waits mounted events) : s.Coherent key := by
  have hstep : ∀ (s : SearchSession Mail Cursor) e s', s.Inv ∧ s.Awaited → s.Waits e →
      s.step e = some s' → s'.Inv ∧ s'.Awaited := fun _ _ _ h hwaits hstep =>
    ⟨inv_step h.1 (orderly_of_awaited h.2 hwaits) hstep, awaited_step h.2 hwaits hstep⟩
  have hboth := run_invariant_of_meets hstep hrun hmeets ⟨inv_mounted, awaited_send rfl rfl⟩
  exact hboth.1.coherent

/-! ### Two sessions -/

/-- Mails that are numbers, the newest first; a mail is its own cursor. -/
def mailsFrom (newest size : Nat) : SearchJson Nat Nat where
  total := some (newest + 1)
  totalEstimated := none
  results := some ((List.range size).map (newest - ·))
  nextSearchAfter := some (newest + 1 - size)

/-- Three pages, after going back and forth between the first two. -/
def threePages : List (SearchEvent Nat Nat) :=
  [.arrive 0 (mailsFrom 119 50), .nextPage, .arrive 0 (mailsFrom 69 50), .prevPage, .nextPage,
    .arrive 0 (mailsFrom 119 50), .arrive 0 (mailsFrom 69 50), .nextPage,
    .arrive 0 (mailsFrom 19 20)]

theorem threePages_coherent :
    ∃ s, Transition.run step mounted threePages = some s ∧ s.Coherent id := by
  have hsome : (Transition.run step mounted threePages).isSome = true := by decide +kernel
  obtain ⟨s, hs⟩ := Option.isSome_iff_exists.mp hsome
  have hcheck : meetsAll step (fun s e => decide (Orderly s e)) mounted threePages = true := by
    decide +kernel
  exact ⟨s, hs, cursors_belong_to_search hs (meets_of_check (fun _ _ => of_decide_eq_true) hcheck)⟩

/-- A search started before the page has its first mails; the responses
arrive in the order of their requests. -/
def quickSearch : List (SearchEvent Nat Nat) :=
  [.edit ⟨"facture", "", "", "", "", "", ""⟩, .run, .arrive 0 (mailsFrom 119 50),
    .arrive 0 (mailsFrom 99 50)]

/-- The second page of the new search begins behind the first page of the
old one. -/
theorem quickSearch_not_coherent :
    ∃ s, Transition.run step mounted quickSearch = some s ∧ s.inFlight = [] ∧ ¬ s.Coherent id := by
  have hrun : ∃ s, Transition.run step mounted quickSearch = some s ∧ s.inFlight = []
      ∧ s.view.cursors[1]? = some (some 70)
      ∧ ∀ a ∈ s.answers, a.1.search = s.searches → a.2.nextSearchAfter ≠ some 70 :=
    ⟨_, rfl, by decide +kernel⟩
  obtain ⟨s, hs, hnil, hcursor, hother⟩ := hrun
  refine ⟨s, hs, hnil, fun hcoherent => ?_⟩
  obtain ⟨a, ha, ⟨hsearch, -⟩, -, hreturned⟩ := hcoherent.cursors 0 _ hcursor
  exact hother a ha hsearch hreturned.symm

end SearchSession

end MailArchiver

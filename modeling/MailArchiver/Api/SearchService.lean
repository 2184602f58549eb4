import MailArchiver.Api.Perimeter
import MailArchiver.Lib.Ranking
import Mathlib.Algebra.Group.Int.Defs
import Mathlib.Data.Prod.Lex
import Mathlib.Data.String.Basic

/-!
# Api — SearchService

`SearchService.advanced` and `_search` of `api/search.py` from the request
to the answer, and what the token of an account carries of its perimeter.
The contents of the daily indices are a list of documents; OpenSearch
selects those that match the query, ranks them by the explicit sort and
returns a page. What the sort leaves open, and which requests it refuses,
is its own (`SearchEngine`).
-/

namespace MailArchiver

open Ranking

/-- A document as a search finds it. -/
structure Hit where
  index : String
  /-- `_id`. -/
  id : Nat
  /-- `_source`. -/
  doc : IndexDoc
  deriving DecidableEq, Repr

/-- An index holds one document under an id. -/
def Hit.key (h : Hit) : String × Nat := (h.index, h.id)

/-- The documents of the daily indices. -/
structure Contents where
  hits : List Hit
  unique : (hits.map Hit.key).Nodup

/-- `body` of a search. -/
structure SearchBody where
  size : Int
  query : Query
  searchAfter : Option (List Scalar)

/-- What OpenSearch decides besides the clauses. -/
structure SearchEngine extends Engine where
  /-- The sort value of the field `date`, in milliseconds. -/
  dateValue : IndexDoc → Int
  /-- The order of hits with equal sort values, by index and `_id`. -/
  tieBreak : String × Nat → String × Nat → Bool
  /-- The sort values of a cursor. -/
  cursorValues : List Scalar → Int × Int
  /-- The refusal of a request: a size out of range, a malformed cursor or
  date. -/
  refuses : SearchBody → Option PyError

namespace SearchEngine

variable (e : SearchEngine)

/-- The sort value of `doc_id`; a document without one comes last. -/
def docIdValue (doc : IndexDoc) : Int :=
  match doc.docId with
  | some id => id
  | none => -(2 ^ 63)

/-- `"sort": [{"date": "desc"}, {"doc_id": "desc"}]`. -/
def order : Hit → Hit → Bool :=
  descBy (fun h => e.dateValue h.doc) (descBy (fun h => docIdValue h.doc) fun h h' =>
    e.tieBreak h.key h'.key)

/-- Behind the cursor in the sort. -/
def follows (cursor : Int × Int) (h : Hit) : Bool :=
  decide (e.dateValue h.doc < cursor.1)
    || (decide (e.dateValue h.doc = cursor.1) && decide (docIdValue h.doc < cursor.2))

/-- `"track_total_hits": 10000`. -/
def trackTotalHits : Nat := 10000

/-- `hits` of a response. -/
structure Hits where
  /-- `total.value`. -/
  total : Nat
  /-- `total.relation` is `gte`. -/
  atLeast : Bool
  rows : List Hit
  deriving DecidableEq, Repr

/-- The documents a query selects, in the order of the sort. -/
def matching (contents : Contents) (query : Query) : List Hit :=
  ranked e.order (contents.hits.filter fun h => query.selects e.toEngine h.doc)

def search (contents : Contents) (body : SearchBody) : Except PyError Hits :=
  match e.refuses body with
  | some error => .error error
  | none =>
      let all := e.matching contents body.query
      let rows :=
        match body.searchAfter with
        | none => all
        | some cursor => all.filter (e.follows (e.cursorValues cursor))
      .ok {
        total := min all.length trackTotalHits
        atLeast := decide (trackTotalHits < all.length)
        rows := rows.take body.size.toNat }

/-- The explicit sort decides the order: where its values are equal, the
two hits themselves do, not the documents around them. -/
structure Ranks : Prop where
  total : ∀ k k', e.tieBreak k k' = true ∨ e.tieBreak k' k = true
  trans : ∀ k k' k'', e.tieBreak k k' = true → e.tieBreak k' k'' = true → e.tieBreak k k'' = true
  antisymm : ∀ k k', e.tieBreak k k' = true → e.tieBreak k' k = true → k = k'

variable {e}

theorem Ranks.order_total (h : e.Ranks) : Total e.order := by
  refine Total.descBy (Total.descBy ⟨?_, ?_⟩ _) _
  · exact fun a b => h.total a.key b.key
  · exact fun a b c => h.trans a.key b.key c.key

theorem Ranks.order_decides (h : e.Ranks) (contents : Contents) :
    Decides e.order contents.hits := by
  refine Decides.descBy (Decides.descBy (fun a ha b hb hab hba => ?_) _) _
  exact List.inj_on_of_nodup_map contents.unique ha hb (h.antisymm _ _ hab hba)

end SearchEngine

/-- `{"id": h["_id"], **h["_source"]}`, without the body. -/
structure ResultRow where
  id : Nat
  docId : Option Nat
  messageId : String
  date : String
  archivedAt : String
  fromAddr : String
  toAddrs : List String
  ccAddrs : List String
  subject : String
  hasAttachment : Bool
  attachmentNames : List String
  sizeBytes : Nat
  retentionClass : String
  deriving DecidableEq, Repr

def Hit.resultRow (h : Hit) : ResultRow where
  id := h.id
  docId := h.doc.docId
  messageId := h.doc.messageId
  date := h.doc.date
  archivedAt := h.doc.archivedAt
  fromAddr := h.doc.fromAddr
  toAddrs := h.doc.toAddrs
  ccAddrs := h.doc.ccAddrs
  subject := h.doc.subject
  hasAttachment := h.doc.hasAttachment
  attachmentNames := h.doc.attachmentNames
  sizeBytes := h.doc.sizeBytes
  retentionClass := h.doc.retentionClass

structure SearchResult where
  total : Nat
  totalEstimated : Bool
  results : List ResultRow
  nextSearchAfter : Option (List Scalar)
  deriving DecidableEq, Repr

variable (e : SearchEngine) (lower : String → String)

/-- `SearchService.advanced(filters, size, restrict_addrs, search_after)`. -/
def advanced (contents : Contents) (filters : Filters) (size : Int)
    (restrictAddrs : Option (List String)) (searchAfter : Option (List Scalar)) :
    Except PyError SearchResult := do
  let body : SearchBody := {
    size := size
    query := advancedQuery lower filters restrictAddrs
    -- an empty cursor is no cursor
    searchAfter := searchAfter.filter (· ≠ []) }
  let hits ← e.search contents body
  return {
    total := hits.total
    totalEstimated := hits.atLeast
    results := hits.rows.map Hit.resultRow
    nextSearchAfter := hits.rows.getLast?.map fun h =>
      [.int (e.dateValue h.doc), .int (SearchEngine.docIdValue h.doc)] }

/-- The document has an address of the scope in from, to or cc. -/
def Hit.involves (scope : List String) (h : Hit) : Bool :=
  (h.doc.fromAddr :: (h.doc.toAddrs ++ h.doc.ccAddrs)).any fun a => a ∈ scope

/-- Two contents hold the same documents within a scope. -/
def Contents.Agree (scope : List String) (contents contents' : Contents) : Prop :=
  (contents.hits.filter (Hit.involves scope)).Perm (contents'.hits.filter (Hit.involves scope))

def Contents.empty : Contents := ⟨[], List.nodup_nil⟩

/-! ## The account in a token -/

/-- The claims of a session token. -/
structure Claims where
  sub : String
  name : String
  role : String
  admin : Bool
  email : Option String
  auditedEmails : List String
  deriving DecidableEq, Repr

/-- The payload of `create_token(user)`; `audited_emails or []`. -/
def createToken (user : AuthenticatedUser) : Claims where
  sub := user.username
  name := user.displayName
  role := user.role
  admin := user.isAdmin
  email := user.email
  auditedEmails := user.auditedEmails.getD []

/-- The account `decode_token` makes of valid claims. -/
def decodeToken (claims : Claims) : AuthenticatedUser where
  username := claims.sub
  displayName := claims.name
  role := claims.role
  isAdmin := claims.admin
  email := claims.email
  auditedEmails := some claims.auditedEmails

/-- A token carries the perimeter of its account: no restriction stays no
restriction, an empty perimeter stays empty. -/
theorem scopeAddresses_decodeToken (user : AuthenticatedUser) :
    scopeAddresses lower (decodeToken (createToken user)) = scopeAddresses lower user := rfl

/-! ## A search does not see beyond the perimeter -/

variable {e lower}

/-- What a restricted query selects lies within the perimeter. -/
theorem involves_of_selects {scope : List String} (hscope : scope.map lower = scope)
    {filters : Filters} {h : Hit}
    (hsel : (advancedQuery lower filters (some scope)).selects e.toEngine h.doc = true) :
    h.involves scope = true := by
  have hwithin := ((selects_searchQuery _ scope h.doc).mp hsel).2
  obtain ⟨a, ha, hmem⟩ := (withinScope_iff scope h.doc).mp hwithin
  rw [hscope] at hmem
  exact List.any_eq_true.mpr ⟨a, ha, decide_eq_true hmem⟩

/-- A restricted query selects the same from two contents that agree on
the perimeter, in the same order. -/
theorem matching_eq (hranks : e.Ranks) {scope : List String} (hscope : scope.map lower = scope)
    {contents contents' : Contents} (filters : Filters) (hsame : contents.Agree scope contents') :
    e.matching contents (advancedQuery lower filters (some scope))
      = e.matching contents' (advancedQuery lower filters (some scope)) := by
  have hwithin : ∀ hits : List Hit,
      hits.filter (fun h => (advancedQuery lower filters (some scope)).selects e.toEngine h.doc)
        = (hits.filter (Hit.involves scope)).filter
          fun h => (advancedQuery lower filters (some scope)).selects e.toEngine h.doc := by
    intro hits
    rw [List.filter_filter]
    refine List.filter_congr fun h _ => ?_
    rw [Bool.eq_iff_iff, Bool.and_eq_true]
    exact ⟨fun hsel => ⟨hsel, involves_of_selects hscope hsel⟩, And.left⟩
  rw [SearchEngine.matching, SearchEngine.matching, hwithin contents.hits, hwithin contents'.hits]
  refine ranked_eq_of_perm hranks.order_total ?_ (hsame.filter _)
  exact (hranks.order_decides contents).subset fun h hh =>
    List.mem_of_mem_filter (List.mem_of_mem_filter hh)

/-- A search among no documents. -/
theorem advanced_nil {filters : Filters} {size : Int} {restrictAddrs : Option (List String)}
    {searchAfter : Option (List Scalar)} {result : SearchResult}
    (h : advanced e lower .empty filters size restrictAddrs searchAfter = .ok result) :
    result.total = 0 ∧ result.results = [] ∧ result.nextSearchAfter = none := by
  have hnone : ∀ query, e.matching .empty query = [] := fun _ => rfl
  simp only [advanced, SearchEngine.search, hnone, bind_eq_ok, pure_eq_ok] at h
  obtain ⟨hits, hhits, rfl⟩ := h
  split at hhits
  · cases hhits
  · cases hhits
    cases searchAfter.filter (· ≠ []) with
    | none => simp
    | some cursor => simp

/-- **A search shows nothing of what lies outside the perimeter**: for
every account that is not an administrator's and every request, two
contents that hold the same documents within its perimeter give the same
answer, and an empty perimeter gives no result. -/
theorem search_confined (hranks : e.Ranks) (hlower : ∀ s, lower (lower s) = lower s)
    {user : AuthenticatedUser} (huser : user.isAdmin = false) :
    ∃ scope, scopeAddresses lower user = some scope
      ∧ (∀ (filters : Filters) (size : Int) (searchAfter : Option (List Scalar))
          (contents contents' : Contents), contents.Agree scope contents' →
          advanced e lower contents filters size (scopeAddresses lower user) searchAfter
            = advanced e lower contents' filters size (scopeAddresses lower user) searchAfter)
      ∧ (scope = [] → ∀ (filters : Filters) (size : Int) (searchAfter : Option (List Scalar))
          (contents : Contents) (result : SearchResult),
          advanced e lower contents filters size (scopeAddresses lower user) searchAfter = .ok result →
            result.total = 0 ∧ result.results = [] ∧ result.nextSearchAfter = none) := by
  obtain ⟨scope, hscope⟩ : ∃ scope, scopeAddresses lower user = some scope := by
    simp only [scopeAddresses, huser, Bool.false_eq_true, if_false]
    split
    · exact ⟨_, rfl⟩
    · split
      · exact ⟨_, rfl⟩
      · split <;> exact ⟨_, rfl⟩
  have hmap := map_lower_scope hlower hscope
  have hsame : ∀ (filters : Filters) (size : Int) (searchAfter : Option (List Scalar))
      (contents contents' : Contents), contents.Agree scope contents' →
      advanced e lower contents filters size (some scope) searchAfter
        = advanced e lower contents' filters size (some scope) searchAfter := by
    intro filters size searchAfter contents contents' hperm
    simp only [advanced, SearchEngine.search, matching_eq hranks hmap filters hperm]
  refine ⟨scope, hscope, ?_, ?_⟩
  · rw [hscope]
    exact hsame
  · rintro rfl filters size searchAfter contents result hresult
    -- an index without documents would give the same answer
    have hagree : contents.Agree [] .empty := by
      simp [Contents.Agree, Contents.empty, Hit.involves]
    rw [hscope, hsame filters size searchAfter contents .empty hagree] at hresult
    exact advanced_nil hresult

/-! ### A search of Bob's -/

/-- An engine that reads no dates and refuses nothing. -/
def sampleSearch : SearchEngine where
  toEngine := sampleEngine
  dateValue := fun _ => 0
  tieBreak := fun k k' => decide (toLex k ≤ toLex k')
  cursorValues := fun _ => (0, 0)
  refuses := fun _ => none

theorem sampleSearch_ranks : sampleSearch.Ranks where
  total := by
    intro k k'
    simpa [sampleSearch] using le_total (toLex k) (toLex k')
  trans := by
    intro k k' k'' h h'
    simp only [sampleSearch, decide_eq_true_eq] at h h' ⊢
    exact h.trans h'
  antisymm := by
    intro k k' h h'
    simp only [sampleSearch, decide_eq_true_eq] at h h'
    exact toLex.injective (le_antisymm h h')

/-- The document of a mail with one sender and no recipient. -/
def sampleHit (id : Nat) (fromAddr : String) : Hit where
  index := "messages-2026.03.14"
  id := id
  doc := {
    docId := some id
    messageId := ""
    date := "2026-03-14T15:09:26+00:00"
    archivedAt := "2026-03-14T15:09:26+00:00"
    fromAddr := fromAddr
    toAddrs := []
    ccAddrs := []
    subject := ""
    body := ""
    hasAttachment := false
    attachmentNames := []
    sizeBytes := 0
    retentionClass := "default" }

def noFilters : Filters := ⟨none, none, none, none, none, none, none, none, none, none⟩

/-- Bob finds his mail, and does not see whether there are others. -/
theorem search_confined_bob :
    advanced sampleSearch String.toLower
        ⟨[sampleHit 2 "eve@x.fr", sampleHit 1 "bob@x.fr"], by decide⟩ noFilters 50
        (scopeAddresses String.toLower bob) none
      = advanced sampleSearch String.toLower ⟨[sampleHit 1 "bob@x.fr"], by decide⟩ noFilters 50
        (scopeAddresses String.toLower bob) none
      ∧ (advanced sampleSearch String.toLower ⟨[sampleHit 1 "bob@x.fr"], by decide⟩ noFilters 50
        (scopeAddresses String.toLower bob) none).map (fun result => result.results.map (·.id))
        = .ok [1] := by
  obtain ⟨scope, hscope, hsame, -⟩ :=
    @search_confined sampleSearch String.toLower sampleSearch_ranks toLower_toLower bob rfl
  refine ⟨hsame noFilters 50 none _ _ ?_, by decide +kernel⟩
  have hbob : scopeAddresses String.toLower bob = some ["bob@x.fr"] := by decide +kernel
  obtain rfl : ["bob@x.fr"] = scope := Option.some.inj (hbob.symm.trans hscope)
  have hfilter : [sampleHit 2 "eve@x.fr", sampleHit 1 "bob@x.fr"].filter
      (Hit.involves ["bob@x.fr"]) = [sampleHit 1 "bob@x.fr"] := by decide +kernel
  rw [Contents.Agree, hfilter]
  decide +kernel

end MailArchiver

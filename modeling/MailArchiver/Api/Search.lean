import MailArchiver.Lib.BoolQuery
import MailArchiver.ArchiverWorker.Indexer

/-!
# Api — Search

`api/search.py`: the query `SearchService` sends to OpenSearch and the
documents it selects. Exact-value clauses are evaluated on the stored
values of a document; the text clauses and the comparison of dates are
OpenSearch's own (`Engine`).
-/

namespace MailArchiver

/-- A JSON value of a `term` or `range` clause. -/
inductive Scalar where
  | str (s : String)
  | bool (b : Bool)
  | int (n : Int)
  deriving DecidableEq, Repr

/-- The leaf clauses of the queries. -/
inductive Clause where
  | matchAll
  | multiMatch (query : String) (fields : List String)
  | matchPhrase (field query : String)
  | term (field : String) (value : Scalar)
  | terms (field : String) (values : List String)
  | range (field : String) (gte lte : Option Scalar)
  deriving DecidableEq, Repr

/-- What OpenSearch computes from analysed text and from dates. -/
structure Engine where
  multiMatch : String → List String → IndexDoc → Bool
  matchPhrase : String → String → IndexDoc → Bool
  /-- `range` on the field `date`. -/
  dateRange : Option Scalar → Option Scalar → IndexDoc → Bool

/-- The exact values a document holds in a field. -/
def IndexDoc.values (doc : IndexDoc) (field : String) : List Scalar :=
  if field = "from_addr" then [.str doc.fromAddr]
  else if field = "to_addrs" then doc.toAddrs.map .str
  else if field = "cc_addrs" then doc.ccAddrs.map .str
  else if field = "message_id" then [.str doc.messageId]
  else if field = "retention_class" then [.str doc.retentionClass]
  else if field = "has_attachment" then [.bool doc.hasAttachment]
  else if field = "size_bytes" then [.int doc.sizeBytes]
  else []

/-- A value lies within the bounds that are given. -/
def Scalar.within (gte lte : Option Scalar) : Scalar → Bool
  | .int n =>
      (match gte with
        | some (.int lo) => decide (lo ≤ n)
        | _ => true)
      && (match lte with
        | some (.int hi) => decide (n ≤ hi)
        | _ => true)
  | _ => false

variable (e : Engine)

/-- A keyword field has no normalizer: a clause on it matches exact
values only. -/
def Clause.holds : Clause → IndexDoc → Bool
  | .matchAll, _ => true
  | .multiMatch q fields, doc => e.multiMatch q fields doc
  | .matchPhrase field q, doc => e.matchPhrase field q doc
  | .term field v, doc => v ∈ doc.values field
  | .terms field vs, doc => vs.any fun v => .str v ∈ doc.values field
  | .range field gte lte, doc =>
      if field = "date" then e.dateRange gte lte doc
      else (doc.values field).any (·.within gte lte)

abbrev Query := BoolQuery Clause

/-- Whether the search returns a document for a query. -/
def Query.selects (q : Query) (doc : IndexDoc) : Bool :=
  BoolQuery.selects (Clause.holds e) doc q

variable (lower : String → String)

/-- `_restriction_filter(addrs)`. -/
def restrictionFilter (addrs : List String) : List Query :=
  if addrs = [] then [.bool [] [] [] [.clause .matchAll] 0]
  else
    let low := addrs.map lower
    [.bool [] []
      [.clause (.terms "from_addr" low), .clause (.terms "to_addrs" low),
        .clause (.terms "cc_addrs" low)] [] 1]

/-- The filters of a search request, absent ones left out. -/
structure Filters where
  text : Option String
  from_ : Option String
  to_ : Option String
  participant : Option String
  subject : Option String
  dateFrom : Option String
  dateTo : Option String
  hasAttachment : Option Bool
  sizeMin : Option Int
  sizeMax : Option Int
  deriving DecidableEq, Repr

/-- A string filter counts when it is present and not empty. -/
def given (v : Option String) : Option String := v.filter (· ≠ "")

/-- A number filter counts when it is present and not zero. -/
def givenInt (v : Option Int) : Option Int := v.filter (· ≠ 0)

/-- A `range` clause, when one of its bounds is given. -/
def rangeClause (field : String) (gte lte : Option Scalar) : List Query :=
  if gte = none ∧ lte = none then [] else [.clause (.range field gte lte)]

/-- The `must` list `SearchService.advanced` builds. -/
def advancedMust (f : Filters) : List Query :=
  (given f.text).toList.map (fun q => .clause (.multiMatch q ["subject", "body"]))
    ++ (given f.from_).toList.map (fun v => .clause (.term "from_addr" (.str v)))
    ++ (given f.to_).toList.map (fun v => .clause (.term "to_addrs" (.str v)))
    ++ (given f.participant).toList.map (fun p =>
        .bool [] []
          [.clause (.term "from_addr" (.str p)), .clause (.term "to_addrs" (.str p)),
            .clause (.term "cc_addrs" (.str p))] [] 1)
    ++ (given f.subject).toList.map (fun q => .clause (.matchPhrase "subject" q))
    ++ f.hasAttachment.toList.map (fun b => .clause (.term "has_attachment" (.bool b)))
    ++ rangeClause "date" ((given f.dateFrom).map .str) ((given f.dateTo).map .str)
    ++ rangeClause "size_bytes" ((givenInt f.sizeMin).map .int) ((givenInt f.sizeMax).map .int)

/-- The query of `_search`: `must`, behind the perimeter unless there is
none. -/
def searchQuery (must : List Query) (restrictAddrs : Option (List String)) : Query :=
  match restrictAddrs with
  | none => .bool must [] [] [] 0
  | some addrs => .bool must (restrictionFilter lower addrs) [] [] 0

/-- The query of `SearchService.advanced`. -/
def advancedQuery (f : Filters) (restrictAddrs : Option (List String)) : Query :=
  searchQuery lower
    (if (advancedMust f).isEmpty then [.clause .matchAll] else advancedMust f) restrictAddrs

/-! ## The perimeter of a search -/

/-- A document passes the restriction of a perimeter. -/
def withinScope (addrs : List String) (doc : IndexDoc) : Bool :=
  (restrictionFilter lower addrs).all fun q => q.selects e doc

variable {e lower}

theorem holds_terms_from (vs : List String) (doc : IndexDoc) :
    Clause.holds e (.terms "from_addr" vs) doc = true ↔ doc.fromAddr ∈ vs := by
  simp [Clause.holds, IndexDoc.values]

theorem holds_terms_to (vs : List String) (doc : IndexDoc) :
    Clause.holds e (.terms "to_addrs" vs) doc = true ↔ ∃ a ∈ doc.toAddrs, a ∈ vs := by
  simp [Clause.holds, IndexDoc.values, and_comm]

theorem holds_terms_cc (vs : List String) (doc : IndexDoc) :
    Clause.holds e (.terms "cc_addrs" vs) doc = true ↔ ∃ a ∈ doc.ccAddrs, a ∈ vs := by
  simp [Clause.holds, IndexDoc.values, and_comm]

/-- The restriction selects the documents with a stored address that is
the lower-casing of one in the perimeter; an empty perimeter selects
nothing. -/
theorem withinScope_iff (addrs : List String) (doc : IndexDoc) :
    withinScope e lower addrs doc = true ↔
      ∃ a ∈ doc.fromAddr :: (doc.toAddrs ++ doc.ccAddrs), a ∈ addrs.map lower := by
  unfold withinScope restrictionFilter
  by_cases h : addrs = []
  · simp [h, Query.selects, BoolQuery.selects_noneOf, Clause.holds]
  · simp only [h, if_false, List.all_cons, List.all_nil, Bool.and_true, Query.selects,
      BoolQuery.selects_anyOf, List.mem_cons, List.not_mem_nil, or_false,
      exists_eq_left, BoolQuery.selects_clause, holds_terms_from, holds_terms_to, holds_terms_cc,
      List.mem_append, or_and_right, exists_or]

/-- A restricted search returns what the filters select inside the
perimeter. -/
theorem selects_searchQuery (must : List Query) (addrs : List String) (doc : IndexDoc) :
    (searchQuery lower must (some addrs)).selects e doc = true ↔
      (∀ q ∈ must, q.selects e doc = true) ∧ withinScope e lower addrs doc = true := by
  simp [searchQuery, Query.selects, BoolQuery.selects_bool, withinScope]

end MailArchiver

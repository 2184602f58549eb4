import MailArchiver.FetchWorker.Scan
import MailArchiver.Lib.Transition

/-!
# Api — FetchSources

The sources of collection over their life: `FetchSourceRepo` of
`api/fetch_sources.py`, the routes that use it, and the fetch worker, all
at once on one table. A scan reads the sources that are due in one
transaction and records each of them in one of its own, so an
administrator can create, delete or run sources in between; the worker
can also stop anywhere and start again.
-/

namespace MailArchiver

open Transition

/-! ## `api/fetch_sources.py` -/

/-- `CreateFetchSourceRequest`. -/
structure CreateFetchSourceRequest where
  name : Option String
  protocol : String
  host : String
  port : Int
  username : String
  password : String
  useSsl : Bool
  folder : Option String
  intervalMinutes : Int
  deleteAfter : Bool
  deriving DecidableEq, Repr

namespace CreateFetchSourceRequest

/-- What a collection is to use; `or` gives the name and the folder. -/
def src (req : CreateFetchSourceRequest) : SrcDict where
  protocol := req.protocol
  host := req.host
  port := req.port
  username := req.username
  useSsl := req.useSsl
  folder := (req.folder.filter (· ≠ "")).getD "INBOX"
  deleteAfter := req.deleteAfter
  name := (req.name.filter (· ≠ "")).getD (req.protocol ++ "://" ++ req.username)

/-- The row, under the password sealed. -/
def row (req : CreateFetchSourceRequest) (sid : Nat) (passwordEnc : String) : FetchSource where
  id := sid
  name := req.src.name
  protocol := req.src.protocol
  host := req.src.host
  port := req.src.port
  username := req.src.username
  passwordEnc := passwordEnc
  useSsl := req.src.useSsl
  folder := req.src.folder
  intervalMinutes := req.intervalMinutes
  deleteAfter := req.src.deleteAfter
  active := true
  lastRun := none
  lastStatus := none
  lastCount := 0

/-- An entry for the source, as it was entered. -/
def due (req : CreateFetchSourceRequest) (sid : Nat) : DueSource where
  sid := sid
  src := req.src
  password := req.password

end CreateFetchSourceRequest

/-- The table `fetch_sources` and the sequence of its ids. -/
structure SourceStore where
  table : FetchTable
  next : Nat
  below : ∀ s ∈ table.rows, s.id < next

namespace SourceStore

def empty : SourceStore where
  table := ⟨[], List.nodup_nil⟩
  next := 1
  below := by simp

def insert (st : SourceStore) (req : CreateFetchSourceRequest) (passwordEnc : String) :
    SourceStore where
  table := {
    rows := st.table.rows ++ [req.row st.next passwordEnc]
    unique := Table.nodup_insert st.table.unique st.below rfl }
  next := st.next + 1
  below := Table.fresh_insert st.below rfl

def remove (st : SourceStore) (sid : Nat) : SourceStore where
  table := {
    rows := st.table.rows.filter (·.id ≠ sid)
    unique := Table.nodup_filter st.table.unique _ }
  next := st.next
  below := fun s hs => st.below s (List.mem_of_mem_filter hs)

/-- `update_status`, which the scan repeats as its last transaction. The
instant it stores and its commit are one atomic step. -/
def recordRun (st : SourceStore) (sid : Nat) (clock : Int) (result : Except String Nat) :
    SourceStore where
  table := st.table.recordRun sid clock (runCount result) (runStatus result)
  next := st.next
  below := by
    refine Table.fresh_update (fun s => ?_) st.below
    split
    · rfl
    · rfl

end SourceStore

variable (P : Primitives)

/-- `FetchSourceRepo.create(data)`. -/
def createFetchSource (draw : Draw) (st : SourceStore) (req : CreateFetchSourceRequest) :
    Except PyError SourceStore :=
  if req.protocol ≠ "imap" ∧ req.protocol ≠ "pop3" then
    .error (.valueError "protocole invalide (imap ou pop3)")
  else if req.host = "" ∨ req.username = "" ∨ req.password = "" then
    .error (.valueError "hôte, identifiant et mot de passe requis")
  else (encryptSecret P draw req.password).map (st.insert req)

/-- `FetchSourceRepo.delete(source_id)`. -/
def deleteFetchSource (st : SourceStore) (sid : Nat) : Except PyError SourceStore :=
  match st.table.get sid with
  | none => .error (.keyError "source introuvable")
  | some _ => .ok (st.remove sid)

/-- `FetchSourceRepo.get_with_password(source_id)`. -/
def getWithPassword (st : SourceStore) (sid : Nat) : Except PyError (Option DueSource) :=
  match st.table.get sid with
  | none => .ok none
  | some s => (decryptSecret P s.passwordEnc).map fun password => some ⟨s.id, s.dict, password⟩

/-- What `run_fetch_source` records: how the collection went, and after it
an error where the audit of a good one failed. -/
def runResults (result : Except String Nat) (audit : Option String) : List (Except String Nat) :=
  match result, audit with
  | .ok count, some exc => [.ok count, .error exc]
  | result, _ => [result]

/-! ## The worker and the API on one table -/

/-- A collection that was recorded: by a scan that began at `start`, or at
an administrator's request. -/
structure RecordedRun where
  due : DueSource
  automatic : Bool
  start : Int
  done : Int
  deriving DecidableEq, Repr

/-- The worker's `now` and the entries of `due` it has not come to, the
collection it has not recorded, and the runs of the API between their
reading and their recording. The services share one clock. -/
structure Collector where
  store : SourceStore
  clock : Int
  scanNow : Int
  scanning : List DueSource
  unrecorded : Option (DueSource × Except String Nat)
  runs : List DueSource
  /-- Each source that was ever created, as it was entered. -/
  created : List (Nat × CreateFetchSourceRequest)
  log : List RecordedRun

inductive CollectorEvent where
  | tick (elapsed : Nat)
  | create (draw : Draw) (req : CreateFetchSourceRequest)
  | delete (sid : Nat)
  | beginRun (sid : Nat)
  /-- A run ends, with the exception of its audit, if any. -/
  | endRun (i : Nat) (result : Except String Nat) (audit : Option String)
  | dropRun (i : Nat)
  /-- The first loop of `_scan`; the scheduler starts none while one goes on. -/
  | beginScan
  /-- `run_and_publish` for the next entry, and the transaction after it. -/
  | collect (result : Except String Nat)
  | record
  | restartWorker

namespace Collector

def init : Collector where
  store := .empty
  clock := 0
  scanNow := 0
  scanning := []
  unrecorded := none
  runs := []
  created := []
  log := []

def step (s : Collector) : CollectorEvent → Option Collector
  | .tick elapsed => some { s with clock := s.clock + elapsed }
  | .create draw req =>
      match createFetchSource P draw s.store req with
      | .ok store => some { s with store := store, created := s.created ++ [(s.store.next, req)] }
      | .error _ => some s
  | .delete sid =>
      match deleteFetchSource s.store sid with
      | .ok store => some { s with store := store }
      | .error _ => some s
  | .beginRun sid =>
      match getWithPassword P s.store sid with
      | .ok (some d) => some { s with runs := s.runs ++ [d] }
      | .ok none => some s
      | .error _ => some s
  | .endRun i result audit =>
      match s.runs[i]? with
      | none => none
      | some d => some { s with
          store := (runResults result audit).foldl (fun st r => st.recordRun d.sid s.clock r) s.store
          runs := s.runs.eraseIdx i
          log := s.log ++ [⟨d, false, s.clock, s.clock⟩] }
  | .dropRun i => some { s with runs := s.runs.eraseIdx i }
  | .beginScan =>
      if s.scanning = [] ∧ s.unrecorded = none then
        match dueSources P s.clock (s.store.table.rows.filter (·.active)) with
        | .ok due => some { s with scanNow := s.clock, scanning := due }
        | .error _ => some s
      else none
  | .collect result =>
      match s.unrecorded, s.scanning with
      | none, d :: due => some { s with scanning := due, unrecorded := some (d, result) }
      | _, _ => none
  | .record =>
      match s.unrecorded with
      | none => none
      | some (d, result) => some { s with
          store := s.store.recordRun d.sid s.clock result
          unrecorded := none
          log := s.log ++ [⟨d, true, s.scanNow, s.clock⟩] }
  | .restartWorker => some { s with scanning := [], unrecorded := none }

/-- The entries the worker has in hand. -/
def inHand (s : Collector) : List DueSource := (s.unrecorded.map (·.1)).toList ++ s.scanning

/-- Every entry that is, was or will be collected from. -/
def entries (s : Collector) : List DueSource := s.inHand ++ s.runs ++ s.log.map (·.due)

/-- The collections the worker recorded of a source. -/
def automatic (s : Collector) (sid : Nat) : List RecordedRun :=
  s.log.filter fun c => c.automatic && decide (c.due.sid = sid)

/-- What an administrator can rely on. -/
structure Faithful (s : Collector) : Prop where
  /-- Whoever collects uses the account, the options and the password that
  were entered. -/
  asEntered : ∀ d ∈ s.entries, ∃ req, (d.sid, req) ∈ s.created ∧ d = req.due d.sid
  /-- A scan that begins now has an entry for every source that is due. -/
  complete : ∃ due, dueSources P s.clock (s.store.table.rows.filter (·.active)) = .ok due
    ∧ due.map (·.sid) = (s.store.table.dueRows s.clock).map (·.id)
  /-- The worker lets the interval pass between what it recorded of a
  source and the scan that collects from it again. -/
  spaced : ∀ sid req, (sid, req) ∈ s.created → (s.automatic sid).Pairwise fun earlier later =>
    earlier.done + req.intervalMinutes * 60 * 1000000 ≤ later.start

end Collector

variable {P}

/-! ## The rows -/

/-- The row is what was entered, and its password decrypts. -/
structure FetchSource.From (P : Primitives) (row : FetchSource) (req : CreateFetchSourceRequest) :
    Prop where
  dict : row.dict = req.src
  interval : row.intervalMinutes = req.intervalMinutes
  active : row.active = true
  password : decryptSecret P row.passwordEnc = .ok req.password

/-- A creation seals the password of its request. -/
theorem createFetchSource_ok (hlaws : SealingLaws P) {draw : Draw} {st st' : SourceStore}
    {req : CreateFetchSourceRequest} (h : createFetchSource P draw st req = .ok st') :
    ∃ token, st' = st.insert req token ∧ (req.row st.next token).From P req := by
  unfold createFetchSource at h
  split at h
  · cases h
  · split at h
    · cases h
    · obtain ⟨token, htoken, rfl⟩ := map_eq_ok.mp h
      exact ⟨token, rfl, rfl, rfl, rfl, decryptSecret_encryptSecret hlaws htoken⟩

theorem deleteFetchSource_ok {st st' : SourceStore} {sid : Nat}
    (h : deleteFetchSource st sid = .ok st') : st' = st.remove sid := by
  unfold deleteFetchSource at h
  split at h
  · cases h
  · exact (Except.ok.inj h).symm

/-- What recording a run of `sid` leaves of the other rows, and of its own. -/
structure Records (P : Primitives) (st st' : SourceStore) (sid : Nat) (clock : Int) : Prop where
  next : st'.next = st.next
  rows : ∀ row' ∈ st'.table.rows, ∃ row ∈ st.table.rows, row'.id = row.id
    ∧ (∀ req, row.From P req → row'.From P req)
    ∧ row'.lastRun = if row.id = sid then some clock else row.lastRun

theorem records_recordRun (st : SourceStore) (sid : Nat) (clock : Int) (r : Except String Nat) :
    Records P st (st.recordRun sid clock r) sid clock where
  next := rfl
  rows := by
    intro row' hrow'
    obtain ⟨row, hrow, rfl⟩ := List.mem_map.mp hrow'
    refine ⟨row, hrow, ?_⟩
    split
    · exact ⟨rfl, fun req h => ⟨h.dict, h.interval, h.active, h.password⟩, rfl⟩
    · exact ⟨rfl, fun req h => h, rfl⟩

theorem Records.trans {st st' st'' : SourceStore} {sid : Nat} {clock : Int}
    (h : Records P st st' sid clock) (h' : Records P st' st'' sid clock) :
    Records P st st'' sid clock where
  next := h'.next.trans h.next
  rows := by
    intro row'' hrow''
    obtain ⟨row', hrow', hid', hfrom', hlast'⟩ := h'.rows row'' hrow''
    obtain ⟨row, hrow, hid, hfrom, hlast⟩ := h.rows row' hrow'
    refine ⟨row, hrow, hid'.trans hid, fun req hreq => hfrom' req (hfrom req hreq), ?_⟩
    rw [hlast', hid, hlast]
    split
    · rfl
    · rfl

/-- Whatever `run_fetch_source` records. -/
theorem records_runResults (st : SourceStore) (sid : Nat) (clock : Int) (result : Except String Nat)
    (audit : Option String) : Records P st
      ((runResults result audit).foldl (fun st r => st.recordRun sid clock r) st) sid clock := by
  cases result with
  | error exc => exact records_recordRun ..
  | ok count =>
      cases audit with
      | none => exact records_recordRun ..
      | some exc => exact (records_recordRun ..).trans (records_recordRun ..)

/-- The first loop lists its sources in their order. -/
theorem dueSources_sids {now : Int} {sources : List FetchSource} {due : List DueSource}
    (h : dueSources P now sources = .ok due) :
    due.map (·.sid) = (sources.filter (·.isDue now)).map (·.id) := by
  induction sources generalizing due with
  | nil =>
      obtain rfl := Except.ok.inj h
      rfl
  | cons s sources ih =>
      by_cases hdue : s.isDue now = true
      · simp only [dueSources, if_pos hdue, bind_eq_ok, pure_eq_ok] at h
        obtain ⟨password, -, rest, hrest, rfl⟩ := h
        rw [List.filter_cons_of_pos hdue, List.map_cons, List.map_cons, ih hrest]
      · rw [dueSources, if_neg hdue] at h
        rw [List.filter_cons_of_neg hdue]
        exact ih h

/-- Each entry comes from a source that is due. -/
theorem exists_of_mem_dueSources {now : Int} {sources : List FetchSource} {due : List DueSource}
    (h : dueSources P now sources = .ok due) {d : DueSource} (hd : d ∈ due) :
    ∃ s ∈ sources, s.isDue now = true ∧ d.sid = s.id ∧ d.src = s.dict
      ∧ decryptSecret P s.passwordEnc = .ok d.password := by
  induction sources generalizing due with
  | nil =>
      obtain rfl := Except.ok.inj h
      cases hd
  | cons s sources ih =>
      by_cases hdue : s.isDue now = true
      · simp only [dueSources, if_pos hdue, bind_eq_ok, pure_eq_ok] at h
        obtain ⟨password, hpassword, rest, hrest, rfl⟩ := h
        rcases List.mem_cons.mp hd with rfl | hd
        · exact ⟨s, List.mem_cons_self, hdue, rfl, rfl, hpassword⟩
        · obtain ⟨s', hs', hfacts⟩ := ih hrest hd
          exact ⟨s', List.mem_cons_of_mem _ hs', hfacts⟩
      · rw [dueSources, if_neg hdue] at h
        obtain ⟨s', hs', hfacts⟩ := ih h hd
        exact ⟨s', List.mem_cons_of_mem _ hs', hfacts⟩

/-! ## The invariant -/

namespace Collector

/-- The interval entered for the source is over at `start`. -/
def Apart (s : Collector) (c : RecordedRun) (start : Int) : Prop :=
  ∃ req, (c.due.sid, req) ∈ s.created ∧ c.done + req.intervalMinutes * 60 * 1000000 ≤ start

structure Invariant (P : Primitives) (s : Collector) : Prop where
  rows : ∀ row ∈ s.store.table.rows, ∃ req, (row.id, req) ∈ s.created ∧ row.From P req
  ids : ∀ c ∈ s.created, c.1 < s.store.next
  once : (s.created.map (·.1)).Nodup
  asEntered : ∀ d ∈ s.entries, ∃ req, (d.sid, req) ∈ s.created ∧ d = req.due d.sid
  distinct : (s.inHand.map (·.sid)).Nodup
  past : ∀ c ∈ s.log, c.done ≤ s.clock
  /-- What was recorded of a source is in its row, or was overtaken there. -/
  recorded : ∀ c ∈ s.log, ∀ row ∈ s.store.table.rows, row.id = c.due.sid →
    ∃ last, row.lastRun = some last ∧ c.done ≤ last
  inHand : ∀ c ∈ s.log, ∀ d ∈ s.inHand, c.automatic = true → d.sid = c.due.sid →
    s.Apart c s.scanNow
  log : s.log.Pairwise fun c c' => c.automatic = true → c'.automatic = true →
    c'.due.sid = c.due.sid → s.Apart c c'.start

theorem invariant_init : Invariant P init where
  rows := by simp [init, SourceStore.empty]
  ids := by simp [init]
  once := List.nodup_nil
  asEntered := by simp [init, entries, Collector.inHand]
  distinct := List.nodup_nil
  past := by simp [init]
  recorded := by simp [init]
  inHand := by simp [init]
  log := List.Pairwise.nil

namespace Invariant

variable {s : Collector}

/-- One more source. -/
theorem create (h : Invariant P s) (hlaws : SealingLaws P) {draw : Draw} {store : SourceStore}
    {req : CreateFetchSourceRequest} (hcreate : createFetchSource P draw s.store req = .ok store) :
    Invariant P { s with
      store := store, created := s.created ++ [(s.store.next, req)] } := by
  obtain ⟨token, rfl, hfrom⟩ := createFetchSource_ok hlaws hcreate
  have hgrow : ∀ {c : RecordedRun} {start : Int}, s.Apart c start →
      ∃ req', (c.due.sid, req') ∈ s.created ++ [(s.store.next, req)]
        ∧ c.done + req'.intervalMinutes * 60 * 1000000 ≤ start := fun ⟨req', hreq', hle⟩ =>
    ⟨req', List.mem_append_left _ hreq', hle⟩
  constructor
  case rows =>
    intro row hrow
    rcases List.mem_append.mp hrow with hrow | hrow
    · obtain ⟨req', hreq', hfrom'⟩ := h.rows row hrow
      exact ⟨req', List.mem_append_left _ hreq', hfrom'⟩
    · obtain rfl := List.mem_singleton.mp hrow
      exact ⟨req, List.mem_append_right _ List.mem_cons_self, hfrom⟩
  case ids => exact Table.fresh_insert h.ids rfl
  case once => exact Table.nodup_insert h.once h.ids rfl
  case asEntered =>
    intro d hd
    obtain ⟨req', hreq', heq⟩ := h.asEntered d hd
    exact ⟨req', List.mem_append_left _ hreq', heq⟩
  case distinct => exact h.distinct
  case past => exact h.past
  case recorded =>
    intro c hc row hrow hid
    rcases List.mem_append.mp hrow with hrow | hrow
    · exact h.recorded c hc row hrow hid
    · -- no collection of a source that was not there
      obtain rfl := List.mem_singleton.mp hrow
      obtain ⟨req', hreq', -⟩ := h.asEntered c.due
        (List.mem_append_right _ (List.mem_map.mpr ⟨c, hc, rfl⟩))
      have hlt := h.ids _ hreq'
      rw [← hid] at hlt
      exact absurd hlt (Nat.lt_irrefl _)
  case inHand => exact fun c hc d hd hauto hsid => hgrow (h.inHand c hc d hd hauto hsid)
  case log => exact h.log.imp fun hapart hauto hauto' hsid => hgrow (hapart hauto hauto' hsid)

theorem delete (h : Invariant P s) (sid : Nat) :
    Invariant P { s with store := s.store.remove sid } :=
  { h with
    rows := fun row hrow => h.rows row (List.mem_of_mem_filter hrow)
    recorded := fun c hc row hrow => h.recorded c hc row (List.mem_of_mem_filter hrow) }

/-- Entries taken out of hand. -/
theorem drop (h : Invariant P s) {scanning runs : List DueSource}
    {unrecorded : Option (DueSource × Except String Nat)}
    (hhand : ((unrecorded.map (·.1)).toList ++ scanning).Sublist s.inHand)
    (hruns : runs ⊆ s.runs) :
    Invariant P { s with scanning := scanning, unrecorded := unrecorded, runs := runs } :=
  { h with
    asEntered := by
      intro d hd
      refine h.asEntered d ?_
      rcases List.mem_append.mp hd with hd | hd
      · rcases List.mem_append.mp hd with hd | hd
        · exact List.mem_append_left _ (List.mem_append_left _ (hhand.subset hd))
        · exact List.mem_append_left _ (List.mem_append_right _ (hruns hd))
      · exact List.mem_append_right _ hd
    distinct := h.distinct.sublist (hhand.map _)
    inHand := fun c hc d hd => h.inHand c hc d (hhand.subset hd) }

theorem tick (h : Invariant P s) (elapsed : Nat) :
    Invariant P { s with clock := s.clock + elapsed } :=
  { h with
    past := by
      intro c hc
      have hle := h.past c hc
      show c.done ≤ s.clock + elapsed
      omega }

/-- The entry of a row is the one entered. -/
theorem due_eq (h : Invariant P s) {row : FetchSource} (hrow : row ∈ s.store.table.rows)
    {d : DueSource} (hsid : d.sid = row.id) (hsrc : d.src = row.dict)
    (hpassword : decryptSecret P row.passwordEnc = .ok d.password) :
    ∃ req, (d.sid, req) ∈ s.created ∧ d = req.due d.sid := by
  obtain ⟨req, hreq, hfrom⟩ := h.rows row hrow
  refine ⟨req, hsid ▸ hreq, ?_⟩
  obtain ⟨sid, src, password⟩ := d
  obtain rfl : src = req.src := hsrc.trans hfrom.dict
  obtain rfl : password = req.password := Except.ok.inj (hpassword.symm.trans hfrom.password)
  rfl

theorem beginRun (h : Invariant P s) {sid : Nat} {d : DueSource}
    (hget : getWithPassword P s.store sid = .ok (some d)) :
    Invariant P { s with runs := s.runs ++ [d] } :=
  { h with
    asEntered := by
      intro d' hd'
      rcases List.mem_append.mp hd' with hd' | hd'
      · rcases List.mem_append.mp hd' with hd' | hd'
        · exact h.asEntered d' (List.mem_append_left _ (List.mem_append_left _ hd'))
        · rcases List.mem_append.mp hd' with hd' | hd'
          · exact h.asEntered d' (List.mem_append_left _ (List.mem_append_right _ hd'))
          · obtain rfl := List.mem_singleton.mp hd'
            unfold getWithPassword at hget
            split at hget
            · cases hget
            · rename_i row hrow
              obtain ⟨password, hpassword, heq⟩ := map_eq_ok.mp hget
              obtain rfl := Option.some.inj heq
              exact h.due_eq (List.mem_of_find?_eq_some hrow) rfl rfl hpassword
      · exact h.asEntered d' (List.mem_append_right _ hd') }

/-- A scan that begins: a source recorded before is due only once its
interval is over. -/
theorem beginScan (h : Invariant P s) (hidle : s.unrecorded = none) {due : List DueSource}
    (hdue : dueSources P s.clock (s.store.table.rows.filter (·.active)) = .ok due) :
    Invariant P { s with scanNow := s.clock, scanning := due } := by
  have hhand : ∀ d, d ∈ Collector.inHand { s with scanNow := s.clock, scanning := due } → d ∈ due := by
    intro d hd
    simpa [Collector.inHand, hidle] using hd
  refine { h with asEntered := ?_, distinct := ?_, inHand := ?_ }
  · intro d hd
    rcases List.mem_append.mp hd with hd | hd
    · rcases List.mem_append.mp hd with hd | hd
      · obtain ⟨row, hrow, -, hsid, hsrc, hpassword⟩ := exists_of_mem_dueSources hdue (hhand d hd)
        exact h.due_eq (List.mem_of_mem_filter hrow) hsid hsrc hpassword
      · exact h.asEntered d (List.mem_append_left _ (List.mem_append_right _ hd))
    · exact h.asEntered d (List.mem_append_right _ hd)
  · have hsids := dueSources_sids hdue
    simp only [Collector.inHand, hidle, Option.map_none, Option.toList_none, List.nil_append, hsids]
    exact Table.nodup_filter (Table.nodup_filter s.store.table.unique _) _
  · intro c hc d hd _ hsid
    obtain ⟨row, hrow, hisDue, hid, -, -⟩ := exists_of_mem_dueSources hdue (hhand d hd)
    have hmem := List.mem_of_mem_filter hrow
    have hrowid : row.id = c.due.sid := hid.symm.trans hsid
    obtain ⟨last, hlast, hle⟩ := h.recorded c hc row hmem hrowid
    obtain ⟨req, hreq, hfrom⟩ := h.rows row hmem
    refine ⟨req, hrowid ▸ hreq, ?_⟩
    rw [FetchSource.isDue, hlast, decide_eq_true_eq, hfrom.interval] at hisDue
    show _ ≤ s.clock
    omega

/-- A collection that is recorded. The worker has no other entry of the
source, and the ones it recorded before are far enough. -/
theorem record (h : Invariant P s) {store : SourceStore} {d : DueSource} {automatic : Bool}
    {start : Int} (hrec : Records P s.store store d.sid s.clock)
    (hd : ∃ req, (d.sid, req) ∈ s.created ∧ d = req.due d.sid)
    (hhand : automatic = true → ∀ d' ∈ s.inHand, d'.sid ≠ d.sid)
    (hlog : ∀ c ∈ s.log, c.automatic = true → automatic = true → d.sid = c.due.sid →
      s.Apart c start) :
    Invariant P { s with store := store, log := s.log ++ [⟨d, automatic, start, s.clock⟩] } := by
  refine { h with
    rows := ?_, ids := ?_, asEntered := ?_, past := ?_, recorded := ?_, inHand := ?_, log := ?_ }
  · intro row' hrow'
    obtain ⟨row, hrow, hid, hfrom, -⟩ := hrec.rows row' hrow'
    obtain ⟨req, hreq, hrowFrom⟩ := h.rows row hrow
    exact ⟨req, hid ▸ hreq, hfrom req hrowFrom⟩
  · intro c hc
    exact hrec.next ▸ h.ids c hc
  · intro d' hd'
    rcases List.mem_append.mp hd' with hd' | hd'
    · exact h.asEntered d' (List.mem_append_left _ hd')
    · obtain ⟨c, hc, rfl⟩ := List.mem_map.mp hd'
      rcases List.mem_append.mp hc with hc | hc
      · exact h.asEntered c.due (List.mem_append_right _ (List.mem_map.mpr ⟨c, hc, rfl⟩))
      · obtain rfl := List.mem_singleton.mp hc
        exact hd
  · intro c hc
    rcases List.mem_append.mp hc with hc | hc
    · exact h.past c hc
    · obtain rfl := List.mem_singleton.mp hc
      exact Int.le_refl _
  · intro c hc row' hrow' hsid
    obtain ⟨row, hrow, hid, -, hlast⟩ := hrec.rows row' hrow'
    rw [hid] at hsid
    rcases List.mem_append.mp hc with hc | hc
    · obtain ⟨last, hrowLast, hle⟩ := h.recorded c hc row hrow hsid
      split at hlast
      · exact ⟨s.clock, hlast, h.past c hc⟩
      · exact ⟨last, hlast.trans hrowLast, hle⟩
    · obtain rfl := List.mem_singleton.mp hc
      rw [if_pos hsid] at hlast
      exact ⟨s.clock, hlast, Int.le_refl _⟩
  · intro c hc d' hd' hauto hsid
    rcases List.mem_append.mp hc with hc | hc
    · exact h.inHand c hc d' hd' hauto hsid
    · obtain rfl := List.mem_singleton.mp hc
      exact absurd hsid (hhand hauto d' hd')
  · refine List.pairwise_append.mpr ⟨h.log, List.pairwise_singleton .., ?_⟩
    intro c hc c' hc' hauto hauto' hsid
    obtain rfl := List.mem_singleton.mp hc'
    exact hlog c hc hauto hauto' hsid

/-- What one event preserves. -/
theorem step (h : Invariant P s) (hlaws : SealingLaws P) {e : CollectorEvent} {s' : Collector}
    (hs : Collector.step P s e = some s') : Invariant P s' := by
  cases e with
  | tick elapsed =>
      obtain rfl := Option.some.inj hs
      exact h.tick elapsed
  | create draw req =>
      simp only [Collector.step] at hs
      split at hs
      · rename_i store hstore
        obtain rfl := Option.some.inj hs
        exact h.create hlaws hstore
      · exact Option.some.inj hs ▸ h
  | delete sid =>
      simp only [Collector.step] at hs
      split at hs
      · rename_i store hstore
        obtain rfl := Option.some.inj hs
        rw [deleteFetchSource_ok hstore]
        exact h.delete sid
      · exact Option.some.inj hs ▸ h
  | beginRun sid =>
      simp only [Collector.step] at hs
      split at hs
      · rename_i d hd
        obtain rfl := Option.some.inj hs
        exact h.beginRun hd
      · exact Option.some.inj hs ▸ h
      · exact Option.some.inj hs ▸ h
  | endRun i result audit =>
      simp only [Collector.step] at hs
      split at hs
      · cases hs
      · rename_i d hd
        obtain rfl := Option.some.inj hs
        have hentry := h.asEntered d (List.mem_append_left _
          (List.mem_append_right _ (List.mem_of_getElem? hd)))
        have hdrop : Invariant P { s with runs := s.runs.eraseIdx i } :=
          h.drop (List.Sublist.refl _) (List.eraseIdx_subset)
        exact hdrop.record (records_runResults ..) hentry (by simp) (by simp)
  | dropRun i =>
      obtain rfl := Option.some.inj hs
      exact h.drop (List.Sublist.refl _) (List.eraseIdx_subset)
  | beginScan =>
      simp only [Collector.step] at hs
      split at hs
      · rename_i hidle
        split at hs
        · rename_i due hdue
          obtain rfl := Option.some.inj hs
          exact h.beginScan hidle.2 hdue
        · exact Option.some.inj hs ▸ h
      · cases hs
  | collect result =>
      simp only [Collector.step] at hs
      split at hs
      · rename_i d due hidle hscanning
        obtain rfl := Option.some.inj hs
        refine h.drop ?_ (List.Subset.refl _)
        simp [Collector.inHand, hidle, hscanning]
      · cases hs
  | record =>
      simp only [Collector.step] at hs
      split at hs
      · cases hs
      · rename_i d result hunrecorded
        obtain rfl := Option.some.inj hs
        have hhand : s.inHand = d :: s.scanning := by simp [Collector.inHand, hunrecorded]
        have hin : d ∈ s.inHand := by simp [hhand]
        have hentry := h.asEntered d (List.mem_append_left _ (List.mem_append_left _ hin))
        have hdistinct := h.distinct
        rw [hhand, List.map_cons, List.nodup_cons] at hdistinct
        have hdrop : Invariant P { s with unrecorded := none } :=
          h.drop (by simp [hhand]) (List.Subset.refl _)
        refine hdrop.record (records_recordRun ..) hentry ?_ ?_
        · intro _ d' hd' hsid
          have hscanning : d' ∈ s.scanning := by simpa [Collector.inHand] using hd'
          exact hdistinct.1 (List.mem_map.mpr ⟨d', hscanning, hsid⟩)
        · exact fun c hc hauto _ hsid => h.inHand c hc d hin hauto hsid
  | restartWorker =>
      obtain rfl := Option.some.inj hs
      exact h.drop (by simp) (List.Subset.refl _)

/-- No password of the table keeps a scan from its list. -/
theorem complete (h : Invariant P s) :
    ∃ due, dueSources P s.clock (s.store.table.rows.filter (·.active)) = .ok due
      ∧ due.map (·.sid) = (s.store.table.dueRows s.clock).map (·.id) := by
  have hdecrypts : ∀ row ∈ s.store.table.dueRows s.clock,
      (decryptSecret P row.passwordEnc).isOk = true := by
    intro row hrow
    have hmem := List.mem_of_mem_filter (List.mem_of_mem_filter hrow)
    obtain ⟨req, -, hfrom⟩ := h.rows row hmem
    exact isOk_iff.mpr ⟨req.password, hfrom.password⟩
  obtain ⟨due, hdue⟩ := dueSources_isOk_iff.mpr hdecrypts
  exact ⟨due, hdue, dueSources_sids hdue⟩

theorem faithful (h : Invariant P s) : s.Faithful P where
  asEntered := h.asEntered
  complete := h.complete
  spaced := by
    intro sid req hreq
    refine (h.log.filter _).imp_of_mem ?_
    intro c c' hc hc' hapart
    simp only [Bool.and_eq_true, decide_eq_true_eq, List.mem_filter] at hc hc'
    obtain ⟨-, hauto, hsid⟩ := hc
    obtain ⟨-, hauto', hsid'⟩ := hc'
    obtain ⟨req', hreq', hle⟩ := hapart hauto hauto' (hsid'.trans hsid.symm)
    -- a source is created once
    rw [hsid] at hreq'
    have hsame := List.inj_on_of_nodup_map h.once hreq hreq' rfl
    obtain rfl := (Prod.mk.inj hsame).2
    exact hle

end Invariant

/-- **The collection does what the administrators entered**, in every
state the API and the worker reach: under the account and the password of
the source's creation, with no source forgotten by a scan, and never
sooner than the interval after a collection the worker recorded. -/
theorem collector_faithful (hlaws : SealingLaws P) {s : Collector}
    (h : Reachable (step P) init s) : s.Faithful P :=
  (h.invariant invariant_init fun _ _ _ hs hstep => hs.step hlaws hstep).faithful

/-! ### Two scans of one source -/

def boxRequest : CreateFetchSourceRequest where
  name := none
  protocol := "imap"
  host := "imap.x.fr"
  port := 993
  username := "bob"
  password := "secret"
  useSsl := true
  folder := some ""
  intervalMinutes := 15
  deleteAfter := true

/-- The second minute brings no scan of the source; an administrator runs
it, and a quarter of an hour later it is due. -/
def boxEvents : List CollectorEvent :=
  [.create sampleDraw boxRequest, .beginScan, .collect (.ok 2), .record, .tick 60000000, .beginScan,
    .beginRun 1, .endRun 0 (.error "timed out") none, .tick 900000000, .beginScan, .collect (.ok 0),
    .record]

theorem collector_faithful_box : ∃ s : Collector, s.Faithful secretAnswers.primitives
    ∧ s.log = [⟨boxRequest.due 1, true, 0, 0⟩, ⟨boxRequest.due 1, false, 60000000, 60000000⟩,
        ⟨boxRequest.due 1, true, 960000000, 960000000⟩] := by
  have hrun : (run (step secretAnswers.primitives) init boxEvents).map (·.log)
      = some [⟨boxRequest.due 1, true, 0, 0⟩, ⟨boxRequest.due 1, false, 60000000, 60000000⟩,
        ⟨boxRequest.due 1, true, 960000000, 960000000⟩] := by
    decide +kernel
  obtain ⟨s, hs, hlog⟩ := Option.map_eq_some_iff.mp hrun
  exact ⟨s, collector_faithful secretLaws ⟨_, hs⟩, hlog⟩

end Collector

end MailArchiver

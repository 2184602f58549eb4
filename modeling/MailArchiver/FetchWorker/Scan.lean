import MailArchiver.Common.SealedFormat
import MailArchiver.Lib.Table

/-!
# FetchWorker — Scan

`_scan` of the fetch worker, run every minute. A first loop picks the
sources that are due and decrypts their passwords; a second one collects
from each and records how it went. The second loop catches what one source
raises, the first one does not: a password that cannot be decrypted ends
the scan for every source.
-/

namespace MailArchiver

/-- A row of `fetch_sources`; times are in microseconds since the year 1. -/
structure FetchSource where
  id : Nat
  name : String
  protocol : String
  host : String
  port : Int
  username : String
  passwordEnc : String
  useSsl : Bool
  folder : String
  intervalMinutes : Int
  deleteAfter : Bool
  active : Bool
  lastRun : Option Int
  lastStatus : Option String
  lastCount : Nat
  deriving DecidableEq, Repr

/-- `_src_dict(s)`. -/
structure SrcDict where
  protocol : String
  host : String
  port : Int
  username : String
  useSsl : Bool
  folder : String
  deleteAfter : Bool
  name : String
  deriving DecidableEq, Repr

namespace FetchSource

def dict (s : FetchSource) : SrcDict where
  protocol := s.protocol
  host := s.host
  port := s.port
  username := s.username
  useSsl := s.useSsl
  folder := s.folder
  deleteAfter := s.deleteAfter
  name := s.name

/-- The source was never collected, or its interval is over. -/
def isDue (now : Int) (s : FetchSource) : Bool :=
  match s.lastRun with
  | none => true
  | some lastRun => decide (s.intervalMinutes * 60 * 1000000 ≤ now - lastRun)

/-- The row after a run. -/
def ran (s : FetchSource) (clock : Int) (count : Nat) (status : String) : FetchSource :=
  { s with lastRun := some clock, lastCount := count, lastStatus := some status }

end FetchSource

/-- The table `fetch_sources`. -/
structure FetchTable where
  rows : List FetchSource
  unique : (rows.map FetchSource.id).Nodup

namespace FetchTable

/-- `session.get(FetchSource, sid)`. -/
def get (t : FetchTable) (sid : Nat) : Option FetchSource := t.rows.find? (·.id = sid)

/-- The transaction that ends a run; a source that is gone is left alone. -/
def recordRun (t : FetchTable) (sid : Nat) (clock : Int) (count : Nat) (status : String) :
    FetchTable where
  rows := t.rows.map fun s => if s.id = sid then s.ran clock count status else s
  unique := by
    have hkey : ∀ s : FetchSource, (if s.id = sid then s.ran clock count status else s).id = s.id := by
      intro s
      split
      · rfl
      · rfl
    exact (Table.map_key_update hkey).symm ▸ t.unique

end FetchTable

/-! ## The scan -/

variable (P : Primitives)

/-- An entry of `due`. -/
structure DueSource where
  sid : Nat
  src : SrcDict
  password : String
  deriving DecidableEq, Repr

/-- The first loop, over the active sources: an exception of
`decrypt_secret` leaves it. -/
def dueSources (now : Int) : List FetchSource → Except PyError (List DueSource)
  | [] => .ok []
  | s :: sources =>
      if s.isDue now then do
        let password ← decryptSecret P s.passwordEnc
        let due ← dueSources now sources
        return ⟨s.id, s.dict, password⟩ :: due
      else dueSources now sources

/-- What happens around the second loop: how the collection of each entry
ends (a count, or the text of the exception), what others write to the
table meanwhile, and the time at its end. -/
structure Surroundings where
  runAndPublish : DueSource → Except String Nat
  meanwhile : DueSource → FetchTable → FetchTable
  clock : DueSource → Int

/-- `count`. -/
def runCount : Except String Nat → Nat
  | .ok count => count
  | .error _ => 0

/-- `status`. -/
def runStatus : Except String Nat → String
  | .ok count => "ok: " ++ toString count ++ " mail(s) relevé(s)"
  | .error exc => "erreur: " ++ exc

/-- A collection that was attempted, with the table its last transaction
reads and the one it leaves. -/
structure FetchAttempt where
  due : DueSource
  clock : Int
  result : Except String Nat
  before : FetchTable
  after : FetchTable

/-- The second loop. -/
def collectDue (around : Surroundings) : List DueSource → FetchTable → List FetchAttempt × FetchTable
  | [], t => ([], t)
  | d :: due, t =>
      let result := around.runAndPublish d
      let before := around.meanwhile d t
      let after := before.recordRun d.sid (around.clock d) (runCount result) (runStatus result)
      let (attempts, t') := collectDue around due after
      (⟨d, around.clock d, result, before, after⟩ :: attempts, t')

/-- `_scan()`: its attempts, and the table in the end. -/
def scan (around : Surroundings) (now : Int) (t : FetchTable) : List FetchAttempt × FetchTable :=
  match dueSources P now (t.rows.filter (·.active)) with
  | .error _ => ([], t)
  | .ok due => collectDue around due t

/-- The sources a scan is to collect from. -/
def FetchTable.dueRows (now : Int) (t : FetchTable) : List FetchSource :=
  (t.rows.filter (·.active)).filter (·.isDue now)

variable {P}

/-! ## The two loops -/

/-- The first loop gets through exactly when every due password decrypts. -/
theorem dueSources_isOk_iff {now : Int} {sources : List FetchSource} :
    (∃ due, dueSources P now sources = .ok due) ↔
      ∀ s ∈ sources.filter (·.isDue now), (decryptSecret P s.passwordEnc).isOk = true := by
  induction sources with
  | nil => simp [dueSources]
  | cons s sources ih =>
      by_cases hdue : s.isDue now = true
      · rw [List.filter_cons_of_pos hdue, List.forall_mem_cons, ← ih]
        simp only [dueSources, if_pos hdue, bind_eq_ok, pure_eq_ok, isOk_iff]
        constructor
        · rintro ⟨_, password, hpassword, due, hloop, -⟩
          exact ⟨⟨password, hpassword⟩, due, hloop⟩
        · rintro ⟨⟨password, hpassword⟩, due, hloop⟩
          exact ⟨_, password, hpassword, due, hloop, rfl⟩
      · rw [List.filter_cons_of_neg hdue, ← ih, dueSources, if_neg hdue]

end MailArchiver

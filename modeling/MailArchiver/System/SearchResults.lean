import MailArchiver.Api.SearchService
import MailArchiver.RetentionWorker.Indices
import MailArchiver.System.IndexSoundness

/-!
# System — SearchResults

The route `search_advanced`, on the documents the archive has indexed. A
result was indexed by a call on a mail with the hash of the row it leads
to; as long as the fingerprint tells the mails processed so far apart
(`Separates`), whether they were archived or not, that mail has the
addresses of the row, and whoever is shown a result may open it.
-/

namespace MailArchiver

open Transition

variable {env : Env} {e : SearchEngine} {lower : String → String}

/-! ## The route -/

/-- `_enrich_archived_at(results)`: each result with the `archived_at` it
is shown with; only those that have none are looked up. -/
def enrichArchivedAt (db : Db) (results : List ResultRow) : List (ResultRow × Option String) :=
  let missing := results.filter fun r => r.archivedAt = ""
  let ids := missing.map (·.id)
  let archived := (db.messages.filter fun m => m.id ∈ ids).map fun m =>
    (m.id, m.signedAt.isoformat)
  results.map fun r =>
    (r, if r.archivedAt = "" then (archived.find? fun x => x.1 = r.id).map Prod.snd
      else some r.archivedAt)

/-- `data["results"]` of `search_advanced(req, user, size)`. -/
def searchAdvanced (e : SearchEngine) (lower : String → String) (db : Db) (contents : Contents)
    (filters : Filters) (size : Int) (user : AuthenticatedUser)
    (searchAfter : Option (List Scalar)) : Except PyError (List (ResultRow × Option String)) := do
  let data ← advanced e lower contents filters size (scopeAddresses lower user) searchAfter
  return enrichArchivedAt db data.results

theorem isoformat_ne_empty (t : DateTime) : t.isoformat ≠ "" := by
  intro h
  have htake := take_isoformat t
  rw [h] at htake
  cases hy : (zeroPad 4 t.year).toList <;> simp [List.intercalate, List.intersperse, hy] at htake

/-- A result of a search is a document its query selects. -/
theorem mem_results {contents : Contents} {filters : Filters} {size : Int}
    {restrictAddrs : Option (List String)} {searchAfter : Option (List Scalar)}
    {data : SearchResult}
    (h : advanced e lower contents filters size restrictAddrs searchAfter = .ok data)
    {r : ResultRow} (hr : r ∈ data.results) : ∃ hit ∈ contents.hits, r = hit.resultRow
      ∧ (advancedQuery lower filters restrictAddrs).selects e.toEngine hit.doc = true := by
  simp only [advanced, SearchEngine.search, bind_eq_ok, pure_eq_ok] at h
  obtain ⟨hits, hhits, rfl⟩ := h
  obtain ⟨hit, hmem, rfl⟩ := List.mem_map.mp hr
  have hmatch : hit ∈ e.matching contents (advancedQuery lower filters restrictAddrs) := by
    split at hhits
    · cases hhits
    · cases hhits
      have hrow := List.mem_of_mem_take hmem
      split at hrow
      · exact hrow
      · exact List.mem_of_mem_filter hrow
  have hsel := (Ranking.ranked_perm _ _).mem_iff.mp hmatch
  obtain ⟨hheld, hsel⟩ := List.mem_filter.mp hsel
  exact ⟨hit, hheld, rfl, hsel⟩

/-! ## Mails the fingerprint tells apart -/

/-- The columns of a mail that its headers determine are equal. -/
structure ParsedMail.SameEnvelope (a b : ParsedMail) : Prop where
  messageId : a.messageId = b.messageId
  fromAddr : a.fromAddr = b.fromAddr
  toAddrs : a.toAddrs = b.toAddrs
  ccAddrs : a.ccAddrs = b.ccAddrs
  subject : a.subject = b.subject

/-- The envelope of a parsed mail, from its canonical headers. -/
theorem parse_envelope {E : EmailPackage} {now : DateTime} {raw : Bytes} {mail : ParsedMail}
    (h : parse E now raw = .ok mail) :
    mail.messageId = stripAngles ((MailContent.of E mail).headers "Message-ID")
      ∧ (addresses E (some ((MailContent.of E mail).headers "From"))).map (·.headD "")
        = .ok mail.fromAddr
      ∧ addresses E (some ((MailContent.of E mail).headers "To")) = .ok mail.toAddrs
      ∧ addresses E (some ((MailContent.of E mail).headers "Cc")) = .ok mail.ccAddrs
      ∧ mail.subject = (MailContent.of E mail).headers "Subject" := by
  obtain ⟨textParts, hparsed⟩ := parse_eq_ok.mp h
  obtain rfl := hparsed.kept
  exact ⟨hparsed.messageId, hparsed.fromAddrs, hparsed.toAddrs, hparsed.ccAddrs, hparsed.subject⟩

/-- The fingerprint tells the mails of two jobs apart: SHA-256 does not
collide on what it is run on, their header lists do not blur, and neither
swallows hashes of the other. -/
def Job.Separated (job job' : Job env) : Prop :=
  CollisionFree env.prims ((MailContent.of env.email job.mail).hashed env.prims
      ∪ (MailContent.of env.email job'.mail).hashed env.prims)
    ∧ ¬((MailContent.of env.email job.mail).HeadersBlur (MailContent.of env.email job'.mail)
      ∨ (MailContent.of env.email job.mail).Swallows env.prims (MailContent.of env.email job'.mail)
      ∨ (MailContent.of env.email job'.mail).Swallows env.prims (MailContent.of env.email job.mail))

theorem Job.Separated.sameEnvelope {job job' : Job env} (h : job.Separated job')
    (hhash : job.archiveHash = job'.archiveHash) : job.mail.SameEnvelope job'.mail := by
  obtain ⟨hfree, hnot⟩ := h
  obtain ⟨now, hparse⟩ := job.parsed
  obtain ⟨now', hparse'⟩ := job'.parsed
  have hfp : (MailContent.of env.email job.mail).fingerprint env.prims
      = (MailContent.of env.email job'.mail).fingerprint env.prims := by
    rw [← parse_fingerprint env.prims hparse, ← parse_fingerprint env.prims hparse']
    exact hex_inj.mp hhash
  have hheaders : ∀ n ∈ canonicalHeaders,
      (MailContent.of env.email job.mail).headers n = (MailContent.of env.email job'.mail).headers n := by
    rcases (MailContent.fingerprint_eq_iff hfree).mp hfp with ⟨hcanonical, hhashes⟩ | hswallows
    · obtain ⟨hbody, hatts⟩ := (MailContent.hashes_eq_iff hfree).mp hhashes
      intro n hn
      by_contra hne
      exact hnot (.inl ⟨hcanonical, ⟨n, hn, hne⟩, hbody, hatts⟩)
    · exact absurd (.inr hswallows) hnot
  obtain ⟨h₁, h₂, h₃, h₄, h₅⟩ := parse_envelope hparse
  obtain ⟨h₁', h₂', h₃', h₄', h₅'⟩ := parse_envelope hparse'
  constructor
  · rw [h₁, h₁', hheaders "Message-ID" (by decide)]
  · rw [hheaders "From" (by decide)] at h₂
    exact Except.ok.inj (h₂.symm.trans h₂')
  · rw [hheaders "To" (by decide)] at h₃
    exact Except.ok.inj (h₃.symm.trans h₃')
  · rw [hheaders "Cc" (by decide)] at h₄
    exact Except.ok.inj (h₄.symm.trans h₄')
  · rw [h₅, h₅', hheaders "Subject" (by decide)]

/-! ## What a result shows -/

namespace World

/-- The fingerprint tells the mails of the calls apart. -/
def Separates (w : World env) : Prop :=
  ∀ job job', w.Runs job → w.Runs job' → job.Separated job'

/-- Documents of the daily indices, as OpenSearch finds them. -/
def Holds (w : World env) (contents : Contents) : Prop :=
  ∀ h ∈ contents.hits, w.stores.index.docs h.index h.id = some h.doc

/-- The document of a row has the envelope of the row. -/
theorem doc_envelope {w : World env} (hsound : w.Sound) (hindex : w.IndexSound)
    (hsep : w.Separates) {name : String} {doc : IndexDoc} {m : Message}
    (hm : m ∈ w.db.messages) (hdoc : w.stores.index.docs name m.id = some doc) :
    doc.messageId = m.messageId ∧ doc.fromAddr = m.fromAddr ∧ doc.toAddrs = m.toAddrs
      ∧ doc.ccAddrs = m.ccAddrs ∧ doc.subject = m.subject
      ∧ doc.archivedAt = m.signedAt.isoformat := by
  obtain ⟨job, job', harch, hruns, hhash, -, rfl⟩ := hindex.docs name m.id doc hdoc
  have hrow := harch.row hsound hm
  have hruns₀ : w.Runs job := by
    obtain ⟨c, call, hcall, -, hjob⟩ := harch
    exact ⟨c, call, hcall, hjob⟩
  have hsame := (hsep job' job hruns hruns₀).sameEnvelope hhash
  rw [← hrow.symm.eq]
  exact ⟨hsame.messageId, hsame.fromAddr, hsame.toAddrs, hsame.ccAddrs, hsame.subject, rfl⟩

/-- A perimeter that selects a document may open a mail with the
addresses of the document. -/
theorem canAccess_of_selects (hlower : ∀ s, lower (lower s) = lower s) {user : AuthenticatedUser}
    {filters : Filters} {hit : Hit} {m : Message}
    (hsel : (advancedQuery lower filters (scopeAddresses lower user)).selects e.toEngine hit.doc
      = true)
    (hfrom : hit.doc.fromAddr = m.fromAddr) (hto : hit.doc.toAddrs = m.toAddrs)
    (hcc : hit.doc.ccAddrs = m.ccAddrs) :
    canAccess lower m (scopeAddresses lower user) = true := by
  cases hscope : scopeAddresses lower user with
  | none => rfl
  | some scope =>
      have hmap := map_lower_scope hlower hscope
      rw [hscope] at hsel
      have hinv := involves_of_selects hmap hsel
      rw [Hit.involves, hfrom, hto, hcc, List.any_eq_true] at hinv
      obtain ⟨a, ha, hmem⟩ := hinv
      exact canAccess_iff.mpr ⟨a, of_decide_eq_true hmem, a, ha, rfl⟩

/-- **What a search shows can be opened, and is what it shows**: whatever
the interleaving that led there, as long as the fingerprint tells the
mails processed so far apart, every result of `search_advanced` whose row
is in the archive has the envelope of the row, is shown with the instant
the row was signed at, and passes the access check of a view or an export
for the account that searched. -/
theorem search_results_open (hlower : ∀ s, lower (lower s) = lower s) {w : World env}
    (h : Transition.Reachable World.step (World.init env) w) (hsep : w.Separates)
    {contents : Contents} (hholds : w.Holds contents) {filters : Filters} {size : Int}
    {user : AuthenticatedUser} {searchAfter : Option (List Scalar)}
    {results : List (ResultRow × Option String)}
    (hresults : searchAdvanced e lower w.db contents filters size user searchAfter = .ok results)
    {r : ResultRow} {archivedAt : Option String} (hr : (r, archivedAt) ∈ results) {m : Message}
    (hm : m ∈ w.db.messages) (hid : m.id = r.id) :
    (r.messageId = m.messageId ∧ r.fromAddr = m.fromAddr ∧ r.toAddrs = m.toAddrs
        ∧ r.ccAddrs = m.ccAddrs ∧ r.subject = m.subject)
      ∧ archivedAt = some m.signedAt.isoformat
      ∧ canAccess lower m (scopeAddresses lower user) = true := by
  obtain ⟨hsound, hindex, -⟩ := reachable_indexSound h
  simp only [searchAdvanced, bind_eq_ok, pure_eq_ok] at hresults
  obtain ⟨data, hdata, rfl⟩ := hresults
  obtain ⟨r', hr', heq⟩ := List.mem_map.mp hr
  obtain ⟨rfl, rfl⟩ := Prod.mk.inj heq
  obtain ⟨hit, hhit, rfl, hsel⟩ := mem_results hdata hr'
  have hdoc := hholds hit hhit
  rw [show hit.id = m.id from hid.symm] at hdoc
  obtain ⟨hmid, hfrom, hto, hcc, hsubject, hat⟩ := doc_envelope hsound hindex hsep hm hdoc
  refine ⟨⟨hmid, hfrom, hto, hcc, hsubject⟩, ?_, canAccess_of_selects hlower hsel hfrom hto hcc⟩
  have hshown : hit.resultRow.archivedAt = m.signedAt.isoformat := hat
  rw [hshown, if_neg (isoformat_ne_empty m.signedAt)]

end World

/-! ### A mail of Bob's -/

def bobInput : Bytes :=
  encode ("Message-ID: \nDate: \nFrom: bob@x.fr\nTo: eve@x.fr\nCc: \nSubject: " ++ hex xDigest)

/-- The zlib stream of the mail. -/
def bobStream : Bytes :=
  bytesOf 32 0x789c732bcacfb55248ca4f72a8d04b2be20ac9b752482d4b8570b82a00999c09 ++ bytesOf 1 0x91

/-- The answers on it, beside those on the samples. -/
def bobAnswers : KnownAnswers where
  sha256 := (bobInput,
    bytesOf 32 0x64dfe53d23048e940d13ed4fcf644e39624b323ccc0e3a0d49561c0ea3f8cfa0)
      :: sampleAnswers.sha256
  zlib := (bobMail, bobStream) :: sampleAnswers.zlib
  aesgcm :=
    { key := sampleDraw.dek
      nonce := sampleDraw.dataNonce
      data := bobStream
      out := bytesOf 32 0xbac8ceaa9ab970591af81f5a2d9a1a59f1845434a7088a95eb8e2c2a6073530b
        ++ bytesOf 17 0x5b5d2ce0be35a72f0f50b40df6602f6f0f }
    :: sampleAnswers.aesgcm
  ed25519 := sampleAnswers.ed25519
  masterKeyFile := sampleAnswers.masterKeyFile

def bobEnv : Env where
  prims := bobAnswers.primitives
  email := bobEmail
  indexBase := "messages"

/-- The document of the mail, once archived. -/
def bobHit : Hit where
  index := "messages-2026.03.14"
  id := 1
  doc := { (sampleHit 1 "bob@x.fr").doc with
    date := sampleTime.isoformat
    archivedAt := sampleTime.isoformat
    toAddrs := ["eve@x.fr"]
    body := "x"
    sizeBytes := 30 }

def bobContents : Contents := ⟨[bobHit], by decide⟩

/-- The mail as the fingerprint sees it. -/
def bobContent : MailContent where
  headers := (bobEmail.message bobMail).headerText
  textBody := "x"
  attachments := []

theorem bobContent_collisionFree :
    CollisionFree bobAnswers.primitives (bobContent.hashed bobAnswers.primitives) := by
  refine CollisionFree.of_list [bobInput, encode "x"] ?_ (by decide +kernel)
  have hinput : bobContent.input bobAnswers.primitives = bobInput := by decide +kernel
  rintro b (hb | hb | hb)
  · exact List.mem_cons.mpr (.inl (hb.trans hinput))
  · exact List.mem_cons_of_mem _ (List.mem_singleton.mpr hb)
  · cases hb

namespace World

/-- A mail is told apart from itself. -/
theorem bob_separates {w : World bobEnv}
    (hrun : run World.step (World.init bobEnv) (sampleCall 0 bobMail sampleTime 7) = some w) :
    w.Separates := by
  have hparsed : (prepare bobEnv sampleTime sampleTime bobMail).map (fun job =>
      (job.mail.textBody, job.mail.attachments)) = .ok ("x", []) := by
    decide +kernel
  have hcontent : ∀ job, w.Runs job → MailContent.of bobEmail job.mail = bobContent := by
    rintro job ⟨c, call, hcall, rfl⟩
    obtain ⟨raw, now, signedAt, hstart, hprep⟩ := call_of_run hrun hcall
    obtain ⟨-, rfl, rfl, rfl⟩ := mem_sampleCall_start.mp hstart
    rw [hprep] at hparsed
    obtain ⟨hbody, hatts⟩ := Prod.mk.inj (Except.ok.inj hparsed)
    rw [MailContent.of, hbody, hatts]
    rfl
  intro job job' hjob hjob'
  have hfree := bobContent_collisionFree
  rw [Job.Separated]
  rw [show MailContent.of bobEnv.email job.mail = bobContent from hcontent job hjob,
    show MailContent.of bobEnv.email job'.mail = bobContent from hcontent job' hjob',
    Set.union_self]
  refine ⟨hfree, ?_⟩
  rintro (⟨-, ⟨n, -, hne⟩, -⟩ | hself | hself)
  · exact hne rfl
  · exact hself.not_same hfree rfl
  · exact hself.not_same hfree rfl

/-- Bob searches, finds the mail he sent, and may open it. -/
theorem search_results_open_bob : ∃ (w : World bobEnv) (m : Message),
    run World.step (World.init bobEnv) (sampleCall 0 bobMail sampleTime 7) = some w
      ∧ searchAdvanced sampleSearch String.toLower w.db bobContents noFilters 50 bob none
        = .ok [(bobHit.resultRow, some sampleTime.isoformat)]
      ∧ m ∈ w.db.messages ∧ m.id = 1 ∧ m.fromAddr = "bob@x.fr"
      ∧ canAccess String.toLower m (scopeAddresses String.toLower bob) = true := by
  have hany : (run World.step (World.init bobEnv) (sampleCall 0 bobMail sampleTime 7)).any
      (fun w => decide (w.stores.index.docs bobHit.index bobHit.id = some bobHit.doc)
        && decide (w.db.messages.map (·.id) = [1])
        && decide (searchAdvanced sampleSearch String.toLower w.db bobContents noFilters 50 bob none
          = .ok [(bobHit.resultRow, some sampleTime.isoformat)])) = true := by
    decide +kernel
  obtain ⟨w, hrun, hw⟩ := (Option.any_eq_true _ _).mp hany
  simp only [Bool.and_eq_true, decide_eq_true_eq] at hw
  obtain ⟨⟨hdoc, hrows⟩, hsearch⟩ := hw
  have hmem : 1 ∈ w.db.messages.map (·.id) := hrows ▸ List.mem_singleton_self _
  obtain ⟨m, hm, hid⟩ := List.mem_map.mp hmem
  have hholds : w.Holds bobContents := by
    intro hit hhit
    rw [List.mem_singleton.mp hhit]
    exact hdoc
  obtain ⟨⟨-, hfrom, -⟩, -, hacc⟩ := search_results_open toLower_toLower ⟨_, hrun⟩
    (bob_separates hrun) hholds hsearch (List.mem_singleton_self _) hm hid
  exact ⟨w, m, hrun, hsearch, hm, hid, hfrom.symm, hacc⟩

end World

end MailArchiver

import MailArchiver.Api.Pagination
import MailArchiver.System.SearchResults

/-!
# System — FoundMails

What a search must show. An account that follows the pages of a search
without filters, while the archive goes on, comes upon every mail that
was archived when it began and that carries an address of its perimeter,
as the perimeter spells it, and upon none of them twice. The documents
that were there when it began have to stay as they are until its last
page: a document that is written again under another date moves in the
order of the pages.
-/

namespace MailArchiver

open Paging Transition

variable {env : Env} {e : SearchEngine} {lower : String → String}

/-- The mail has an address of the perimeter, in its spelling. -/
def Job.Concerns (lower : String → String) (job : Job env) (user : AuthenticatedUser) : Prop :=
  ∀ scope, scopeAddresses lower user = some scope → ∃ a ∈ job.mail.addrs, a ∈ scope

/-- Every document of the world can be searched; an indexed document can
once its index is refreshed. -/
def World.Searchable (w : World env) (contents : Contents) : Prop :=
  ∀ name id, (w.stores.index.docs name id).isSome → ∃ hit ∈ contents.hits, hit.key = (name, id)

/-- No document is written again while the pages are read. -/
def Unrewritten (contents : Nat → Contents) : Prop :=
  ∀ j k, ∀ h ∈ (contents j).hits, ∀ h' ∈ (contents k).hits, h.key = h'.key → h = h'

namespace World

section Worlds

variable {later : Nat → World env} {contents : Nat → Contents}

/-- A document found is under its own id. -/
theorem docId_of_holds {w : World env} (hindex : w.IndexSound) {found : Contents}
    (hholds : w.Holds found) {hit : Hit} (hhit : hit ∈ found.hits) : hit.doc.docId = some hit.id := by
  obtain ⟨job, job', -, -, -, -, hdoc⟩ := hindex.docs hit.index hit.id hit.doc (hholds hit hhit)
  rw [hdoc]
  rfl

/-- The worlds of the requests, one after the other. -/
theorem reachable_later (h0 : Reachable World.step (World.init env) (later 0))
    (hlater : ∀ k, Reachable World.step (later k) (later (k + 1))) (k : Nat) :
    Reachable World.step (World.init env) (later k) := by
  induction k with
  | zero => exact h0
  | succ k ih =>
      obtain ⟨es, hes⟩ := ih
      obtain ⟨fs, hfs⟩ := hlater k
      exact ⟨es ++ fs, run_append.mpr ⟨later k, hes, hfs⟩⟩

/-- What was archived at one request is so at those that follow. -/
theorem archivedAs_later (h0 : Reachable World.step (World.init env) (later 0))
    (hlater : ∀ k, Reachable World.step (later k) (later (k + 1))) {j k : Nat} (hjk : j ≤ k)
    {id : Nat} {job : Job env} (h : (later j).ArchivedAs id job) : (later k).ArchivedAs id job := by
  induction k, hjk using Nat.le_induction with
  | base => exact h
  | succ k _ ih =>
      obtain ⟨es, hes⟩ := hlater k
      exact (archivedAs_run hes (reachable_indexSound (reachable_later h0 hlater k)).1 ih).2

/-- Documents under one id are one document. -/
theorem distinctIds_of_unrewritten (h0 : Reachable World.step (World.init env) (later 0))
    (hlater : ∀ k, Reachable World.step (later k) (later (k + 1)))
    (hholds : ∀ k, (later k).Holds (contents k)) (hkept : Unrewritten contents) :
    DistinctIds contents := by
  intro j k h hh h' hh' hid
  obtain ⟨-, hindex, -⟩ := reachable_indexSound (reachable_later h0 hlater j)
  obtain ⟨-, hindex', -⟩ := reachable_indexSound (reachable_later h0 hlater k)
  rw [docId_of_holds hindex (hholds j) hh, docId_of_holds hindex' (hholds k) hh',
    Option.some.injEq] at hid
  obtain ⟨job, -, harch, -, -, hname, -⟩ := hindex.docs _ _ _ (hholds j h hh)
  obtain ⟨job', -, harch', -, -, hname', -⟩ := hindex'.docs _ _ _ (hholds k h' hh')
  -- the id was committed once, so both lie in the index of its day
  have hjobs : job = job' := by
    obtain ⟨hsound, -, -⟩ := reachable_indexSound (reachable_later h0 hlater (max j k))
    refine @ArchivedAs.unique _ _ hsound h.id _ _ ?_ ?_
    · exact archivedAs_later h0 hlater (Nat.le_max_left j k) harch
    · exact hid ▸ archivedAs_later h0 hlater (Nat.le_max_right j k) harch'
  refine hkept j k h hh h' hh' ?_
  rw [Hit.key, Hit.key, hname, hname', hjobs, hid]

end Worlds

/-- The document of a row of the mail passes the perimeter the mail
concerns. -/
theorem withinScope_of_concerns (hlower : ∀ s, lower (lower s) = lower s) {w : World env}
    (hsound : w.Sound) (hindex : w.IndexSound) (hsep : w.Separates) {m : Message}
    (hm : m ∈ w.db.messages) {job : Job env} (hruns : w.Runs job)
    (hhash : m.archiveHash = job.archiveHash) {user : AuthenticatedUser}
    (hconcerns : job.Concerns lower user) {name : String} {doc : IndexDoc}
    (hdoc : w.stores.index.docs name m.id = some doc) {scope : List String}
    (hscope : scopeAddresses lower user = some scope) :
    withinScope e.toEngine lower scope doc = true := by
  obtain ⟨c, call, hcall, hcom, hrow⟩ := hsound.origin hm
  have hsame := (hsep call.job job ⟨c, call, hcall, rfl⟩ hruns).sameEnvelope
    (hrow.archiveHash.symm.trans hhash)
  obtain ⟨-, hfrom, hto, hcc, -, -⟩ := doc_envelope hsound hindex hsep hm hdoc
  rw [← hrow.symm.eq] at hfrom hto hcc
  rw [withinScope_iff, map_lower_scope hlower hscope, hfrom, hto, hcc]
  obtain ⟨a, ha, hmem⟩ := hconcerns scope hscope
  rw [ParsedMail.addrs, ← hsame.fromAddr, ← hsame.toAddrs, ← hsame.ccAddrs] at ha
  exact ⟨a, ha, hmem⟩

/-- **Every archived mail is found**: whatever the interleaving that led to
the first request and whatever is archived between the requests, once the
pages of a search without filters end, they hold the row of every mail
whose processing had returned and that concerns the account, once, which
may open it; and they hold no row twice. -/
theorem archived_mails_found (hranks : e.Ranks) (hreads : e.ReadsCursors)
    (hlower : ∀ s, lower (lower s) = lower s) {es : List Event} {later : Nat → World env}
    (hrun : run World.step (World.init env) es = some (later 0))
    (hes : ∀ e ∈ es, e.isPurge = false) (hsep : (later 0).Separates)
    (hlater : ∀ k, Reachable World.step (later k) (later (k + 1))) {contents : Nat → Contents}
    (hholds : ∀ k, (later k).Holds (contents k)) (hsearchable : ∀ k, (later 0).Searchable (contents k))
    (hkept : Unrewritten contents) {size : Nat} (hsize : 0 < size) {user : AuthenticatedUser}
    {n : Nat} {pages : List (List ResultRow)}
    (hpages : followSearch e lower contents noFilters size (scopeAddresses lower user) n 0 none
      = .ok (pages, true)) :
    (∀ c call, (later 0).calls c = some call → call.pc = .returned →
        call.job.Concerns lower user → ∃ m ∈ (later 0).db.messages,
          m.archiveHash = call.job.archiveHash ∧ (pages.flatten.map (·.id)).count m.id = 1
            ∧ canAccess lower m (scopeAddresses lower user) = true)
      ∧ (pages.flatten.map (·.id)).Nodup := by
  have h0 : Reachable World.step (World.init env) (later 0) := ⟨es, hrun⟩
  obtain ⟨hsound, hindex, -⟩ := reachable_indexSound h0
  have hids := distinctIds_of_unrewritten h0 hlater hholds hkept
  obtain ⟨hits, hflat, -, hnodup, hfrom, hall⟩ := followSearch_found hranks hreads hids hsize hpages
  -- a result is under the id its document has
  have hdocIds : hits.map (fun h => h.doc.docId) = (hits.map (·.id)).map some := by
    rw [List.map_map]
    refine List.map_congr_left fun h hh => ?_
    obtain ⟨j, -, hj⟩ := hfrom h hh
    obtain ⟨-, hindex, -⟩ := reachable_indexSound (reachable_later h0 hlater j)
    exact docId_of_holds hindex (hholds j) (mem_rows.mp hj).1
  have hidsFlat : pages.flatten.map (·.id) = hits.map (·.id) := by
    rw [hflat, List.map_map]
    rfl
  rw [hdocIds] at hnodup
  have hnodupIds : (pages.flatten.map (·.id)).Nodup := hidsFlat ▸ List.Nodup.of_map _ hnodup
  refine ⟨fun c call hcall hret hconcerns => ?_, hnodupIds⟩
  have hunpurged : (later 0).Unpurged :=
    run_invariant_of_meets (fun _ _ _ h he hs => h.step he hs) hrun (meets_of_forall hes) (.init env)
  obtain ⟨m, hrows, -, -, -, doc, hdoc, -⟩ := hunpurged.archivedOnce hcall hret
  have hrow : m ∈ (later 0).db.messages.filter (fun m => m.archiveHash = call.job.archiveHash) :=
    hrows ▸ List.mem_singleton_self m
  obtain ⟨hm, hhash⟩ := List.mem_filter.mp hrow
  rw [decide_eq_true_eq] at hhash
  obtain ⟨-, hfrom, hto, hcc, -, -⟩ := doc_envelope hsound hindex hsep hm hdoc
  -- its document can be searched at the first request, and is the same at the others
  obtain ⟨hit, hhit, hkey⟩ := hsearchable 0 _ _ (Option.isSome_iff_exists.mpr ⟨doc, hdoc⟩)
  obtain ⟨hname, hid⟩ := Prod.mk.inj hkey
  have hhitdoc : hit.doc = doc := by
    have hheld := hholds 0 hit hhit
    rw [hname, hid, hdoc] at hheld
    exact (Option.some.inj hheld).symm
  have hsel : (advancedQuery lower noFilters (scopeAddresses lower user)).selects e.toEngine hit.doc
      = true := by
    rw [hhitdoc]
    exact selects_noFilters.mpr fun scope hscope => withinScope_of_concerns hlower hsound hindex hsep hm
      ⟨c, call, hcall, rfl⟩ hhash hconcerns hdoc hscope
  have hpresent : ∀ j < pages.length,
      hit ∈ e.rows lower (contents j) noFilters (scopeAddresses lower user) := by
    intro j _
    obtain ⟨hit', hhit', hkey'⟩ := hsearchable j _ _ (Option.isSome_iff_exists.mpr ⟨doc, hdoc⟩)
    obtain rfl := hkept 0 j hit hhit hit' hhit' (hkey.trans hkey'.symm)
    exact mem_rows.mpr ⟨hhit', hsel⟩
  have hcount := hall rfl hit hpresent
  refine ⟨m, hm, hhash, ?_, ?_⟩
  · refine List.count_eq_one_of_mem hnodupIds ?_
    rw [hidsFlat, ← hid]
    exact List.mem_map_of_mem (List.count_pos_iff.mp (hcount ▸ Nat.one_pos))
  · exact canAccess_of_selects hlower hsel (hhitdoc ▸ hfrom) (hhitdoc ▸ hto) (hhitdoc ▸ hcc)

/-! ### Bob's mail and his reply -/

def replyMail : Bytes := encode "From: bob@x.fr\nTo: eve@x.fr\nSubject: re\n\ny"

def replyInput : Bytes :=
  encode ("Message-ID: \nDate: \nFrom: bob@x.fr\nTo: eve@x.fr\nCc: \nSubject: re"
    ++ "a1fce4363854ff888cff4b8e7875d600c2682390412a8cf79b37d0b11148b0fa")

def replyStream : Bytes :=
  bytesOf 32 0x789c732bcacfb55248ca4f72a8d04b2be20ac9b752482d4b8570824b93b25293
    ++ bytesOf 13 0x4bac148a52b9b82a012b500d9d

/-- The answers on the reply, beside those on the mail. -/
def replyAnswers : KnownAnswers where
  sha256 :=
    (replyInput, bytesOf 32 0x16d79905b766f893bc0e08c42324842d50e974b4aaf6a24393373344880b8514)
      :: (encode "y", bytesOf 32 0xa1fce4363854ff888cff4b8e7875d600c2682390412a8cf79b37d0b11148b0fa)
      :: bobAnswers.sha256
  zlib := (replyMail, replyStream) :: bobAnswers.zlib
  aesgcm :=
    { key := sampleDraw.dek
      nonce := sampleDraw.dataNonce
      data := replyStream
      out := bytesOf 32 0xbac8ceaa9ab970591af81f5a2d9a1a59f1845434a7088a95eb8e164bf3589d91
        ++ bytesOf 29 0x81bf0b946465190c4cbc6d89008fe32c02c0a3d63965f8ca49abe7a2c2 }
    :: bobAnswers.aesgcm
  ed25519 := bobAnswers.ed25519
  masterKeyFile := bobAnswers.masterKeyFile

def replyEmail : EmailPackage :=
  { bobEmail with
    messageFromBytes := fun raw =>
      if raw = replyMail then .ok (.leaf (.reading
        [("From", "bob@x.fr"), ("To", "eve@x.fr"), ("Subject", "re")] "text/plain" none none
        (some "y")))
      else bobEmail.messageFromBytes raw }

def replyEnv : Env where
  prims := replyAnswers.primitives
  email := replyEmail
  indexBase := "messages"

/-- An hour after the mail. -/
def replyTime : DateTime := { sampleTime with hour := 17, valid := by decide }

/-- Both are archived. -/
def replyRun : List Event := sampleCall 0 bobMail sampleTime 7 ++ sampleCall 1 replyMail replyTime 7

def replyHit : Hit where
  index := "messages-2026.03.14"
  id := 2
  doc := { bobHit.doc with
    docId := some 2
    date := replyTime.isoformat
    archivedAt := replyTime.isoformat
    subject := "re"
    body := "y"
    sizeBytes := 42 }

def replyContents : Contents := ⟨[bobHit, replyHit], by decide⟩

/-- The mails as the fingerprint sees them. -/
def replyContent (raw : Bytes) (textBody : String) : MailContent where
  headers := (replyEmail.message raw).headerText
  textBody := textBody
  attachments := []

theorem replyContents_collisionFree :
    CollisionFree replyAnswers.primitives
      ((replyContent bobMail "x").hashed replyAnswers.primitives
        ∪ (replyContent replyMail "y").hashed replyAnswers.primitives) := by
  refine CollisionFree.of_list [bobInput, encode "x", replyInput, encode "y"] ?_
    (by decide +kernel)
  have h₁ : (replyContent bobMail "x").input replyAnswers.primitives = bobInput := by
    decide +kernel
  have h₂ : (replyContent replyMail "y").input replyAnswers.primitives = replyInput := by
    decide +kernel
  rintro b ((hb | hb | hb) | (hb | hb | hb))
  · rw [hb, h₁]
    simp
  · rw [hb]
    simp [replyContent]
  · cases hb
  · rw [hb, h₂]
    simp
  · rw [hb]
    simp [replyContent]
  · cases hb

/-- A job of the run is on one of the mails. -/
theorem content_of_replyRun {w : World replyEnv}
    (hrun : run World.step (World.init replyEnv) replyRun = some w) {job : Job replyEnv}
    (hruns : w.Runs job) : MailContent.of replyEmail job.mail = replyContent bobMail "x"
      ∨ MailContent.of replyEmail job.mail = replyContent replyMail "y" := by
  have hparsed : ∀ {raw : Bytes} {t : DateTime} {text : String},
      (prepare replyEnv t t raw).map (fun job =>
        (job.mail.raw, job.mail.textBody, job.mail.attachments)) = .ok (raw, text, []) →
      prepare replyEnv t t raw = .ok job →
      MailContent.of replyEmail job.mail = replyContent raw text := by
    intro raw t text hfields hprep
    rw [hprep] at hfields
    obtain ⟨hraw, hrest⟩ := Prod.mk.inj (Except.ok.inj hfields)
    obtain ⟨htext, hatts⟩ := Prod.mk.inj hrest
    rw [MailContent.of, hraw, htext, hatts]
    rfl
  obtain ⟨c, call, hcall, rfl⟩ := hruns
  obtain ⟨raw, now, signedAt, hstart, hprep⟩ := call_of_run hrun hcall
  rcases List.mem_append.mp hstart with hstart | hstart
  · obtain ⟨-, rfl, rfl, rfl⟩ := mem_sampleCall_start.mp hstart
    exact .inl (hparsed (by decide +kernel) hprep)
  · obtain ⟨-, rfl, rfl, rfl⟩ := mem_sampleCall_start.mp hstart
    exact .inr (hparsed (by decide +kernel) hprep)

/-- The reply has two characters more in its headers: no hash fits there. -/
theorem reply_separates {w : World replyEnv}
    (hrun : run World.step (World.init replyEnv) replyRun = some w) : w.Separates := by
  have hfree := replyContents_collisionFree
  have hbob := hfree.mono Set.subset_union_left
  have hreply := hfree.mono Set.subset_union_right
  have hlengths : (canonical (replyContent replyMail "y").headers).length
      = (canonical (replyContent bobMail "x").headers).length + 2 := by decide +kernel
  have hcross : ¬((replyContent bobMail "x").Swallows replyAnswers.primitives
        (replyContent replyMail "y")
      ∨ (replyContent replyMail "y").Swallows replyAnswers.primitives
        (replyContent bobMail "x")) := by
    rintro (hswallows | hswallows)
    · obtain ⟨k, hpos, hlen⟩ := hswallows.length_eq hreply
      omega
    · obtain ⟨k, hpos, hlen⟩ := hswallows.length_eq hbob
      omega
  have hheaders : canonical (replyContent bobMail "x").headers
      ≠ canonical (replyContent replyMail "y").headers := by
    intro heq
    rw [heq] at hlengths
    omega
  have hself : ∀ {a : MailContent}, CollisionFree replyAnswers.primitives
      (a.hashed replyAnswers.primitives) →
      ¬(a.HeadersBlur a ∨ a.Swallows replyAnswers.primitives a
        ∨ a.Swallows replyAnswers.primitives a) := by
    rintro a hfree (⟨-, ⟨n, -, hne⟩, -⟩ | hself | hself)
    · exact hne rfl
    · exact hself.not_same hfree rfl
    · exact hself.not_same hfree rfl
  intro job job' hjob hjob'
  rw [Job.Separated]
  show CollisionFree replyAnswers.primitives _ ∧ _
  rcases content_of_replyRun hrun hjob with hc | hc <;>
    rcases content_of_replyRun hrun hjob' with hc' | hc' <;>
    rw [show MailContent.of replyEnv.email job.mail = _ from hc,
      show MailContent.of replyEnv.email job'.mail = _ from hc']
  · exact ⟨by rwa [Set.union_self], hself hbob⟩
  · refine ⟨hfree, ?_⟩
    rintro (hblur | hswallows)
    · exact hheaders hblur.1
    · exact hcross hswallows
  · refine ⟨by rwa [Set.union_comm], ?_⟩
    rintro (hblur | hswallows)
    · exact hheaders hblur.1.symm
    · exact hcross hswallows.symm
  · exact ⟨by rwa [Set.union_self], hself hreply⟩

/-- Their documents can be searched. -/
theorem reply_searchable {w : World replyEnv}
    (hrun : run World.step (World.init replyEnv) replyRun = some w)
    (hfirst : (w.calls 0).map (fun call => (call.committed, call.job.signedAt))
      = some (some 1, sampleTime))
    (hsecond : (w.calls 1).map (fun call => (call.committed, call.job.signedAt))
      = some (some 2, replyTime)) : w.Searchable replyContents := by
  intro name id hsome
  obtain ⟨doc, hdoc⟩ := Option.isSome_iff_exists.mp hsome
  obtain ⟨-, hindex, -⟩ := reachable_indexSound ⟨_, hrun⟩
  obtain ⟨job, -, ⟨c, call, hc, hcom, rfl⟩, -, -, hname, -⟩ := hindex.docs name id doc hdoc
  obtain ⟨raw, now, signedAt, hstart, -⟩ := call_of_run hrun hc
  rcases List.mem_append.mp hstart with hstart | hstart
  · obtain ⟨rfl, -, -, -⟩ := mem_sampleCall_start.mp hstart
    rw [hc, Option.map_some, Option.some.injEq, Prod.mk.injEq, hcom, Option.some.injEq] at hfirst
    obtain ⟨rfl, hsigned⟩ := hfirst
    refine ⟨bobHit, List.mem_cons_self, ?_⟩
    rw [hname, hsigned]
    decide +kernel
  · obtain ⟨rfl, -, -, -⟩ := mem_sampleCall_start.mp hstart
    rw [hc, Option.map_some, Option.some.injEq, Prod.mk.injEq, hcom, Option.some.injEq] at hsecond
    obtain ⟨rfl, hsigned⟩ := hsecond
    refine ⟨replyHit, List.mem_cons_of_mem _ (List.mem_singleton_self _), ?_⟩
    rw [hname, hsigned]
    decide +kernel

/-- Bob follows pages of one, and comes upon his mail and his reply. -/
theorem archived_mails_found_bob : ∃ (w : World replyEnv) (m m' : Message)
    (pages : List (List ResultRow)), run World.step (World.init replyEnv) replyRun = some w
      ∧ followSearch pagingSearch String.toLower (fun _ => replyContents) noFilters 1
        (scopeAddresses String.toLower bob) 3 0 none = .ok (pages, true)
      ∧ pages.map List.length = [1, 1, 0]
      ∧ m ∈ w.db.messages ∧ m' ∈ w.db.messages ∧ m.archiveHash ≠ m'.archiveHash
      ∧ (pages.flatten.map (·.id)).count m.id = 1 ∧ (pages.flatten.map (·.id)).count m'.id = 1
      ∧ canAccess String.toLower m (scopeAddresses String.toLower bob) = true
      ∧ canAccess String.toLower m' (scopeAddresses String.toLower bob) = true := by
  have hany : (run World.step (World.init replyEnv) replyRun).any (fun w =>
      decide (w.stores.index.docs bobHit.index bobHit.id = some bobHit.doc)
        && decide (w.stores.index.docs replyHit.index replyHit.id = some replyHit.doc)
        && (w.calls 0).any (fun first => (w.calls 1).any fun second =>
          decide ((first.committed, first.job.signedAt) = (some 1, sampleTime))
            && decide ((second.committed, second.job.signedAt) = (some 2, replyTime))
            && decide (first.pc = .returned) && decide (second.pc = .returned)
            && decide (first.job.mail.fromAddr = "bob@x.fr")
            && decide (second.job.mail.fromAddr = "bob@x.fr")
            && decide (first.job.archiveHash ≠ second.job.archiveHash))) = true := by
    decide +kernel
  obtain ⟨w, hrun, hw⟩ := (Option.any_eq_true _ _).mp hany
  simp only [Bool.and_eq_true, decide_eq_true_eq] at hw
  obtain ⟨⟨hdoc, hdoc'⟩, hcalls⟩ := hw
  obtain ⟨first, hfirst, hcalls⟩ := (Option.any_eq_true _ _).mp hcalls
  obtain ⟨second, hsecond, hfacts⟩ := (Option.any_eq_true _ _).mp hcalls
  simp only [Bool.and_eq_true, decide_eq_true_eq] at hfacts
  obtain ⟨⟨⟨⟨⟨⟨hcom, hcom'⟩, hret⟩, hret'⟩, hfrom⟩, hfrom'⟩, hhashes⟩ := hfacts
  have hpages : followSearch pagingSearch String.toLower (fun _ => replyContents) noFilters 1
      (scopeAddresses String.toLower bob) 3 0 none
        = .ok ([[replyHit.resultRow], [bobHit.resultRow], []], true) := by
    decide +kernel
  have hconcerns : ∀ {job : Job replyEnv}, job.mail.fromAddr = "bob@x.fr" →
      job.Concerns String.toLower bob := by
    intro job hjob scope hscope
    have hbob : scopeAddresses String.toLower bob = some ["bob@x.fr"] := by decide +kernel
    obtain rfl : ["bob@x.fr"] = scope := Option.some.inj (hbob.symm.trans hscope)
    exact ⟨"bob@x.fr", hjob ▸ List.mem_cons_self, List.mem_singleton_self _⟩
  have hkept : ∀ h ∈ replyContents.hits, ∀ h' ∈ replyContents.hits, h.key = h'.key → h = h' := by
    decide +kernel
  have hholds : w.Holds replyContents := by
    intro hit hhit
    rcases List.mem_cons.mp hhit with rfl | hhit
    · exact hdoc
    · rw [List.mem_singleton.mp hhit]
      exact hdoc'
  have hsearchable := reply_searchable hrun (by rw [hfirst, Option.map_some, hcom])
    (by rw [hsecond, Option.map_some, hcom'])
  obtain ⟨hfound, -⟩ := archived_mails_found pagingSearch_ranks (fun _ _ => rfl) toLower_toLower
    hrun (by decide) (reply_separates hrun)
    (fun _ => (⟨[], rfl⟩ : ∃ es, run World.step w es = some w)) (fun _ => hholds)
    (fun _ => hsearchable) (fun _ _ => hkept) (by decide) hpages
  obtain ⟨m, hm, hhash, hcount, hacc⟩ := hfound 0 first hfirst hret (hconcerns hfrom)
  obtain ⟨m', hm', hhash', hcount', hacc'⟩ := hfound 1 second hsecond hret' (hconcerns hfrom')
  refine ⟨w, m, m', _, hrun, hpages, rfl, hm, hm', ?_, hcount, hcount', hacc, hacc'⟩
  rw [hhash, hhash']
  exact hhashes

end World

end MailArchiver

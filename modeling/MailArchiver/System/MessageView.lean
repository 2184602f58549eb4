import MailArchiver.ArchiverWorker.Coverage
import MailArchiver.System.Export
import MailArchiver.System.IndexSoundness

/-!
# System — MessageView

`get_view` of `api/mail_access.py`, the readable form of an archived
mail. It parses the raw mail a second time, by a loop of its own: the
archive joins all the texts of a mail, the view keeps the first that is
not empty, of each kind. So what it shows is part of what was signed. But
it asks for more than the archive did: an HTML part the archive had no
need to decode, or a header the archive never looked up, can keep a mail
from being viewed.
-/

namespace MailArchiver

open Transition

variable {env : Env} {lower : String → String}

/-- An entry of `attachments`. -/
structure ViewedAttachment where
  filename : String
  contentType : String
  size : Nat
  deriving DecidableEq, Repr

/-- What the loop of `_parse_view` has collected. -/
structure ViewedParts where
  textBody : String
  /-- `html_body` is not empty: nothing else is asked of it. -/
  hasHtml : Bool
  attachments : List ViewedAttachment
  deriving DecidableEq, Repr

/-- What `get_view` returns. -/
structure MessageView where
  id : Nat
  subject : String
  fromAddr : String
  toAddrs : List String
  ccAddrs : List String
  date : String
  body : String
  hasHtml : Bool
  attachments : List ViewedAttachment
  headers : List (String × String)
  integrityOk : Bool
  archivedAt : Option String
  legalHold : Bool
  deriving DecidableEq, Repr

/-- One round of the loop over `msg.walk()`. -/
def viewPart (acc : ViewedParts) (p : Part) : Except PyError ViewedParts := do
  if p.isMultipart then return acc
  let (ctype, kept) ← p.screen
  if kept then
    let (payload, filename) ← p.take "sans-nom"
    return { acc with
      attachments := acc.attachments ++ [{
        filename := filename
        contentType := ctype
        size := payload.length }] }
  else if ctype = "text/plain" ∧ acc.textBody = "" then
    let content ← p.content
    return { acc with textBody := content }
  else if ctype = "text/html" ∧ acc.hasHtml = false then
    let content ← p.info.content
    return { acc with hasHtml := decide (content ≠ some "") }
  else return acc

/-- `[{"name": k, "value": str(v)} for k, v in msg.items()]`. -/
def Part.items (p : Part) : Except PyError (List (String × String)) :=
  p.info.headers.mapM fun h => h.2.map fun value => (h.1, value)

/-- `_parse_view(raw, integrity_ok, message_db_id, archived_at)`, to which
`get_view` adds the legal hold. -/
def parseView (E : EmailPackage) (raw : Bytes) (integrityOk : Bool) (messageDbId : Nat)
    (archivedAt : Option String) (legalHold : Bool) : Except PyError MessageView := do
  let msg ← E.messageFromBytes raw
  let parts ← msg.walk.foldlM viewPart ⟨"", false, []⟩
  let headers ← msg.items
  let subject ← msg.header "Subject"
  let fromAddrs ← addresses E (← msg.header "From")
  let toAddrs ← addresses E (← msg.header "To")
  let ccAddrs ← addresses E (← msg.header "Cc")
  let date ← msg.header "Date"
  return {
    id := messageDbId
    subject := subject.getD ""
    fromAddr := fromAddrs.headD ""
    toAddrs
    ccAddrs
    date := date.getD ""
    body := parts.textBody
    hasHtml := parts.hasHtml
    attachments := parts.attachments
    headers
    integrityOk
    archivedAt
    legalHold }

/-- `MailAccess.get_view`: the mail is read in one transaction, the columns
shown with it in another, on the tables `later`. -/
def getView (P : Primitives) (lower : String → String) (E : EmailPackage) (db : Db)
    (blobs : BlobStore) (later : Db) (messageDbId : Nat) (scope : Option (List String)) :
    Except PyError MessageView := do
  let (raw, integrityOk) ← getEml P lower db blobs messageDbId scope
  let msg := getMessage later messageDbId
  parseView E raw integrityOk messageDbId (msg.map (·.signedAt.isoformat))
    (msg.any (·.legalHold))

/-! ## The loop on the leaves -/

namespace Part

/-- The entry of an attachment, `"sans-nom"` if it has no name. -/
def viewed (p : Part) : ViewedAttachment where
  filename := p.nameOr "sans-nom"
  contentType := p.contentType
  size := p.bytes.length

/-- A leaf the view may show as text of this type. -/
def textOf (ctype : String) (p : Part) : Bool := !isAttachment p && p.contentType = ctype

/-- `get_content()` is the empty text. -/
def isEmptyText (p : Part) : Bool := p.info.content = .ok (some "")

/-- The leaves of a type whose text is asked for: up to the first that is
not empty. -/
def consulted (ctype : String) : List Part → List Part
  | [] => []
  | p :: ps =>
      if p.textOf ctype then p :: if p.isEmptyText then consulted ctype ps else []
      else consulted ctype ps

/-- The first text of a type that is not empty, if any. -/
def firstText (ctype : String) : List Part → String
  | [] => ""
  | p :: ps => if p.textOf ctype && p.text ≠ "" then p.text else firstText ctype ps

/-- A leaf has an HTML text that is not empty. -/
def showsHtml (p : Part) : Bool := p.textOf "text/html" && !p.isEmptyText

theorem textOf_other {ctype ctype' : String} {p : Part} (h : p.textOf ctype = true)
    (hne : ctype ≠ ctype') : p.textOf ctype' = false := by
  simp only [textOf, Bool.and_eq_true, decide_eq_true_eq] at h
  simp [textOf, h.2, hne]

/-- A text that is shown is one of the texts of its type. -/
theorem firstText_mem {ctype : String} {ps : List Part} (h : firstText ctype ps ≠ "") :
    ∃ p ∈ ps, p.textOf ctype = true ∧ firstText ctype ps = p.text := by
  induction ps with
  | nil => exact absurd rfl h
  | cons p ps ih =>
      by_cases hp : (p.textOf ctype && p.text ≠ "") = true
      · have hfirst : firstText ctype (p :: ps) = p.text := if_pos hp
        exact ⟨p, List.mem_cons_self, (Bool.and_eq_true_iff.mp hp).1, hfirst⟩
      · have hfirst : firstText ctype (p :: ps) = firstText ctype ps := if_neg hp
        rw [hfirst] at h ⊢
        obtain ⟨q, hq, hfacts⟩ := ih h
        exact ⟨q, List.mem_cons_of_mem _ hq, hfacts⟩

/-- A text that can be encoded, and the answer it comes from. -/
theorem info_content_of_content {p : Part} {t : String} (h : p.content = .ok t) :
    p.info.content = .ok (some t) := by
  obtain ⟨answer, hanswer, ht⟩ := bind_eq_ok.mp h
  cases answer with
  | none => cases ht
  | some text =>
      cases ht
      exact hanswer

end Part

open MailArchiver.Part

theorem foldlM_viewPart_leaves (ps : List Part) (acc : ViewedParts) :
    ps.foldlM viewPart acc = (ps.filter (!·.isMultipart)).foldlM viewPart acc := by
  induction ps generalizing acc with
  | nil => rfl
  | cons p ps ih =>
      by_cases hp : p.isMultipart = true
      · rw [List.foldlM_cons, List.filter_cons_of_neg (by simp [hp])]
        have hskip : viewPart acc p = .ok acc := if_pos hp
        rw [hskip]
        exact ih acc
      · rw [List.filter_cons_of_pos (by simp [hp]), List.foldlM_cons, List.foldlM_cons]
        exact congrArg _ (funext ih)

/-- What one leaf does to the loop's collections. -/
theorem viewPart_leaf {acc r : ViewedParts} {p : Part} (hleaf : p.isMultipart = false) :
    viewPart acc p = .ok r ↔ p.Answers ∧
      (if isAttachment p then .ok { acc with attachments := acc.attachments ++ [p.viewed] }
      else if p.textOf "text/plain" ∧ acc.textBody = "" then
        p.content.map fun t => { acc with textBody := t }
      else if p.textOf "text/html" ∧ acc.hasHtml = false then
        p.info.content.map fun t => { acc with hasHtml := decide (t ≠ some "") }
      else .ok acc : Except PyError ViewedParts) = .ok r := by
  let kept := fun (ctype : String) (taken : Bytes × String) =>
    ({ acc with attachments := acc.attachments ++ [⟨taken.2, ctype, taken.1.length⟩] } : ViewedParts)
  let other := fun (ctype : String) =>
    if ctype = "text/plain" ∧ acc.textBody = "" then
      p.content.map fun t => { acc with textBody := t }
    else if ctype = "text/html" ∧ acc.hasHtml = false then
      p.info.content.map fun t => { acc with hasHtml := decide (t ≠ some "") }
    else (.ok acc : Except PyError ViewedParts)
  have hround : viewPart acc p = (p.screen >>= fun x =>
      if x.2 then p.take "sans-nom" >>= fun taken => pure (kept x.1 taken) else other x.1) := by
    rw [viewPart, if_neg (by simp [hleaf])]
    rfl
  rw [hround]
  refine (@Part.round_eq_ok _ p "sans-nom" kept other r).trans (and_congr_right fun _ => ?_)
  by_cases hatt : isAttachment p = true
  · simp [kept, hatt, viewed]
  · simp [other, hatt, textOf]

/-- The body the plain text ends up with, from the one it has. -/
def keptText (ctype body : String) (ps : List Part) : String :=
  if body = "" then firstText ctype ps else body

/-- The leaves of a kind still asked for, if its text is not `found`. -/
def asked (ctype : String) (found : Bool) (ps : List Part) : List Part :=
  if found then [] else consulted ctype ps

theorem asked_nil (ctype : String) (found : Bool) : asked ctype found [] = [] := by
  unfold asked
  split
  · rfl
  · rfl

@[simp] theorem asked_found (ctype : String) (ps : List Part) : asked ctype true ps = [] := rfl

theorem keptText_nil (ctype body : String) : keptText ctype body [] = body := by
  unfold keptText
  split
  · rename_i hempty
    exact hempty.symm
  · rfl

theorem asked_cons_other {ctype : String} {found : Bool} {p : Part} (ps : List Part)
    (h : p.textOf ctype = false) : asked ctype found (p :: ps) = asked ctype found ps := by
  simp [asked, consulted, h]

/-- A text that is not taken, of its kind or not. -/
theorem asked_cons_skip {ctype : String} {found : Bool} {p : Part} (ps : List Part)
    (h : ¬(p.textOf ctype = true ∧ found = false)) :
    asked ctype found (p :: ps) = asked ctype found ps := by
  cases found with
  | true => rfl
  | false => exact asked_cons_other ps (by simpa using h)

theorem hasHtml_cons_skip {found : Bool} {p : Part} (ps : List Part)
    (h : ¬(p.textOf "text/html" = true ∧ found = false)) :
    (found || (p :: ps).any showsHtml) = (found || ps.any showsHtml) := by
  cases found with
  | true => rfl
  | false =>
      have hno : p.textOf "text/html" = false := by simpa using h
      simp [showsHtml, hno]

theorem keptText_cons_other {ctype body : String} {p : Part} (ps : List Part)
    (h : p.textOf ctype = false) : keptText ctype body (p :: ps) = keptText ctype body ps := by
  simp [keptText, firstText, h]

theorem keptText_of_ne {ctype body : String} (ps : List Part) (h : body ≠ "") :
    keptText ctype body ps = body := if_neg h

/-- A text that is taken: the rest is asked for if it was empty. -/
theorem asked_cons_text {ctype : String} {p : Part} (ps : List Part) (h : p.textOf ctype = true) :
    asked ctype false (p :: ps) = p :: asked ctype (!p.isEmptyText) ps := by
  cases hblank : p.isEmptyText <;> simp [asked, consulted, h, hblank]

theorem keptText_cons_text {ctype : String} {p : Part} (ps : List Part)
    (h : p.textOf ctype = true) : keptText ctype "" (p :: ps) = keptText ctype p.text ps := by
  by_cases hempty : p.text = ""
  · simp [keptText, firstText, hempty]
  · simp [keptText, firstText, h, hempty]

/-- **What the loop collects from some leaves**, and when it gets through. -/
theorem foldlM_viewPart {ps : List Part} {acc r : ViewedParts}
    (hleaf : ∀ p ∈ ps, p.isMultipart = false) :
    ps.foldlM viewPart acc = .ok r ↔
      (∀ p ∈ ps, p.Answers)
      ∧ (∀ p ∈ asked "text/plain" (acc.textBody ≠ "") ps, p.content.isOk = true)
      ∧ (∀ p ∈ asked "text/html" acc.hasHtml ps, p.info.content.isOk = true)
      ∧ r = {
          textBody := keptText "text/plain" acc.textBody ps
          hasHtml := acc.hasHtml || ps.any showsHtml
          attachments := acc.attachments ++ (ps.filter isAttachment).map viewed } := by
  induction ps generalizing acc with
  | nil =>
      rw [List.foldlM_nil, pure_eq_ok, @eq_comm _ acc r]
      simp [asked_nil, keptText_nil]
  | cons p ps ih =>
      obtain ⟨hp, hps⟩ := List.forall_mem_cons.mp hleaf
      simp only [List.foldlM_cons, bind_eq_ok, viewPart_leaf hp, List.forall_mem_cons, and_assoc,
        exists_and_left]
      refine and_congr_right fun _ => ?_
      by_cases hatt : isAttachment p = true
      · have hno : ∀ ctype, p.textOf ctype = false := fun ctype => by simp [textOf, hatt]
        simp [ih hps, hatt, showsHtml, hno, asked_cons_other ps (hno _),
          keptText_cons_other ps (hno _)]
      · simp only [hatt, Bool.false_eq_true, if_false, List.filter_cons_of_neg hatt]
        by_cases hplain : p.textOf "text/plain" = true
        · have hhtml : p.textOf "text/html" = false := textOf_other hplain (by decide)
          have hshows : p.showsHtml = false := by simp [showsHtml, hhtml]
          rw [asked_cons_other ps hhtml]
          by_cases hempty : acc.textBody = ""
          · simp only [hplain, hempty, and_self, if_true, ne_eq, not_true_eq_false, decide_false,
              asked_cons_text ps hplain, keptText_cons_text ps hplain, List.forall_mem_cons]
            cases hc : p.content with
            | error e => simp [Except.map, Except.isOk, Except.toBool]
            | ok t =>
                have ht : p.text = t := by rw [Part.text, hc]; rfl
                have hblank : (!p.isEmptyText) = decide (t ≠ "") := by
                  simp [isEmptyText, info_content_of_content hc]
                simp [Except.map, Except.isOk, Except.toBool, ih hps, ht, hblank, hshows]
          · simp [ih hps, hempty, hhtml, hshows, keptText_of_ne _ hempty]
        · rw [asked_cons_other ps (by simpa using hplain),
            keptText_cons_other ps (by simpa using hplain)]
          simp only [hplain, false_and, if_false, Bool.false_eq_true]
          by_cases hhtml : p.textOf "text/html" = true ∧ acc.hasHtml = false
          · simp only [hhtml.1, hhtml.2, and_self, if_true, asked_cons_text ps hhtml.1,
              List.forall_mem_cons]
            cases hc : p.info.content with
            | error e => simp [Except.map, Except.isOk, Except.toBool]
            | ok t =>
                have hblank : (!p.isEmptyText) = decide (t ≠ some "") := by simp [isEmptyText, hc]
                have hshows : p.showsHtml = decide (t ≠ some "") := by
                  rw [showsHtml, hhtml.1, hblank, Bool.true_and]
                simp [Except.map, Except.isOk, Except.toBool, ih hps, hblank, hshows]
          · rw [if_neg hhtml, asked_cons_skip ps hhtml, hasHtml_cons_skip ps hhtml]
            simp [ih hps]

/-! ## The view of a parsed mail -/

/-- A plain text is always part of the text the archive keeps. -/
theorem mem_bodyLeaves_of_plain {seen : Bool} {ps : List Part} {p : Part} (hp : p ∈ ps)
    (hplain : p.textOf "text/plain" = true) : p ∈ bodyLeaves seen ps := by
  have henters : ∀ seen, p.entersBody seen = true := by
    simp only [textOf, Bool.and_eq_true, decide_eq_true_eq] at hplain
    intro seen
    simp [entersBody, hplain.1, hplain.2]
  induction ps generalizing seen with
  | nil => cases hp
  | cons q ps ih =>
      rw [bodyLeaves]
      rcases List.mem_cons.mp hp with rfl | hp
      · rw [if_pos (henters seen)]
        exact List.mem_cons_self
      · split
        · exact List.mem_cons_of_mem _ (ih hp)
        · exact ih hp

theorem mem_of_mem_consulted {ctype : String} {ps : List Part} {p : Part}
    (h : p ∈ consulted ctype ps) : p ∈ ps ∧ p.textOf ctype = true := by
  induction ps with
  | nil => cases h
  | cons q ps ih =>
      rw [consulted] at h
      split at h
      · rename_i hq
        rcases List.mem_cons.mp h with rfl | h
        · exact ⟨List.mem_cons_self, hq⟩
        · split at h
          · exact ⟨List.mem_cons_of_mem _ (ih h).1, (ih h).2⟩
          · cases h
      · exact ⟨List.mem_cons_of_mem _ (ih h).1, (ih h).2⟩

/-- An entry of the view and the attachment that was archived. -/
structure ViewedAttachment.Shows (v : ViewedAttachment) (a : ParsedAttachment) : Prop where
  contentType : v.contentType = a.contentType
  size : v.size = a.content.length
  filename : v.filename = a.filename ∨ v.filename = "sans-nom" ∧ a.filename = "unnamed"

theorem viewed_shows (p : Part) : p.viewed.Shows p.toAttachment where
  contentType := rfl
  size := rfl
  filename := by
    unfold viewed toAttachment attachmentName nameOr
    cases hname : p.filename with
    | none => exact .inr ⟨rfl, rfl⟩
    | some f =>
        by_cases hempty : f = ""
        · simp [hempty, Option.filter]
        · simp [hempty, Option.filter]

/-- The headers as the view shows them, in order. -/
def Part.shownHeaders (p : Part) : List (String × String) :=
  p.info.headers.map fun h => (h.1, h.2.toOption.getD "")

/-- The view asks for each header of the mail. -/
theorem items_eq_ok {p : Part} {headers : List (String × String)} :
    p.items = .ok headers ↔ (∀ h ∈ p.info.headers, h.2.isOk = true) ∧ p.shownHeaders = headers := by
  have hitem : ∀ h ∈ p.info.headers, h.2.isOk = true →
      (h.2.map fun value => (h.1, value)) = .ok (h.1, h.2.toOption.getD "") := by
    intro h _ hok
    obtain ⟨value, hvalue⟩ := isOk_iff.mp hok
    rw [hvalue]
    rfl
  constructor
  · intro hitems
    have hread : ∀ h ∈ p.info.headers, h.2.isOk = true := by
      intro h hh
      obtain ⟨item, hok⟩ := isOk_iff.mp (isOk_of_mapM hitems h hh)
      obtain ⟨value, hvalue, -⟩ := map_eq_ok.mp hok
      exact isOk_iff.mpr ⟨value, hvalue⟩
    rw [items, mapM_eq_ok fun h hh => hitem h hh (hread h hh)] at hitems
    exact ⟨hread, Except.ok.inj hitems⟩
  · rintro ⟨hread, rfl⟩
    exact mapM_eq_ok fun h hh => hitem h hh (hread h hh)

/-- What a view shows of a mail that was parsed for the archive. -/
structure MessageView.Shows (v : MessageView) (msg : Part) (mail : ParsedMail) : Prop where
  subject : v.subject = mail.subject
  date : v.date = msg.headerText "Date"
  headers : v.headers = msg.shownHeaders
  fromAddr : v.fromAddr = mail.fromAddr
  toAddrs : v.toAddrs = mail.toAddrs
  ccAddrs : v.ccAddrs = mail.ccAddrs
  attachments : List.Forall₂ ViewedAttachment.Shows v.attachments mail.attachments
  body : v.body = firstText "text/plain" msg.leaves
  /-- The body is one of the texts `text_body` joins, and so is signed. -/
  signed : v.body = "" ∨ ∃ p ∈ bodyLeaves false msg.leaves, v.body = p.text
  hasHtml : v.hasHtml = true ↔ ∃ p ∈ msg.leaves, p.showsHtml = true

/-- A message the view gets through, the archive having done so: its
headers can be read, and the HTML that is asked for. -/
structure Part.Viewable (msg : Part) : Prop where
  headers : ∀ h ∈ msg.info.headers, h.2.isOk = true
  html : ∀ p ∈ consulted "text/html" msg.leaves, p.info.content.isOk = true

/-- The loop of the view, on a mail that the archive has read. -/
theorem foldlM_viewPart_of_parse {E : EmailPackage} {now : DateTime} {raw : Bytes}
    {mail : ParsedMail} (h : parse E now raw = .ok mail) {r : ViewedParts} :
    (E.message raw).walk.foldlM viewPart ⟨"", false, []⟩ = .ok r ↔
      (∀ p ∈ consulted "text/html" (E.message raw).leaves, p.info.content.isOk = true)
      ∧ r = {
          textBody := firstText "text/plain" (E.message raw).leaves
          hasHtml := (E.message raw).leaves.any showsHtml
          attachments := ((E.message raw).leaves.filter isAttachment).map viewed } := by
  obtain ⟨-, -, hans, hread⟩ := parse_parts h
  have hplain : ∀ p ∈ consulted "text/plain" (E.message raw).leaves, p.content.isOk = true := by
    intro p hp
    obtain ⟨hleaf, htext⟩ := mem_of_mem_consulted hp
    exact content_eq_text_iff.mp (hread p (mem_bodyLeaves_of_plain hleaf htext))
  have hfold := @foldlM_viewPart (E.message raw).leaves ⟨"", false, []⟩ r isMultipart_of_mem_leaves
  simp only [asked, keptText, ne_eq, not_true_eq_false, decide_false, Bool.false_eq_true, if_false,
    if_true, List.nil_append, Bool.false_or] at hfold
  rw [foldlM_viewPart_leaves]
  constructor
  · intro hr
    exact (hfold.mp hr).2.2
  · rintro ⟨hhtml, hr⟩
    exact hfold.mpr ⟨hans, hplain, hhtml, hr⟩

/-- A parsed mail can be viewed exactly when its headers can be read and
the HTML that is asked for decoded; the plain texts were. -/
theorem parseView_of_parse {E : EmailPackage} {now : DateTime} {raw : Bytes} {mail : ParsedMail}
    (h : parse E now raw = .ok mail) (integrityOk : Bool) (id : Nat) (archivedAt : Option String)
    (legalHold : Bool) :
    ((∃ v, parseView E raw integrityOk id archivedAt legalHold = .ok v) ↔
        (E.message raw).Viewable)
      ∧ ∀ v, parseView E raw integrityOk id archivedAt legalHold = .ok v →
        v.Shows (E.message raw) mail ∧ v.id = id ∧ v.integrityOk = integrityOk
          ∧ v.archivedAt = archivedAt ∧ v.legalHold = legalHold := by
  obtain ⟨textParts, hparsed⟩ := parse_eq_ok.mp h
  have hlookup : ∀ name ∈ canonicalHeaders, ∃ v, (E.message raw).header name = .ok v :=
    fun name hname => isOk_iff.mp (hparsed.headers name hname)
  obtain ⟨subject, hsubject⟩ := hlookup "Subject" (by decide)
  obtain ⟨from', hfrom⟩ := hlookup "From" (by decide)
  obtain ⟨to', hto⟩ := hlookup "To" (by decide)
  obtain ⟨cc', hcc⟩ := hlookup "Cc" (by decide)
  obtain ⟨date, hdate⟩ := hlookup "Date" (by decide)
  obtain ⟨fromAddrs, hfroms, hhead⟩ := map_eq_ok.mp hparsed.fromAddrs
  have htos := hparsed.toAddrs
  have hccs := hparsed.ccAddrs
  rw [← Part.header_getD hfrom, ← addresses_getD] at hfroms
  rw [← Part.header_getD hto, ← addresses_getD] at htos
  rw [← Part.header_getD hcc, ← addresses_getD] at hccs
  -- past the loop and the list of headers, everything has been asked before
  have hview : ∀ v, parseView E raw integrityOk id archivedAt legalHold = .ok v ↔
      ∃ parts, (E.message raw).walk.foldlM viewPart ⟨"", false, []⟩ = .ok parts
        ∧ ∃ headers, (E.message raw).items = .ok headers
          ∧ ⟨id, subject.getD "", fromAddrs.headD "", mail.toAddrs, mail.ccAddrs, date.getD "",
            parts.textBody, parts.hasHtml, parts.attachments, headers, integrityOk, archivedAt,
            legalHold⟩ = v := by
    intro v
    simp only [parseView, hparsed.message, bind_eq_ok, hsubject, hfrom, hto, hcc, hdate, hfroms,
      htos, hccs, pure_eq_ok, Except.ok.injEq, exists_eq_left']
  simp only [hview, foldlM_viewPart_of_parse h, items_eq_ok]
  constructor
  · constructor
    · rintro ⟨v, parts, ⟨hhtml, -⟩, headers, ⟨hheaders, -⟩, -⟩
      exact ⟨hheaders, hhtml⟩
    · intro hviewable
      exact ⟨_, _, ⟨hviewable.html, rfl⟩, _, ⟨hviewable.headers, rfl⟩, rfl⟩
  · rintro v ⟨parts, ⟨-, rfl⟩, headers, ⟨-, rfl⟩, rfl⟩
    obtain ⟨hatts, -⟩ := parse_parts h
    refine ⟨?_, rfl, rfl, rfl, rfl⟩
    constructor
    case subject => exact (Part.header_getD hsubject).trans hparsed.subject.symm
    case date => exact Part.header_getD hdate
    case headers => rfl
    case fromAddr => exact hhead
    case toAddrs => rfl
    case ccAddrs => rfl
    case attachments =>
      rw [hatts, List.forall₂_map_left_iff, List.forall₂_map_right_iff]
      exact List.forall₂_same.mpr fun p _ => viewed_shows p
    case body => rfl
    case signed =>
      by_cases hempty : firstText "text/plain" (E.message raw).leaves = ""
      · exact .inl hempty
      · obtain ⟨p, hp, hplain, hfirst⟩ := firstText_mem hempty
        exact .inr ⟨p, mem_bodyLeaves_of_plain hp hplain, hfirst⟩
    case hasHtml => exact List.any_eq_true

/-! ## The view of an archived mail -/

namespace World

/-- **A view shows the mail that was archived**: in a run whose every step
keeps the bodies, an account that may open a message whose body the purge
has not deleted gets the subject, the addresses and the attachments of its
row's mail, a body that is among the signed texts, and a valid verdict,
with the instant and the legal hold as they stand when the columns are
read, whatever happened in between. It gets them exactly when each header of the
mail can be read and the HTML parts that are asked for decoded. -/
theorem view_shows_archived (hlaws : SealingLaws env.prims) {es after : List Event}
    {w later : World env} (hrun : run World.step (World.init env) es = some w)
    (hkeeps : Meets World.step World.KeepsBodies (World.init env) es)
    (hsigns : w.SignsValidly) {m : Message} (hm : m ∈ w.db.messages)
    (hnot : w.purge.bodyDeleted m.id = false) {scope : Option (List String)}
    (hopen : canAccess lower m scope = true) (hlater : run World.step w after = some later) :
    ∃ job, w.ArchivedAs m.id job ∧ m.SameArchive (job.msgRow m.id)
      ∧ ((∃ v, getView env.prims lower env.email w.db w.blobs later.db m.id scope = .ok v) ↔
        job.message.Viewable)
      ∧ ∀ v, getView env.prims lower env.email w.db w.blobs later.db m.id scope = .ok v →
        v.Shows job.message job.mail ∧ v.id = m.id ∧ v.integrityOk = true
          ∧ ((∃ m' ∈ later.db.messages, m'.id = m.id ∧ v.legalHold = m'.legalHold
              ∧ v.archivedAt = some m.signedAt.isoformat)
            ∨ (∀ m' ∈ later.db.messages, m'.id ≠ m.id) ∧ v.legalHold = false
              ∧ v.archivedAt = none) := by
  obtain ⟨hsound, hheld⟩ := bodiesHeld_of_run hlaws hrun hkeeps
  obtain ⟨c, call, hcall, hcom, hsame, hget⟩ := @getEml_row _ lower w hsound hheld hsigns m hm hnot
  have harch : w.ArchivedAs m.id call.job := ⟨c, call, hcall, hcom, rfl⟩
  obtain ⟨hsound', harch'⟩ := archivedAs_run hlater hsound harch
  obtain ⟨now, hparse⟩ := call.job.parsed
  have hview : getView env.prims lower env.email w.db w.blobs later.db m.id scope
      = parseView env.email call.job.mail.raw true m.id
          ((getMessage later.db m.id).map (·.signedAt.isoformat))
          ((getMessage later.db m.id).any (·.legalHold)) := by
    rw [getView, hget, if_pos hopen]
    rfl
  rw [hview]
  obtain ⟨hiff, hshows⟩ := parseView_of_parse hparse true m.id
    ((getMessage later.db m.id).map (·.signedAt.isoformat))
    ((getMessage later.db m.id).any (·.legalHold))
  refine ⟨call.job, harch, hsame, hiff, fun v hv => ?_⟩
  obtain ⟨hshow, hid, hok, harchived, hhold⟩ := hshows v hv
  refine ⟨hshow, hid, hok, ?_⟩
  cases hrow : getMessage later.db m.id with
  | none =>
      rw [hrow] at harchived hhold
      refine .inr ⟨fun m' hm' hid' => ?_, hhold, harchived⟩
      have hfound := hsound'.getMessage hm'
      rw [hid', hrow] at hfound
      cases hfound
  | some m' =>
      rw [hrow] at harchived hhold
      have hm' : m' ∈ later.db.messages := List.mem_of_find?_eq_some hrow
      have hid' : m'.id = m.id := by simpa using List.find?_some hrow
      have hsame' := ArchivedAs.row hsound' hm' (hid'.symm ▸ harch')
      refine .inl ⟨m', hm', hid', hhold, harchived.trans ?_⟩
      rw [Option.map_some, hsame'.signedAt, hsame.signedAt]
      rfl

/-- An administrator opens the mail; a hold is granted between the two
transactions of the view, and shown. -/
theorem view_shows_archived_held : ∃ w later v, sampleRun archivedRun = some w
    ∧ run World.step w [.readHold 0 1 true, .commitHold 0] = some later
    ∧ getView sampleEnv.prims String.toLower sampleEnv.email w.db w.blobs later.db 1 none = .ok v
    ∧ v.body = "x" ∧ v.integrityOk = true ∧ v.legalHold = true := by
  obtain ⟨w, m, hrun, hkeeps, hsigns, hm, hid, hnot⟩ := archivedRun_holds
  have hany : (sampleRun archivedRun).any (fun w =>
      (run World.step w [.readHold 0 1 true, .commitHold 0]).any fun later =>
        decide (later.db.messages.map (fun m => (m.id, m.legalHold)) = [(1, true)])
          && decide ((getView sampleEnv.prims String.toLower sampleEnv.email w.db w.blobs later.db 1
            none).map (·.body) = .ok "x")) = true := by
    decide +kernel
  rw [hrun, Option.any_some] at hany
  obtain ⟨later, hlater, hfacts⟩ := (Option.any_eq_true _ _).mp hany
  rw [Bool.and_eq_true, decide_eq_true_eq, decide_eq_true_eq] at hfacts
  obtain ⟨hrows, hbody⟩ := hfacts
  obtain ⟨v, hv, hx⟩ := map_eq_ok.mp hbody
  obtain ⟨job, -, -, -, hshows⟩ := @view_shows_archived _ String.toLower sampleLaws _ _ w later hrun
    hkeeps hsigns m hm hnot none rfl hlater
  rw [hid] at hshows
  obtain ⟨-, -, hok, ⟨m', hm', -, hhold, -⟩ | ⟨hgone, -⟩⟩ := hshows v hv
  · have hmem : (m'.id, m'.legalHold) ∈ later.db.messages.map (fun m => (m.id, m.legalHold)) :=
      List.mem_map_of_mem hm'
    rw [hrows, List.mem_singleton] at hmem
    exact ⟨w, later, v, hrun, hlater, hv, hx, hok, hhold.trans (Prod.mk.inj hmem).2⟩
  · have hmem : ((1 : Nat), true) ∈ later.db.messages.map (fun m => (m.id, m.legalHold)) :=
      hrows ▸ List.mem_singleton_self _
    obtain ⟨m', hm', heq⟩ := List.mem_map.mp hmem
    exact absurd (Prod.mk.inj heq).1 (hgone m' hm')

end World

end MailArchiver

import MailArchiver.Common.KnownAnswers
import MailArchiver.Common.Time

/-!
# ArchiverWorker — Parser

`archiver_worker/parser.py`: a raw mail becomes a `ParsedMail`. The
standard `email` package is a parameter (`EmailPackage`); a message is
what its API answers about it (`Part`), a tree of MIME parts.

Under `policy.default` a header is parsed when it is looked up, and the
parser raises on some values (`From: <`); `message_from_bytes`, the
accessors of a part, `getaddresses` and `get_content` may raise too. So
`parse` is an `Except`: an unreadable mail is an exception of `process`,
not a mail with missing pieces. Only the errors of the date are caught,
and only two kinds of them.
-/

namespace MailArchiver

/-- What the API answers about one MIME part, its subparts aside, or
raises. A file name that no UTF-8 encodes (a lone surrogate, of a utf-7
`filename*`) counts as raised: `process` raises at its row. -/
structure PartInfo where
  /-- The header fields in order: the name as written, and what
  `header_fetch_parse` makes of the value. -/
  headers : List (String × Except PyError String)
  /-- `get_content_type()`. -/
  contentType : Except PyError String
  /-- `get_content_disposition()`. -/
  contentDisposition : Except PyError (Option String)
  /-- `get_filename()`. -/
  filename : Except PyError (Option String)
  /-- `get_payload(decode=True)`. -/
  payload : Except PyError (Option Bytes)
  /-- `get_content()` of a text part; `none` is a text that no UTF-8
  encodes. -/
  content : Except PyError (Option String)
  deriving DecidableEq, Repr

/-- A MIME part. `is_multipart()` is true of the containers, an attached
message included. -/
inductive Part where
  | leaf (info : PartInfo)
  | container (info : PartInfo) (subparts : List Part)
  deriving Repr

def Part.info : Part → PartInfo
  | .leaf i => i
  | .container i _ => i

def Part.isMultipart : Part → Bool
  | .leaf _ => false
  | .container _ _ => true

mutual
/-- `msg.walk()`: the part, then its subparts, depth first. -/
def Part.walk : Part → List Part
  | .leaf i => [.leaf i]
  | .container i ps => .container i ps :: Part.walkAll ps

def Part.walkAll : List Part → List Part
  | [] => []
  | p :: ps => p.walk ++ Part.walkAll ps
end

namespace Part

/-- `msg[name]`: the first header of that name, case aside. -/
def header (p : Part) (name : String) : Except PyError (Option String) :=
  match p.info.headers.find? fun h => h.1.toLower = name.toLower with
  | none => .ok none
  | some h => h.2.map some

/-- `msg.get(name, "")`, where the lookup has an answer. -/
def headerText (p : Part) (name : String) : String :=
  ((p.header name).toOption.getD none).getD ""

/-- `part.get_content_type()`, where it has an answer. -/
def contentType (p : Part) : String := p.info.contentType.toOption.getD ""

/-- `part.get_content_disposition()`, where it has an answer. -/
def contentDisposition (p : Part) : Option String := p.info.contentDisposition.toOption.getD none

/-- `part.get_filename()`, where it has an answer. -/
def filename (p : Part) : Option String := p.info.filename.toOption.getD none

/-- `part.get_payload(decode=True) or b""`, where it has an answer. -/
def bytes (p : Part) : Bytes := (p.info.payload.toOption.getD none).getD []

/-- `part.get_content()` where it is a text to be encoded: `encode()`
raises on a lone surrogate. -/
def content (p : Part) : Except PyError String := do
  match ← p.info.content with
  | some text => return text
  | none => throw .unicodeEncodeError

end Part

/-- The parts of the standard library `parse` rests on. -/
structure EmailPackage where
  /-- `message_from_bytes(raw, policy=policy.default)`. -/
  messageFromBytes : Bytes → Except PyError Part
  /-- `getaddresses([value])`: pairs of display name and address. -/
  getaddresses : String → Except PyError (List (String × String))
  /-- `parsedate_to_datetime(value)`: the date, and whether it carries a
  time zone. -/
  parsedateToDatetime : String → Except PyError (DateTime × Bool)

/-- The message of a raw mail, where `message_from_bytes` has an answer. -/
def EmailPackage.message (E : EmailPackage) (raw : Bytes) : Part :=
  match E.messageFromBytes raw with
  | .ok msg => msg
  | .error e => .leaf ⟨[], .error e, .error e, .error e, .error e, .error e⟩

structure ParsedAttachment where
  filename : String
  contentType : String
  content : Bytes
  deriving DecidableEq, Repr

structure ParsedMail where
  messageId : String
  date : DateTime
  fromAddr : String
  toAddrs : List String
  ccAddrs : List String
  subject : String
  /-- The indexable text: the text/plain parts, or the first HTML one. -/
  textBody : String
  raw : Bytes
  headersCanonical : Bytes
  attachments : List ParsedAttachment
  deriving DecidableEq, Repr

variable (E : EmailPackage)

/-- `_addresses(value)`: the non-empty addresses of a header value. -/
def addresses (value : Option String) : Except PyError (List String) :=
  match value with
  | none => .ok []
  | some v =>
      if v = "" then .ok []
      else (E.getaddresses v).map fun pairs => (pairs.map (·.2)).filter (· ≠ "")

/-- The headers of the archive fingerprint, in order. -/
def canonicalHeaders : List String :=
  ["Message-ID", "Date", "From", "To", "Cc", "Subject"]

/-- The canonical headers of a mail whose header values are `get`:
`"\n".join(f"{h}: {get(h)}" for h in canonical_headers).encode()`. -/
def canonical (get : String → String) : Bytes :=
  encode ("\n".intercalate (canonicalHeaders.map fun h => h ++ ": " ++ get h))

/-- The same, header by header of a message: a lookup may raise. -/
def Part.headersCanonical (p : Part) : Except PyError Bytes := do
  let lines ← canonicalHeaders.mapM fun h => do
    let value ← p.header h
    return h ++ ": " ++ value.getD ""
  return encode ("\n".intercalate lines)

/-- `s.strip("<>")`. -/
def stripAngles (s : String) : String :=
  let angle := fun c : Char => c = '<' || c = '>'
  String.ofList ((s.toList.dropWhile angle).reverse.dropWhile angle).reverse

/-- What `except (TypeError, ValueError)` catches: the Unicode errors and
`binascii.Error` are `ValueError`s. -/
def PyError.isTypeOrValueError : PyError → Bool
  | .typeError _ | .valueError _ | .unicodeDecodeError | .unicodeEncodeError
  | .binasciiError _ => true
  | _ => false

/-- The `Date` header, a naive one read as UTC, or `now` when it is
missing, or its lookup or its reading raises a `TypeError` or a
`ValueError`. A year out of the range of a C integer is an
`OverflowError`. -/
def mailDate (now : DateTime) (value : Except PyError (Option String)) :
    Except PyError DateTime :=
  let read : Except PyError DateTime := do
    match ← value with
    | none => return now
    | some v =>
        if v = "" then return now
        match ← E.parsedateToDatetime v with
        | (d, true) => return d
        | (d, false) => return d.replaceUtc
  match read with
  | .ok d => .ok d
  | .error e => if e.isTypeOrValueError then .ok now else .error e

/-- Whether a leaf is kept as an attachment. -/
def isAttachment (p : Part) : Bool :=
  p.contentDisposition = some "attachment"
    || (p.filename.any (· ≠ "") && p.contentDisposition ≠ some "inline")

/-- The head of a round of the loop, the same in `parse` and in
`_parse_view`: the content type of a leaf, and whether it is kept. -/
def Part.screen (p : Part) : Except PyError (String × Bool) := do
  let disposition ← p.info.contentDisposition
  let ctype ← p.info.contentType
  if disposition = some "attachment" then return (ctype, true)
  let filename ← p.info.filename
  return (ctype, filename.any (· ≠ "") && disposition ≠ some "inline")

/-- `get_payload(decode=True) or b""`, then `get_filename() or unnamed`. -/
def Part.take (p : Part) (unnamed : String) : Except PyError (Bytes × String) := do
  let payload ← p.info.payload
  let filename ← p.info.filename
  return (payload.getD [], (filename.filter (· ≠ "")).getD unnamed)

/-- The name of an attachment, `unnamed` if it has none. -/
def Part.nameOr (p : Part) (unnamed : String) : String :=
  (p.filename.filter (· ≠ "")).getD unnamed

/-- `part.get_filename() or "unnamed"`, where it has an answer. -/
def attachmentName (p : Part) : String := p.nameOr "unnamed"

/-- What the loop of `parse` has collected. -/
structure Collected where
  attachments : List ParsedAttachment
  textParts : List String
  deriving DecidableEq, Repr

/-- One round of the loop over `msg.walk()`. -/
def collect (acc : Collected) (p : Part) : Except PyError Collected := do
  if p.isMultipart then return acc
  let (ctype, kept) ← p.screen
  if kept then
    let (payload, filename) ← p.take "unnamed"
    return { acc with
      attachments := acc.attachments ++ [{
        filename := filename
        contentType := ctype
        content := payload }] }
  else if ctype = "text/plain" then
    let content ← p.content
    return { acc with textParts := acc.textParts ++ [content] }
  else if ctype = "text/html" ∧ acc.textParts = [] then
    let content ← p.content
    return { acc with textParts := acc.textParts ++ [content] }
  else return acc

/-- `parse(raw)`, at the time `now`. -/
def parse (now : DateTime) (raw : Bytes) : Except PyError ParsedMail := do
  let msg ← E.messageFromBytes raw
  let date ← mailDate E now (msg.header "Date")
  let acc ← msg.walk.foldlM collect { attachments := [], textParts := [] }
  let headersCanonical ← msg.headersCanonical
  let messageId ← msg.header "Message-ID"
  let fromAddrs ← addresses E (← msg.header "From")
  let toAddrs ← addresses E (← msg.header "To")
  let ccAddrs ← addresses E (← msg.header "Cc")
  let subject ← msg.header "Subject"
  return {
    messageId := stripAngles (messageId.getD "")
    date := date
    fromAddr := fromAddrs.headD ""
    toAddrs := toAddrs
    ccAddrs := ccAddrs
    subject := subject.getD ""
    textBody := "\n".intercalate acc.textParts
    raw := raw
    headersCanonical := headersCanonical
    attachments := acc.attachments }

/-! ## What a parse has read -/

/-- The lookups of the canonical headers have answers. -/
def Part.HeadersRead (p : Part) : Prop := ∀ h ∈ canonicalHeaders, (p.header h).isOk = true

theorem Part.header_getD {p : Part} {name : String} {v : Option String}
    (h : p.header name = .ok v) : v.getD "" = p.headerText name := by
  rw [Part.headerText, h]
  rfl

theorem headersCanonical_eq_ok {p : Part} {b : Bytes} :
    p.headersCanonical = .ok b ↔ p.HeadersRead ∧ canonical p.headerText = b := by
  have hline : ∀ h ∈ canonicalHeaders, (p.header h).isOk = true →
      (do
        let value ← p.header h
        return h ++ ": " ++ value.getD "" : Except PyError String)
        = .ok (h ++ ": " ++ p.headerText h) := by
    intro h _ hok
    obtain ⟨v, hv⟩ := isOk_iff.mp hok
    rw [hv, ← Part.header_getD hv]
    rfl
  rw [Part.headersCanonical, bind_eq_ok]
  constructor
  · rintro ⟨lines, hlines, hb⟩
    have hread : p.HeadersRead := by
      intro h hh
      obtain ⟨line, hok⟩ := isOk_iff.mp (isOk_of_mapM hlines h hh)
      obtain ⟨v, hv, -⟩ := bind_eq_ok.mp hok
      exact isOk_iff.mpr ⟨v, hv⟩
    rw [mapM_eq_ok fun h hh => hline h hh (hread h hh)] at hlines
    cases hlines
    exact ⟨hread, pure_eq_ok.mp hb⟩
  · rintro ⟨hread, hb⟩
    exact ⟨_, mapM_eq_ok fun h hh => hline h hh (hread h hh), pure_eq_ok.mpr hb⟩

/-- An absent header has no addresses, nor has an empty one. -/
theorem addresses_getD (value : Option String) :
    addresses E value = addresses E (some (value.getD "")) := by
  cases value <;> rfl

/-- What a parse returns, and what it has asked the package for. -/
structure Parsed (now : DateTime) (raw : Bytes) (mail : ParsedMail) (textParts : List String) :
    Prop where
  message : E.messageFromBytes raw = .ok (E.message raw)
  date : mailDate E now ((E.message raw).header "Date") = .ok mail.date
  loop : (E.message raw).walk.foldlM collect { attachments := [], textParts := [] } =
    .ok { attachments := mail.attachments, textParts := textParts }
  headers : (E.message raw).HeadersRead
  fromAddrs : (addresses E (some ((E.message raw).headerText "From"))).map (·.headD "") =
    .ok mail.fromAddr
  toAddrs : addresses E (some ((E.message raw).headerText "To")) = .ok mail.toAddrs
  ccAddrs : addresses E (some ((E.message raw).headerText "Cc")) = .ok mail.ccAddrs
  messageId : mail.messageId = stripAngles ((E.message raw).headerText "Message-ID")
  subject : mail.subject = (E.message raw).headerText "Subject"
  textBody : mail.textBody = "\n".intercalate textParts
  kept : mail.raw = raw
  headersCanonical : mail.headersCanonical = canonical (E.message raw).headerText

variable {E}

theorem message_eq {raw : Bytes} {msg : Part} (h : E.messageFromBytes raw = .ok msg) :
    E.message raw = msg := by
  rw [EmailPackage.message, h]

/-- **When `parse` returns, and what.** -/
theorem parse_eq_ok {now : DateTime} {raw : Bytes} {mail : ParsedMail} :
    parse E now raw = .ok mail ↔ ∃ textParts, Parsed E now raw mail textParts := by
  have haddr : ∀ {name : String} {v : Option String} {addrs : List String},
      (E.message raw).header name = .ok v → (addresses E v = .ok addrs ↔
        addresses E (some ((E.message raw).headerText name)) = .ok addrs) := by
    intro name v addrs hv
    rw [addresses_getD, Part.header_getD hv]
  simp only [parse, bind_eq_ok, pure_eq_ok]
  constructor
  · rintro ⟨msg, hmsg, date, hdate, acc, hacc, canon, hcanon, id, hid, from', hfrom, fromAddrs,
      hfroms, to', hto, toAddrs, htos, cc', hcc, ccAddrs, hccs, subject, hsubject, rfl⟩
    obtain rfl := message_eq hmsg
    obtain ⟨hread, rfl⟩ := headersCanonical_eq_ok.mp hcanon
    refine ⟨acc.textParts, hmsg, hdate, hacc, hread, ?_, (haddr hto).mp htos, (haddr hcc).mp hccs, ?_,
      ?_, rfl, rfl, rfl⟩
    · rw [(haddr hfrom).mp hfroms]
      rfl
    · rw [← Part.header_getD hid]
    · exact Part.header_getD hsubject
  · rintro ⟨textParts, h⟩
    have hlookup : ∀ name ∈ canonicalHeaders, ∃ v, (E.message raw).header name = .ok v :=
      fun name hname => isOk_iff.mp (h.headers name hname)
    obtain ⟨id, hid⟩ := hlookup "Message-ID" (by decide)
    obtain ⟨from', hfrom⟩ := hlookup "From" (by decide)
    obtain ⟨to', hto⟩ := hlookup "To" (by decide)
    obtain ⟨cc', hcc⟩ := hlookup "Cc" (by decide)
    obtain ⟨subject, hsubject⟩ := hlookup "Subject" (by decide)
    obtain ⟨fromAddrs, hfroms, hhead⟩ := map_eq_ok.mp h.fromAddrs
    refine ⟨_, h.message, _, h.date, _, h.loop, _, headersCanonical_eq_ok.mpr ⟨h.headers, rfl⟩, _, hid,
      _, hfrom, _, (haddr hfrom).mpr hfroms, _, hto, _, (haddr hto).mpr h.toAddrs, _, hcc, _,
      (haddr hcc).mpr h.ccAddrs, _, hsubject, ?_⟩
    cases mail
    simp only [ParsedMail.mk.injEq, true_and, and_true]
    exact ⟨(Part.header_getD hid ▸ h.messageId).symm, hhead,
      (Part.header_getD hsubject).trans h.subject.symm, h.textBody.symm, h.kept.symm,
      h.headersCanonical.symm⟩

/-- The raw bytes themselves are kept. -/
theorem parse_raw {now : DateTime} {raw : Bytes} {mail : ParsedMail}
    (h : parse E now raw = .ok mail) : mail.raw = raw := by
  obtain ⟨textParts, hparsed⟩ := parse_eq_ok.mp h
  exact hparsed.kept

/-- A header that is there and not empty is read, or its error caught. -/
theorem mailDate_isOk {now : DateTime} {v : Option String} :
    (mailDate E now (.ok v)).isOk = true ↔ (v.getD "" ≠ "" → ∀ e,
      E.parsedateToDatetime (v.getD "") = .error e → e.isTypeOrValueError = true) := by
  cases v with
  | none => simp [mailDate, bind, Except.bind, pure, Except.pure, Except.isOk, Except.toBool]
  | some v =>
      by_cases hempty : v = ""
      · simp [mailDate, hempty, bind, Except.bind, pure, Except.pure, Except.isOk, Except.toBool]
      · cases hread : E.parsedateToDatetime v with
        | ok read =>
            obtain ⟨date, _ | _⟩ := read <;>
              simp [mailDate, hempty, hread, bind, Except.bind, pure, Except.pure, Except.isOk,
                Except.toBool]
        | error e =>
            cases htype : e.isTypeOrValueError <;>
              simp [mailDate, hempty, hread, htype, bind, Except.bind, Except.isOk, Except.toBool]

/-- Whether the date can be taken does not depend on the clock. -/
theorem mailDate_again {now now' d : DateTime} {value : Except PyError (Option String)}
    (h : mailDate E now value = .ok d) : ∃ d', mailDate E now' value = .ok d' := by
  cases value with
  | error e =>
      simp only [mailDate, bind, Except.bind] at h ⊢
      split at h
      · rename_i htype
        exact ⟨now', if_pos htype⟩
      · cases h
  | ok v => exact isOk_iff.mp (mailDate_isOk.mpr (mailDate_isOk.mp (isOk_iff.mpr ⟨d, h⟩)))

/-- A second parse differs from the first in its date alone. -/
theorem parse_again {now now' : DateTime} {raw : Bytes} {mail : ParsedMail}
    (h : parse E now raw = .ok mail) :
    ∃ date, mailDate E now' ((E.message raw).header "Date") = .ok date
      ∧ parse E now' raw = .ok { mail with date := date } := by
  obtain ⟨textParts, hparsed⟩ := parse_eq_ok.mp h
  obtain ⟨date, hdate⟩ := @mailDate_again E now now' _ _ hparsed.date
  exact ⟨date, hdate, parse_eq_ok.mpr ⟨textParts, { hparsed with date := hdate }⟩⟩

/-! ## The sample mails -/

/-- A part whose accessors all have answers; `get_content` of a container
raises. -/
def PartInfo.reading (headers : List (String × String)) (contentType : String)
    (contentDisposition filename content : Option String) : PartInfo where
  headers := headers.map fun h => (h.1, .ok h.2)
  contentType := .ok contentType
  contentDisposition := .ok contentDisposition
  filename := .ok filename
  payload := .ok (content.map encode)
  content :=
    match content with
    | some text => .ok (some text)
    | none => .error (.keyError contentType)

/-- What the email package answers about the samples. -/
def samplePart (raw : Bytes) : Part :=
  let text := fun (headers : List (String × String)) (disposition : Option String)
      (content : String) =>
    Part.leaf (.reading headers "text/plain" disposition none (some content))
  let attached := fun (subject content : String) => Part.container
    (.reading [("Subject", subject), ("Content-Type", "multipart/mixed; boundary=\"b\"")]
      "multipart/mixed" none none none)
    [text [("Content-Disposition", "attachment")] (some "attachment") content]
  if raw = plainMail then text [("Subject", "a")] none "x"
  else if raw = tracedMail then text [("Subject", "a"), ("X-Trace", "1")] none "x"
  else if raw = capitalMail then text [("From", "Bob@x.fr")] none "x"
  else if raw = wrapperMail then attached "m" plainInput
  else if raw = attachmentMail "s" "z" then attached "s" "z"
  else if raw = attachmentMail "t" "z" then attached "t" "z"
  else text [] none ""

/-- No sample has a `Date` header, one has an address. -/
def sampleEmail : EmailPackage where
  messageFromBytes := fun raw => .ok (samplePart raw)
  getaddresses := fun v => .ok (if v = "Bob@x.fr" then [("", v)] else [])
  parsedateToDatetime := fun _ => .error (.valueError "Invalid date value or format")

end MailArchiver

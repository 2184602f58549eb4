import MailArchiver.ArchiverWorker.Job

/-!
# ArchiverWorker — Coverage

What of a message the archive signature covers. The fingerprint is fed
with the canonical headers, the attachments and `text_body`, and
`text_body` is the text the index wants: the text/plain parts, and an
HTML part only when no text came before it. A leaf that is neither an
attachment nor part of that text leaves no trace in the fingerprint
(`changed_leaf_signed_iff`).
-/

namespace MailArchiver

/-- The content of a leaf. -/
inductive Decoded where
  | text (s : String)
  | binary (b : Bytes)
  deriving DecidableEq, Repr

namespace Part

/-- The parts of a message that hold content, in the order of `walk`. -/
def leaves (p : Part) : List Part := p.walk.filter (!·.isMultipart)

theorem isMultipart_of_mem_leaves {p : Part} : ∀ q ∈ p.leaves, q.isMultipart = false :=
  fun _ hq => by simpa using (List.mem_filter.mp hq).2

/-- The string `part.get_content()` returns. -/
def text (p : Part) : String := p.content.toOption.getD ""

/-- The decoded content of a leaf: a string for a text of the message
itself, bytes for anything else. -/
def decoded (p : Part) : Decoded :=
  if isAttachment p = false
      ∧ (p.contentType = "text/plain" ∨ p.contentType = "text/html")
      ∧ p.content.isOk then .text p.text
  else .binary p.bytes

/-- Whether the loop of `parse` appends a leaf to `text_parts`, `seen`
when `text_parts` is not empty. -/
def entersBody (seen : Bool) (p : Part) : Bool :=
  !isAttachment p
    && (p.contentType = "text/plain" || (p.contentType = "text/html" && !seen))

/-- The leaves appended to `text_parts`. -/
def bodyLeaves (seen : Bool) : List Part → List Part
  | [] => []
  | p :: ps => if p.entersBody seen then p :: bodyLeaves true ps else bodyLeaves seen ps

/-- `text_body` of a message. -/
def bodyText (p : Part) : String := "\n".intercalate ((bodyLeaves false p.leaves).map text)

/-- The entry of a leaf in `attachments`. -/
def toAttachment (p : Part) : ParsedAttachment where
  filename := attachmentName p
  contentType := p.contentType
  content := p.bytes

/-- The contents of the attachments of a message. -/
def attachedContents (p : Part) : List Bytes := (p.leaves.filter isAttachment).map bytes

/-- The leaves that are not attachments. -/
def unattached (p : Part) : List Part := p.leaves.filter (!isAttachment ·)

/-- Two messages with the same canonical headers, the same text body and
the same attachments, whose other leaves have not the same contents: a
leaf outside `text_body` differs, or the texts are cut otherwise. -/
structure Overlooks (p q : Part) : Prop where
  headers : canonical p.headerText = canonical q.headerText
  text : p.bodyText = q.bodyText
  attached : p.attachedContents.Perm q.attachedContents
  others : ¬ (p.unattached.map decoded).Perm (q.unattached.map decoded)

theorem decoded_of_isAttachment {p : Part} (h : isAttachment p) : p.decoded = .binary p.bytes := by
  simp [decoded, h]

theorem decoded_of_entersBody {seen : Bool} {p : Part} {t : String} (h : p.entersBody seen)
    (ht : p.content = .ok t) : p.decoded = .text t := by
  have hok : p.content.isOk := by rw [ht]; rfl
  have htext : p.text = t := by rw [text, ht]; rfl
  simp only [entersBody, Bool.and_eq_true, Bool.or_eq_true, decide_eq_true_eq,
    Bool.not_eq_true'] at h
  rw [decoded, if_pos ⟨h.1, h.2.imp_right And.left, hok⟩, htext]

theorem bodyLeaves_append (seen : Bool) (ps qs : List Part) :
    bodyLeaves seen (ps ++ qs)
      = bodyLeaves seen ps ++ bodyLeaves (seen || !(bodyLeaves seen ps).isEmpty) qs := by
  induction ps generalizing seen with
  | nil => simp [bodyLeaves]
  | cons p ps ih =>
      by_cases h : p.entersBody seen = true
      · simp [bodyLeaves, h, ih]
      · simp [bodyLeaves, h, ih]

/-- The contents of the leaves, the attachments first. -/
theorem leaves_perm (p : Part) :
    (p.leaves.map decoded).Perm
      (p.attachedContents.map Decoded.binary ++ p.unattached.map decoded) := by
  have hatt : p.attachedContents.map Decoded.binary = (p.leaves.filter isAttachment).map decoded := by
    rw [attachedContents, List.map_map]
    refine List.map_congr_left fun l hl => ?_
    exact (decoded_of_isAttachment (List.mem_filter.mp hl).2).symm
  rw [hatt, unattached, ← List.map_append]
  exact ((List.filter_append_perm isAttachment p.leaves).map decoded).symm

end Part

/-! ## The loop of `parse` on the leaves -/

theorem foldlM_collect_leaves (ps : List Part) (acc : Collected) :
    ps.foldlM collect acc = (ps.filter (!·.isMultipart)).foldlM collect acc := by
  induction ps generalizing acc with
  | nil => rfl
  | cons p ps ih =>
      by_cases hp : p.isMultipart = true
      · rw [List.foldlM_cons, List.filter_cons_of_neg (by simp [hp])]
        have hskip : collect acc p = .ok acc := if_pos hp
        rw [hskip]
        exact ih acc
      · rw [List.filter_cons_of_pos (by simp [hp]), List.foldlM_cons, List.foldlM_cons]
        exact congrArg _ (funext ih)

/-- What a round of the loop asks of a leaf, `get_content` aside, has an
answer. -/
structure Part.Answers (p : Part) : Prop where
  contentDisposition : p.info.contentDisposition.isOk = true
  contentType : p.info.contentType.isOk = true
  filename : p.info.filename.isOk = true
  payload : isAttachment p = true → p.info.payload.isOk = true

theorem Part.screen_eq_ok {p : Part} {r : String × Bool} : p.screen = .ok r ↔
    p.info.contentDisposition.isOk = true ∧ p.info.contentType.isOk = true
      ∧ (p.contentDisposition ≠ some "attachment" → p.info.filename.isOk = true)
      ∧ (p.contentType, isAttachment p) = r := by
  rw [screen, bind_eq_ok, isOk_iff, isOk_iff, isOk_iff]
  constructor
  · rintro ⟨disposition, hdisp, h⟩
    obtain ⟨ctype, hctype, h⟩ := bind_eq_ok.mp h
    have hd : p.contentDisposition = disposition := by rw [contentDisposition, hdisp]; rfl
    have hc : p.contentType = ctype := by rw [contentType, hctype]; rfl
    refine ⟨⟨_, hdisp⟩, ⟨_, hctype⟩, ?_⟩
    rw [isAttachment, hd, hc]
    split at h
    · rename_i hatt
      refine ⟨fun hne => absurd hatt hne, ?_⟩
      rw [← pure_eq_ok.mp h, hatt]
      simp
    · rename_i hatt
      obtain ⟨filename, hname, h⟩ := bind_eq_ok.mp h
      have hf : p.filename = filename := by rw [Part.filename, hname]; rfl
      refine ⟨fun _ => ⟨_, hname⟩, ?_⟩
      rw [← pure_eq_ok.mp h, hf]
      simp [hatt]
  · rintro ⟨⟨disposition, hdisp⟩, ⟨ctype, hctype⟩, hname, rfl⟩
    have hd : p.contentDisposition = disposition := by rw [contentDisposition, hdisp]; rfl
    have hc : p.contentType = ctype := by rw [contentType, hctype]; rfl
    refine ⟨disposition, hdisp, bind_eq_ok.mpr ⟨ctype, hctype, ?_⟩⟩
    rw [isAttachment, hd, hc]
    rw [hd] at hname
    by_cases hatt : disposition = some "attachment"
    · rw [if_pos hatt, hatt]
      simp [pure_eq_ok]
    · obtain ⟨filename, hname⟩ := hname hatt
      have hf : p.filename = filename := by rw [Part.filename, hname]; rfl
      rw [if_neg hatt]
      refine bind_eq_ok.mpr ⟨filename, hname, ?_⟩
      rw [hf]
      simp [hatt, pure_eq_ok]

theorem Part.take_eq_ok {p : Part} {unnamed : String} {r : Bytes × String} :
    p.take unnamed = .ok r ↔ p.info.payload.isOk = true ∧ p.info.filename.isOk = true
      ∧ (p.bytes, p.nameOr unnamed) = r := by
  rw [take, bind_eq_ok, isOk_iff, isOk_iff]
  constructor
  · rintro ⟨payload, hpayload, h⟩
    obtain ⟨filename, hname, h⟩ := bind_eq_ok.mp h
    refine ⟨⟨_, hpayload⟩, ⟨_, hname⟩, ?_⟩
    rw [← pure_eq_ok.mp h, bytes, nameOr, Part.filename, hpayload, hname]
    rfl
  · rintro ⟨⟨payload, hpayload⟩, ⟨filename, hname⟩, rfl⟩
    refine ⟨payload, hpayload, bind_eq_ok.mpr ⟨filename, hname, pure_eq_ok.mpr ?_⟩⟩
    rw [bytes, nameOr, Part.filename, hpayload, hname]
    rfl

/-- A round on a leaf: it goes on by the type if the leaf is not kept. -/
theorem Part.round_eq_ok {α : Type} {p : Part} {unnamed : String}
    {kept : String → Bytes × String → α} {other : String → Except PyError α} {r : α} :
    (p.screen >>= fun x => if x.2 then p.take unnamed >>= fun taken => pure (kept x.1 taken)
      else other x.1) = .ok r ↔
    p.Answers ∧ (if isAttachment p then .ok (kept p.contentType (p.bytes, p.nameOr unnamed))
      else other p.contentType) = .ok r := by
  rw [bind_eq_ok]
  constructor
  · rintro ⟨screened, hscreen, h⟩
    obtain ⟨hdisp, hctype, hname, rfl⟩ := screen_eq_ok.mp hscreen
    by_cases hatt : isAttachment p = true
    · simp only [hatt, if_true] at h ⊢
      obtain ⟨taken, htake, h⟩ := bind_eq_ok.mp h
      obtain ⟨hpayload, hname, rfl⟩ := take_eq_ok.mp htake
      exact ⟨⟨hdisp, hctype, hname, fun _ => hpayload⟩, h⟩
    · simp only [hatt, Bool.false_eq_true, if_false] at h ⊢
      refine ⟨⟨hdisp, hctype, hname fun heq => hatt ?_, fun hatt' => absurd hatt' hatt⟩, h⟩
      simp [isAttachment, heq]
  · rintro ⟨hans, h⟩
    refine ⟨_, screen_eq_ok.mpr ⟨hans.contentDisposition, hans.contentType, fun _ => hans.filename,
      rfl⟩, ?_⟩
    by_cases hatt : isAttachment p = true
    · simp only [hatt, if_true] at h ⊢
      exact bind_eq_ok.mpr ⟨_, take_eq_ok.mpr ⟨hans.payload hatt, hans.filename, rfl⟩, h⟩
    · simp only [hatt, Bool.false_eq_true, if_false] at h ⊢
      exact h

/-- What one leaf does to the loop's collections. -/
theorem collect_leaf {acc r : Collected} {p : Part} (hleaf : p.isMultipart = false) :
    collect acc p = .ok r ↔ p.Answers ∧
      (if isAttachment p then .ok { acc with attachments := acc.attachments ++ [p.toAttachment] }
      else if p.entersBody (!acc.textParts.isEmpty) then
        p.content.map fun t => { acc with textParts := acc.textParts ++ [t] }
      else .ok acc : Except PyError Collected) = .ok r := by
  let kept := fun (ctype : String) (taken : Bytes × String) =>
    ({ acc with attachments := acc.attachments ++ [⟨taken.2, ctype, taken.1⟩] } : Collected)
  let other := fun (ctype : String) =>
    if ctype = "text/plain" then
      p.content.map fun t => { acc with textParts := acc.textParts ++ [t] }
    else if ctype = "text/html" ∧ acc.textParts = [] then
      p.content.map fun t => { acc with textParts := acc.textParts ++ [t] }
    else (.ok acc : Except PyError Collected)
  have hround : collect acc p = (p.screen >>= fun x =>
      if x.2 then p.take "unnamed" >>= fun taken => pure (kept x.1 taken) else other x.1) := by
    rw [collect, if_neg (by simp [hleaf])]
    rfl
  rw [hround]
  refine (@Part.round_eq_ok _ p "unnamed" kept other r).trans (and_congr_right fun _ => ?_)
  simp only [kept, other]
  by_cases hatt : isAttachment p = true
  · rw [if_pos hatt, if_pos hatt]
    rfl
  · rw [if_neg hatt, if_neg hatt]
    by_cases hplain : p.contentType = "text/plain"
    · rw [if_pos hplain, if_pos (by simp [Part.entersBody, hatt, hplain])]
    · rw [if_neg hplain]
      by_cases hhtml : p.contentType = "text/html" ∧ acc.textParts = []
      · rw [if_pos hhtml, if_pos (by simp [Part.entersBody, hatt, hhtml.1, hhtml.2])]
      · rw [if_neg hhtml, if_neg]
        simpa [Part.entersBody, hatt, hplain] using hhtml

/-- **What the loop collects from some leaves**: the attachments and the
texts of the body, each in order; it raises on a leaf without answers and
on an unreadable text. -/
theorem foldlM_collect {ps : List Part} {acc r : Collected}
    (hleaf : ∀ p ∈ ps, p.isMultipart = false) :
    ps.foldlM collect acc = .ok r ↔
      (∀ p ∈ ps, p.Answers) ∧
      (∀ p ∈ Part.bodyLeaves (!acc.textParts.isEmpty) ps, p.content = .ok p.text) ∧
      r = { attachments := acc.attachments ++ (ps.filter isAttachment).map Part.toAttachment
            textParts :=
              acc.textParts ++ (Part.bodyLeaves (!acc.textParts.isEmpty) ps).map Part.text } := by
  induction ps generalizing acc with
  | nil => simp [Part.bodyLeaves, pure, Except.pure, eq_comm]
  | cons p ps ih =>
      obtain ⟨hp, hps⟩ := List.forall_mem_cons.mp hleaf
      simp only [List.foldlM_cons, bind_eq_ok, collect_leaf hp, List.forall_mem_cons, and_assoc,
        exists_and_left, Part.bodyLeaves]
      refine and_congr_right fun _ => ?_
      by_cases hatt : isAttachment p = true
      · -- an attachment: `text_parts` is as before
        have hbody : p.entersBody (!acc.textParts.isEmpty) = false := by
          simp [Part.entersBody, hatt]
        rw [List.filter_cons_of_pos hatt]
        simp [ih hps, hatt, hbody]
      · simp only [hatt, Bool.false_eq_true, if_false, List.filter_cons_of_neg hatt]
        by_cases hbody : p.entersBody (!acc.textParts.isEmpty) = true
        · -- a text: from here on `text_parts` is not empty
          simp only [hbody, if_true]
          cases hc : p.content with
          | error e => simp [Except.map, hc]
          | ok t =>
              have ht : p.text = t := by rw [Part.text, hc]; rfl
              have hseen : (!(acc.textParts ++ [t]).isEmpty) = true := by simp
              simp only [Except.map, Except.ok.injEq, exists_eq_left', ih hps, hseen,
                List.forall_mem_cons, hc, ht, List.map_cons, List.append_assoc,
                List.cons_append, List.nil_append, true_and]
        · simp only [hbody]
          simp [ih hps]

theorem content_eq_text_iff {p : Part} :
    p.content = .ok p.text ↔ p.content.isOk = true := by
  rw [Part.text]
  cases p.content with
  | error e => simp [Except.isOk, Except.toBool]
  | ok t => simp [Except.isOk, Except.toBool, Except.toOption]

/-- What `parse` keeps of the parts, where it succeeds. -/
theorem parse_parts {E : EmailPackage} {now : DateTime} {raw : Bytes} {mail : ParsedMail}
    (h : parse E now raw = .ok mail) :
    mail.attachments = ((E.message raw).leaves.filter isAttachment).map Part.toAttachment
      ∧ mail.textBody = (E.message raw).bodyText
      ∧ (∀ p ∈ (E.message raw).leaves, p.Answers)
      ∧ ∀ p ∈ Part.bodyLeaves false (E.message raw).leaves, p.content = .ok p.text := by
  obtain ⟨textParts, hparsed⟩ := parse_eq_ok.mp h
  have hloop := hparsed.loop
  rw [foldlM_collect_leaves] at hloop
  obtain ⟨hans, hread, hacc⟩ := (foldlM_collect Part.isMultipart_of_mem_leaves).mp hloop
  obtain ⟨hatts, htexts⟩ := Collected.mk.injEq .. ▸ hacc
  refine ⟨hatts, ?_, hans, hread⟩
  rw [hparsed.textBody, htexts]
  rfl

/-- `From: <`: its lookup raises, which nothing catches. -/
example :
    parse
      { messageFromBytes := fun _ => .ok (.leaf
          { PartInfo.reading [] "text/plain" none none (some "x") with
            headers := [("From", .error (.indexError "string index out of range"))] })
        getaddresses := fun _ => .ok []
        parsedateToDatetime := fun _ => .error (.valueError "") }
      sampleTime (encode "From: <\n\nx") = .error (.indexError "string index out of range") := by
  decide +kernel

/-- `parse` keeps the attachments' contents and the text body. -/
theorem parse_content {E : EmailPackage} {now : DateTime} {raw : Bytes} {mail : ParsedMail}
    (h : parse E now raw = .ok mail) :
    mail.attachments.map (·.content) = (E.message raw).attachedContents
      ∧ mail.textBody = (E.message raw).bodyText
      ∧ ∀ p ∈ Part.bodyLeaves false (E.message raw).leaves, p.content = .ok p.text := by
  obtain ⟨hatts, htext, -, hread⟩ := parse_parts h
  refine ⟨?_, htext, hread⟩
  rw [hatts, List.map_map]
  rfl

/-! ## What the signature covers -/

/-- The fingerprint's encoding says what was encoded, for this pair. -/
def MailContent.Unambiguous (P : Primitives) (a b : MailContent) : Prop :=
  a.input P = b.input P →
    canonical a.headers = canonical b.headers ∧ a.hashes P = b.hashes P

variable {env : Env}

namespace Job

/-- The message the job was parsed from. -/
def message (job : Job env) : Part := env.email.message job.mail.raw

/-- The mail as the fingerprint sees it. -/
def content (job : Job env) : MailContent := MailContent.of env.email job.mail

theorem archiveHash_content (job : Job env) :
    job.archiveHash = hex (job.content.fingerprint env.prims) := by
  obtain ⟨now, h⟩ := job.parsed
  exact congrArg hex (parse_fingerprint env.prims h)

theorem content_eq (job : Job env) :
    job.content.attachments = job.message.attachedContents
      ∧ job.content.textBody = job.message.bodyText
      ∧ ∀ p ∈ Part.bodyLeaves false job.message.leaves, p.content = .ok p.text := by
  obtain ⟨now, h⟩ := job.parsed
  exact parse_content h

end Job

/-- Two mails share the archive hash when they agree on what the
fingerprint is fed with, whatever their other leaves hold. -/
theorem archiveHash_eq_iff {a b : Job env}
    (hfree : CollisionFree env.prims (a.content.hashed env.prims ∪ b.content.hashed env.prims))
    (hframe : a.content.Unambiguous env.prims b.content) :
    a.archiveHash = b.archiveHash ↔
      canonical a.message.headerText = canonical b.message.headerText
        ∧ a.message.bodyText = b.message.bodyText
        ∧ a.message.attachedContents.Perm b.message.attachedContents := by
  have hinput : a.archiveHash = b.archiveHash ↔
      a.content.input env.prims = b.content.input env.prims := by
    rw [a.archiveHash_content, b.archiveHash_content, hex_inj]
    exact hfree.inj.eq_iff (.inl (.inl rfl)) (.inr (.inl rfl))
  have hparts : a.content.input env.prims = b.content.input env.prims ↔
      canonical a.content.headers = canonical b.content.headers
        ∧ a.content.hashes env.prims = b.content.hashes env.prims := by
    constructor
    · exact hframe
    · rintro ⟨hhead, hhash⟩
      rw [MailContent.input_eq, MailContent.input_eq, hhead, hhash]
  obtain ⟨hatta, hbodya, -⟩ := a.content_eq
  obtain ⟨hattb, hbodyb, -⟩ := b.content_eq
  rw [hinput, hparts, MailContent.hashes_eq_iff hfree, hatta, hbodya, hattb, hbodyb]
  rfl

/-- **The signature covers a pair of mails unless it overlooks what tells
them apart**: for every two messages, one archive hash forces the same
leaf contents exactly when they do not differ in other leaves only. -/
theorem signature_covers_iff {a b : Job env}
    (hfree : CollisionFree env.prims (a.content.hashed env.prims ∪ b.content.hashed env.prims))
    (hframe : a.content.Unambiguous env.prims b.content) :
    (a.archiveHash = b.archiveHash →
        (a.message.leaves.map Part.decoded).Perm (b.message.leaves.map Part.decoded)) ↔
      ¬ a.message.Overlooks b.message := by
  rw [archiveHash_eq_iff hfree hframe]
  have hleaves : a.message.attachedContents.Perm b.message.attachedContents →
      ((a.message.leaves.map Part.decoded).Perm (b.message.leaves.map Part.decoded) ↔
        (a.message.unattached.map Part.decoded).Perm (b.message.unattached.map Part.decoded)) := by
    intro hatt
    have hatt' := hatt.map Decoded.binary
    constructor
    · intro h
      have h' := (a.message.leaves_perm.symm.trans h).trans b.message.leaves_perm
      exact (List.perm_append_left_iff _).mp ((hatt'.append_right _).symm.trans h')
    · intro h
      exact a.message.leaves_perm.trans ((hatt'.append h).trans b.message.leaves_perm.symm)
  constructor
  · intro hcov hover
    exact hover.others ((hleaves hover.attached).mp
      (hcov ⟨hover.headers, hover.text, hover.attached⟩))
  · rintro hnot ⟨hhead, htext, hatt⟩
    refine (hleaves hatt).mpr ?_
    by_contra hothers
    exact hnot ⟨hhead, htext, hatt, hothers⟩

/-! ## One changed leaf -/

/-- `q` is `p` with the content of one leaf changed. -/
structure Part.ChangesLeaf (p q : Part) (before : List Part) (l l' : Part)
    (after : List Part) : Prop where
  headers : p.info.headers = q.info.headers
  leaves : p.leaves = before ++ l :: after
  leaves' : q.leaves = before ++ l' :: after
  contentType : l.info.contentType = l'.info.contentType
  contentDisposition : l.info.contentDisposition = l'.info.contentDisposition
  filename : l.info.filename = l'.info.filename
  decoded : l.decoded ≠ l'.decoded

/-- Joining texts of which one changes gives another text. -/
theorem intercalate_middle (sep : String) (before after : List String) :
    ∃ u v, ∀ t, sep.intercalate (before ++ t :: after) = u ++ t ++ v := by
  have hafter : ∃ v, ∀ t, sep.intercalate (t :: after) = t ++ v := by
    by_cases h : after = []
    · exact ⟨"", fun t => by simp [h]⟩
    · exact ⟨sep ++ sep.intercalate after, fun t => by
        rw [String.intercalate_cons_of_ne_nil h, String.append_assoc]⟩
  obtain ⟨v, hv⟩ := hafter
  by_cases h : before = []
  · exact ⟨"", v, fun t => by simp [h, hv]⟩
  · exact ⟨sep.intercalate before ++ sep, v, fun t => by
      rw [String.intercalate_append_of_ne_nil h (by simp), hv]
      simp only [String.append_assoc]⟩

/-- **A changed leaf changes the archive hash exactly when it is an
attachment or enters the text body**: a text/plain leaf, or an HTML leaf
that no text leaf precedes. -/
theorem changed_leaf_signed_iff {a b : Job env} {before after : List Part} {l l' : Part}
    (hfree : CollisionFree env.prims (a.content.hashed env.prims ∪ b.content.hashed env.prims))
    (hframe : a.content.Unambiguous env.prims b.content)
    (hchange : a.message.ChangesLeaf b.message before l l' after) :
    a.archiveHash ≠ b.archiveHash ↔
      isAttachment l ∨ l.entersBody (!(Part.bodyLeaves false before).isEmpty) := by
  have hatt : isAttachment l' = isAttachment l := by
    have hdisp : l'.contentDisposition = l.contentDisposition := by
      rw [Part.contentDisposition, Part.contentDisposition, hchange.contentDisposition]
    have hname : l'.filename = l.filename := by
      rw [Part.filename, Part.filename, hchange.filename]
    rw [isAttachment, isAttachment, hdisp, hname]
  have henters : ∀ seen, l'.entersBody seen = l.entersBody seen := by
    intro seen
    have htype : l'.contentType = l.contentType := by
      rw [Part.contentType, Part.contentType, hchange.contentType]
    rw [Part.entersBody, Part.entersBody, hatt, htype]
  -- the headers signed are the same: only the leaf can tell the hashes apart
  have hhead : canonical a.message.headerText = canonical b.message.headerText := by
    refine congrArg canonical (funext fun name => ?_)
    simp only [Part.headerText, Part.header, hchange.headers]
  -- the leaves before decide whether an HTML leaf is read, the leaf itself those after
  have hbody := fun (m : Part) (seen : Bool) => Part.bodyLeaves_append seen before (m :: after)
  rw [ne_eq, archiveHash_eq_iff hfree hframe]
  simp only [hhead, true_and, Part.bodyText, Part.attachedContents, hchange.leaves,
    hchange.leaves', hbody, List.filter_append, List.map_append, Bool.false_or]
  generalize hseen : (!(Part.bodyLeaves false before).isEmpty) = seen
  by_cases hkept : isAttachment l = true
  · -- the attachments differ by this one
    have hkept' := hatt.trans hkept
    simp only [hkept, true_or, iff_true]
    rintro ⟨-, hperm⟩
    rw [List.filter_cons_of_pos hkept, List.filter_cons_of_pos hkept',
      List.perm_append_left_iff, List.map_cons, List.map_cons] at hperm
    have hone : [l.bytes].Perm [l'.bytes] := (List.perm_append_right_iff _).mp hperm
    have hbytes : l.bytes = l'.bytes := by simpa using hone
    refine hchange.decoded ?_
    rw [Part.decoded_of_isAttachment hkept, Part.decoded_of_isAttachment hkept', hbytes]
  · have hkept' : ¬ isAttachment l' = true := by rwa [hatt]
    rw [List.filter_cons_of_neg hkept, List.filter_cons_of_neg hkept']
    simp only [hkept, List.Perm.refl, and_true]
    by_cases hent : l.entersBody seen = true
    · -- the text body differs by this one
      have hent' := (henters seen).trans hent
      simp only [Part.bodyLeaves, hent, hent', if_true, List.map_cons]
      refine iff_of_true (fun hjoin => ?_) (.inr trivial)
      obtain ⟨u, v, huv⟩ := intercalate_middle "\n" ((Part.bodyLeaves false before).map Part.text)
        ((Part.bodyLeaves true after).map Part.text)
      rw [huv, huv] at hjoin
      have htext : l.text = l'.text := by simpa using hjoin
      have hread : ∀ {j : Job env} {m : Part}, j.message.leaves = before ++ m :: after →
          m.entersBody seen = true → m.decoded = .text m.text := by
        intro j m hleaves hm
        refine Part.decoded_of_entersBody hm (j.content_eq.2.2 m ?_)
        rw [hleaves, hbody, List.mem_append, Bool.false_or, hseen]
        simp [Part.bodyLeaves, hm]
      refine hchange.decoded ?_
      rw [hread hchange.leaves hent, hread hchange.leaves' hent', htext]
    · have hent' : ¬ l'.entersBody seen = true := by rwa [henters]
      simp [Part.bodyLeaves, hent, hent']

/-! ## An HTML alternative -/

/-- A mail with a text and an HTML version of it. -/
def alternativeMail (html : String) : Bytes :=
  encode ("Subject: a\nContent-Type: multipart/alternative; boundary=b\n\n--b\n"
    ++ "Content-Type: text/plain\n\nx\n--b\nContent-Type: text/html\n\n" ++ html ++ "\n--b--\n")

def alternativePart (html : String) : Part :=
  let version := fun (contentType content : String) =>
    Part.leaf (.reading [("Content-Type", contentType)] contentType none none (some content))
  .container
    (.reading [("Subject", "a"), ("Content-Type", "multipart/alternative; boundary=\"b\"")]
      "multipart/alternative" none none none)
    [version "text/plain" "x", version "text/html" html]

/-- The email package on two such mails. -/
def alternativeEnv : Env where
  prims := sampleAnswers.primitives
  email := { sampleEmail with
    messageFromBytes := fun raw =>
      if raw = alternativeMail "<b>1</b>" then .ok (alternativePart "<b>1</b>")
      else .ok (alternativePart "<b>2</b>") }
  indexBase := "messages"

/-- `parse` of such a mail, up to its raw bytes. -/
def alternativeParsed (html : String) : ParsedMail where
  messageId := ""
  date := sampleTime
  fromAddr := ""
  toAddrs := []
  ccAddrs := []
  subject := "a"
  textBody := "x"
  raw := alternativeMail html
  headersCanonical := encode (sampleInput "a" "")
  attachments := []

def invoice1 : Job alternativeEnv where
  mail := alternativeParsed "<b>1</b>"
  signedAt := sampleTime
  parsed := ⟨sampleTime, by decide +kernel⟩

def invoice2 : Job alternativeEnv where
  mail := alternativeParsed "<b>2</b>"
  signedAt := sampleTime
  parsed := ⟨sampleTime, by decide +kernel⟩

theorem invoices_collisionFree : CollisionFree alternativeEnv.prims
    (invoice1.content.hashed alternativeEnv.prims
      ∪ invoice2.content.hashed alternativeEnv.prims) := by
  refine CollisionFree.of_list [encode plainInput, encode "x"] ?_ (by decide +kernel)
  have h₁ : invoice1.content.input alternativeEnv.prims = encode plainInput := by decide +kernel
  have h₂ : invoice2.content.input alternativeEnv.prims = encode plainInput := by decide +kernel
  rintro b ((rfl | rfl | hb) | (rfl | rfl | hb))
  · simp [h₁]
  · simp [invoice1, Job.content, MailContent.of, alternativeParsed]
  · simp [invoice1, Job.content, MailContent.of, alternativeParsed] at hb
  · simp [h₂]
  · simp [invoice2, Job.content, MailContent.of, alternativeParsed]
  · simp [invoice2, Job.content, MailContent.of, alternativeParsed] at hb

theorem invoices_unambiguous :
    invoice1.content.Unambiguous alternativeEnv.prims invoice2.content :=
  fun _ => by decide +kernel

/-- Two mails that differ in their HTML version only: one archive hash,
without any collision. -/
theorem signature_overlooks_html :
    CollisionFree alternativeEnv.prims (invoice1.content.hashed alternativeEnv.prims
        ∪ invoice2.content.hashed alternativeEnv.prims)
      ∧ invoice1.content.Unambiguous alternativeEnv.prims invoice2.content
      ∧ invoice1.archiveHash = invoice2.archiveHash
      ∧ ¬ (invoice1.message.leaves.map Part.decoded).Perm
          (invoice2.message.leaves.map Part.decoded) :=
  ⟨invoices_collisionFree, invoices_unambiguous, by decide +kernel, by decide +kernel⟩

theorem signature_covers_invoices :
    (invoice1.archiveHash = invoice2.archiveHash →
        (invoice1.message.leaves.map Part.decoded).Perm
          (invoice2.message.leaves.map Part.decoded)) ↔
      ¬ invoice1.message.Overlooks invoice2.message :=
  signature_covers_iff invoices_collisionFree invoices_unambiguous

end MailArchiver

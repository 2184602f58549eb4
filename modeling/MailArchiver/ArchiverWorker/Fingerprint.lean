import MailArchiver.Lib.Blocks
import MailArchiver.ArchiverWorker.Parser
import Mathlib.Data.List.Perm.Basic
import Mathlib.Logic.Function.Basic

/-!
# ArchiverWorker — Fingerprint

What the archive fingerprint says about a mail. The bytes it hashes are
the canonical headers, whose length is free, followed by one hash block
for the body and one for each attachment. Nothing marks where the
headers end, so two different mails share a fingerprint exactly when one
mail's headers end in the very blocks the other one hashes next
(`Swallows`), or when two header lists join to one text
(`HeadersBlur`).
-/

namespace MailArchiver

variable (P : Primitives)

/-- A mail as the fingerprint sees it: the value of each canonical
header, the text body, the attachment contents. -/
structure MailContent where
  headers : String → String
  textBody : String
  attachments : List Bytes

namespace MailContent

/-- The hashes behind the headers, in the order they are fed. -/
def hashes (m : MailContent) : List String :=
  contentHash P (encode m.textBody) :: sorted (m.attachments.map (contentHash P))

/-- What SHA-256 is run on last. -/
def input (m : MailContent) : Bytes :=
  fingerprintInput (canonical m.headers) (contentHash P (encode m.textBody))
    (m.attachments.map (contentHash P))

/-- `archive_fingerprint` of the mail. -/
def fingerprint (m : MailContent) : Bytes :=
  archiveFingerprint P (canonical m.headers) (contentHash P (encode m.textBody))
    (m.attachments.map (contentHash P))

/-- Every byte string hashed on the way to the fingerprint. -/
def hashed (m : MailContent) : Set Bytes :=
  {b | b = m.input P ∨ b = encode m.textBody ∨ b ∈ m.attachments}

/-- Equal canonical headers, equal bodies, equal multisets of attachments. -/
def Same (a b : MailContent) : Prop :=
  (∀ h ∈ canonicalHeaders, a.headers h = b.headers h)
    ∧ a.textBody = b.textBody
    ∧ a.attachments.Perm b.attachments

/-- Two header lists that differ join to one text, in mails that agree on
everything else. -/
def HeadersBlur (a b : MailContent) : Prop :=
  canonical a.headers = canonical b.headers
    ∧ (∃ h ∈ canonicalHeaders, a.headers h ≠ b.headers h)
    ∧ a.textBody = b.textBody
    ∧ a.attachments.Perm b.attachments

/-- The canonical headers of `a` are those of `b` followed by the first
`k ≥ 1` hashes of `b` (its body's and its first attachments'), and `a`
hashes what is left of them. -/
def Swallows (a b : MailContent) : Prop :=
  ∃ k, 0 < k ∧ k ≤ (b.hashes P).length
    ∧ canonical a.headers = canonical b.headers ++ (((b.hashes P).take k).map encode).flatten
    ∧ a.hashes P = (b.hashes P).drop k

theorem input_eq (m : MailContent) :
    m.input P = canonical m.headers ++ ((m.hashes P).map encode).flatten :=
  fingerprintInput_eq ..

theorem fingerprint_eq (m : MailContent) : m.fingerprint P = P.sha256 (m.input P) := rfl

end MailContent

/-! ## The fingerprint of a parsed mail -/

/-- `att_hashes` of `process`. -/
def ParsedMail.attHashes (m : ParsedMail) : List String :=
  m.attachments.map fun a => contentHash P a.content

/-- What `process` feeds to SHA-256 for the fingerprint. -/
def ParsedMail.input (m : ParsedMail) : Bytes :=
  fingerprintInput m.headersCanonical (contentHash P (encode m.textBody)) (m.attHashes P)

/-- `fingerprint` of `process`. -/
def ParsedMail.fingerprint (m : ParsedMail) : Bytes :=
  archiveFingerprint P m.headersCanonical (contentHash P (encode m.textBody)) (m.attHashes P)

theorem ParsedMail.fingerprint_eq (m : ParsedMail) : m.fingerprint P = P.sha256 (m.input P) :=
  rfl

variable {E : EmailPackage}

/-- A raw mail and its parse, as the fingerprint sees them. -/
def MailContent.of (E : EmailPackage) (mail : ParsedMail) : MailContent where
  headers := (E.message mail.raw).headerText
  textBody := mail.textBody
  attachments := mail.attachments.map (·.content)

theorem parse_headersCanonical {now : DateTime} {raw : Bytes} {mail : ParsedMail}
    (h : parse E now raw = .ok mail) :
    mail.headersCanonical = canonical (MailContent.of E mail).headers := by
  obtain ⟨textParts, hparsed⟩ := parse_eq_ok.mp h
  rw [MailContent.of, hparsed.kept]
  exact hparsed.headersCanonical

/-- `process` signs the fingerprint of the mail's content. -/
theorem parse_fingerprint {now : DateTime} {raw : Bytes} {mail : ParsedMail}
    (h : parse E now raw = .ok mail) :
    mail.fingerprint P = (MailContent.of E mail).fingerprint P := by
  rw [ParsedMail.fingerprint, MailContent.fingerprint, parse_headersCanonical h]
  simp [ParsedMail.attHashes, MailContent.of, Function.comp_def]

/-- The clock decides nothing but a missing date: whether a mail parses,
and its fingerprint, do not depend on it. -/
theorem parse_now {now now' : DateTime} {raw : Bytes} {mail : ParsedMail}
    (h : parse E now raw = .ok mail) :
    ∃ mail', parse E now' raw = .ok mail' ∧ mail'.fingerprint P = mail.fingerprint P := by
  obtain ⟨date, -, hagain⟩ := @parse_again E now now' raw mail h
  exact ⟨_, hagain, rfl⟩

/-! ## Sorting -/

theorem sorted_perm (xs : List String) : (sorted xs).Perm xs :=
  List.perm_insertionSort _ xs

/-- Sorting forgets the order and nothing else. -/
theorem sorted_eq_iff {xs ys : List String} : sorted xs = sorted ys ↔ xs.Perm ys := by
  constructor
  · intro h
    exact (sorted_perm xs).symm.trans (h ▸ sorted_perm ys)
  · intro h
    have hx : (sorted xs).Pairwise (· ≤ ·) := List.pairwise_insertionSort _ xs
    have hy : (sorted ys).Pairwise (· ≤ ·) := List.pairwise_insertionSort _ ys
    have hp := (sorted_perm xs).trans (h.trans (sorted_perm ys).symm)
    exact hp.eq_of_pairwise (fun a b _ _ => le_antisymm) hx hy

theorem perm_of_map_perm {α β : Type*} [Nonempty α] {f : α → β} {s : Set α} (hf : Set.InjOn f s)
    {xs ys : List α} (hx : ∀ x ∈ xs, x ∈ s) (hy : ∀ y ∈ ys, y ∈ s)
    (h : (xs.map f).Perm (ys.map f)) : xs.Perm ys := by
  have hinv := hf.leftInvOn_invFunOn
  have key : ∀ zs : List α, (∀ z ∈ zs, z ∈ s) →
      (zs.map f).map (Function.invFunOn f s) = zs := by
    intro zs hz
    rw [List.map_map]
    exact (List.map_congr_left fun z hzm => hinv (hz z hzm)).trans (List.map_id zs)
  have := h.map (Function.invFunOn f s)
  rwa [key xs hx, key ys hy] at this

/-! ## The two ways to collide, and no other -/

variable {P}

namespace MailContent

theorem canonical_congr {f g : String → String}
    (h : ∀ n ∈ canonicalHeaders, f n = g n) : canonical f = canonical g := by
  unfold canonical
  rw [List.map_congr_left fun n hn => by rw [h n hn]]

/-- Header values without a line break join injectively. -/
theorem canonical_inj {f g : String → String}
    (hf : ∀ n ∈ canonicalHeaders, '\n' ∉ (f n).toList)
    (hg : ∀ n ∈ canonicalHeaders, '\n' ∉ (g n).toList)
    (h : canonical f = canonical g) : ∀ n ∈ canonicalHeaders, f n = g n := by
  have label : ∀ n ∈ canonicalHeaders, '\n' ∉ (n ++ ": ").toList := by decide
  have lines : ∀ e : String → String, (∀ n ∈ canonicalHeaders, '\n' ∉ (e n).toList) →
      ∀ s ∈ canonicalHeaders.map (fun n => n ++ ": " ++ e n), '\n' ∉ s.toList := by
    intro e he s hs
    obtain ⟨n, hn, rfl⟩ := List.mem_map.mp hs
    rw [String.toList_append, List.mem_append, not_or]
    exact ⟨label n hn, he n hn⟩
  -- splitting the joined text at its line breaks gives the lines back
  have hsplit : ∀ e : String → String, (∀ n ∈ canonicalHeaders, '\n' ∉ (e n).toList) →
      ((("\n".intercalate (canonicalHeaders.map fun n => n ++ ": " ++ e n)).split
        '\n').toList.map (·.copy)) = canonicalHeaders.map fun n => n ++ ": " ++ e n :=
    fun e he => (String.toList_split_intercalate (lines e he)).trans (if_neg (by
      simp [canonicalHeaders]))
  have hjoin := encode_inj.mp h
  have hmap := hsplit f hf
  rw [hjoin, hsplit g hg] at hmap
  intro n hn
  exact ((String.append_right_inj _).mp (List.map_inj_left.mp hmap n hn)).symm

/-- Header values without a line break do not blur. -/
theorem not_headersBlur {a b : MailContent}
    (ha : ∀ n ∈ canonicalHeaders, '\n' ∉ (a.headers n).toList)
    (hb : ∀ n ∈ canonicalHeaders, '\n' ∉ (b.headers n).toList) : ¬ a.HeadersBlur b := by
  rintro ⟨hjoin, ⟨n, hn, hne⟩, -, -⟩
  exact hne (canonical_inj ha hb hjoin n hn)

theorem wide_hashes {m : MailContent} (hfree : CollisionFree P (m.hashed P)) :
    Blocks.Wide 64 ((m.hashes P).map encode) := by
  intro b hb
  obtain ⟨s, hs, rfl⟩ := List.mem_map.mp hb
  rcases List.mem_cons.mp hs with rfl | hs
  · exact length_encode_contentHash P hfree (.inr (.inl rfl))
  · have hs' := (sorted_perm _).mem_iff.mp hs
    obtain ⟨a, ha, rfl⟩ := List.mem_map.mp hs'
    exact length_encode_contentHash P hfree (.inr (.inr ha))

/-- Equal hash lists are equal bodies and equal multisets of attachments. -/
theorem hashes_eq_iff {a b : MailContent} (hfree : CollisionFree P (a.hashed P ∪ b.hashed P)) :
    a.hashes P = b.hashes P ↔ a.textBody = b.textBody ∧ a.attachments.Perm b.attachments := by
  have hbody : contentHash P (encode a.textBody) = contentHash P (encode b.textBody)
      ↔ a.textBody = b.textBody :=
    (contentHash_inj P hfree (.inl (.inr (.inl rfl))) (.inr (.inr (.inl rfl)))).trans encode_inj
  rw [hashes, hashes, List.cons_eq_cons, hbody, sorted_eq_iff]
  refine and_congr_right fun _ => ⟨fun h => ?_, fun h => h.map _⟩
  refine perm_of_map_perm (f := contentHash P) (s := a.hashed P ∪ b.hashed P) ?_
    (fun x hx => .inl (.inr (.inr hx))) (fun x hx => .inr (.inr (.inr hx))) h
  exact fun x hx y hy hxy => (contentHash_inj P hfree hx hy).mp hxy

/-- Equal fingerprints, read on the blocks: equal headers and hashes, or
one side has swallowed blocks of the other. -/
theorem fingerprint_eq_iff {a b : MailContent}
    (hfree : CollisionFree P (a.hashed P ∪ b.hashed P)) :
    a.fingerprint P = b.fingerprint P ↔
      (canonical a.headers = canonical b.headers ∧ a.hashes P = b.hashes P)
        ∨ a.Swallows P b ∨ b.Swallows P a := by
  have ha := wide_hashes (hfree.mono Set.subset_union_left)
  have hb := wide_hashes (hfree.mono Set.subset_union_right)
  rw [fingerprint_eq, fingerprint_eq, hfree.inj.eq_iff (.inl (.inl rfl)) (.inr (.inl rfl)),
    input_eq, input_eq, Blocks.append_flatten_eq_iff (by decide : 0 < 64) ha hb]
  have enc_inj : Function.Injective encode := fun _ _ h => encode_inj.mp h
  constructor
  · rintro (⟨k, hk, hhead, hrest⟩ | ⟨k, hk, hhead, hrest⟩)
    · rw [← List.map_drop] at hrest
      have hrest' := (List.map_injective_iff.mpr enc_inj) hrest
      rcases Nat.eq_zero_or_pos k with rfl | hpos
      · exact .inl ⟨by simpa using hhead.symm, by simpa using hrest'.symm⟩
      · refine .inr (.inr ⟨k, hpos, by simpa using hk, ?_, hrest'⟩)
        rw [hhead, List.map_take]
    · rw [← List.map_drop] at hrest
      have hrest' := (List.map_injective_iff.mpr enc_inj) hrest
      rcases Nat.eq_zero_or_pos k with rfl | hpos
      · exact .inl ⟨by simpa using hhead, by simpa using hrest'⟩
      · refine .inr (.inl ⟨k, hpos, by simpa using hk, ?_, hrest'⟩)
        rw [hhead, List.map_take]
  · rintro (⟨hhead, hrest⟩ | ⟨k, -, hk, hhead, hrest⟩ | ⟨k, -, hk, hhead, hrest⟩)
    · exact .inl ⟨0, Nat.zero_le _, by simp [hhead], by simp [hrest]⟩
    · exact .inr ⟨k, by simpa using hk, by rw [hhead, List.map_take],
        by rw [hrest, List.map_drop]⟩
    · exact .inl ⟨k, by simpa using hk, by rw [hhead, List.map_take],
        by rw [hrest, List.map_drop]⟩

/-- Swallowed blocks make the headers longer. -/
theorem Swallows.length_eq {a b : MailContent} (hb : CollisionFree P (b.hashed P))
    (h : a.Swallows P b) : ∃ k, 0 < k ∧
      (canonical a.headers).length = (canonical b.headers).length + 64 * k := by
  obtain ⟨k, hpos, hk, hhead, -⟩ := h
  have hwide : Blocks.Wide 64 (((b.hashes P).take k).map encode) := by
    intro x hx
    rw [List.map_take] at hx
    exact wide_hashes hb x (List.mem_of_mem_take hx)
  have hlen := Blocks.length_flatten hwide
  rw [List.length_map, List.length_take] at hlen
  refine ⟨k, hpos, ?_⟩
  rw [hhead, List.length_append, hlen]
  omega

theorem Swallows.not_same {a b : MailContent} (hb : CollisionFree P (b.hashed P))
    (h : a.Swallows P b) : canonical a.headers ≠ canonical b.headers := by
  obtain ⟨k, hpos, hlen⟩ := h.length_eq hb
  intro heq
  rw [heq] at hlen
  omega

/-- **The fingerprint separates two mails exactly when neither blurs nor
swallows**: for every pair of mails, equal fingerprints force equal
contents iff their header lists do not join to one text and neither
mail's headers end in the hashes the other one feeds next. -/
theorem fingerprint_separates_iff {a b : MailContent}
    (hfree : CollisionFree P (a.hashed P ∪ b.hashed P)) :
    (a.fingerprint P = b.fingerprint P → a.Same b) ↔
      ¬ (a.HeadersBlur b ∨ a.Swallows P b ∨ b.Swallows P a) := by
  rw [fingerprint_eq_iff hfree, hashes_eq_iff hfree]
  have hfa := hfree.mono (Set.subset_union_left (s := a.hashed P) (t := b.hashed P))
  have hfb := hfree.mono (Set.subset_union_right (s := a.hashed P) (t := b.hashed P))
  constructor
  · rintro hsep (⟨hhead, ⟨h, hh, hne⟩, hbody, hatt⟩ | hsw | hsw)
    · exact hne ((hsep (.inl ⟨hhead, hbody, hatt⟩)).1 h hh)
    · exact hsw.not_same hfb (canonical_congr (hsep (.inr (.inl hsw))).1)
    · exact hsw.not_same hfa (canonical_congr (hsep (.inr (.inr hsw))).1).symm
  · rintro hnot (⟨hhead, hbody, hatt⟩ | hsw | hsw)
    · refine ⟨fun h hh => ?_, hbody, hatt⟩
      by_contra hne
      exact hnot (.inl ⟨hhead, ⟨h, hh, hne⟩, hbody, hatt⟩)
    · exact absurd (.inr (.inl hsw)) hnot
    · exact absurd (.inr (.inr hsw)) hnot

/-- A mail with the subject `s`, no body and the attachment `z`. -/
def scan : MailContent where
  headers := fun h => if h = "Subject" then "s" else ""
  textBody := ""
  attachments := [encode "z"]

/-- A mail whose subject is `s` and the digest of the empty text, whose
body is `z`, and which has no attachment. -/
def forged : MailContent where
  headers := fun h => if h = "Subject" then "s" ++ hex emptyDigest else ""
  textBody := "z"
  attachments := []

theorem sample_collisionFree : CollisionFree sampleAnswers.primitives
    (forged.hashed sampleAnswers.primitives ∪ scan.hashed sampleAnswers.primitives) := by
  refine CollisionFree.of_list
    [forged.input sampleAnswers.primitives, [], encode "z"] ?_ (by decide +kernel)
  have hinput : scan.input sampleAnswers.primitives = forged.input sampleAnswers.primitives := by
    decide +kernel
  have hempty : encode "" = [] := by decide
  rintro b ((hb | hb | hb) | (hb | hb | hb)) <;> simp_all [forged, scan]

/-- Two different mails, no collision of SHA-256, one fingerprint. -/
theorem fingerprint_ambiguous :
    CollisionFree sampleAnswers.primitives
        (forged.hashed sampleAnswers.primitives ∪ scan.hashed sampleAnswers.primitives)
      ∧ forged.fingerprint sampleAnswers.primitives = scan.fingerprint sampleAnswers.primitives
      ∧ ¬ forged.Same scan :=
  ⟨sample_collisionFree, by decide +kernel, fun h => absurd h.2.1 (by decide)⟩

/-- `forged` swallows the body hash of `scan`. -/
theorem fingerprint_separates_forged :
    ¬ (forged.fingerprint sampleAnswers.primitives = scan.fingerprint sampleAnswers.primitives →
        forged.Same scan) ↔
      (forged.HeadersBlur scan ∨ forged.Swallows sampleAnswers.primitives scan
        ∨ scan.Swallows sampleAnswers.primitives forged) :=
  (not_congr (fingerprint_separates_iff sample_collisionFree)).trans not_not

end MailContent

end MailArchiver

import MailArchiver.Common.KnownAnswers

/-!
# Common — Sealed format

The sealed-blob format in both directions, and the short secrets kept in
it. `SealedBlob.deserialize` checks nothing but the two bytes of the
length prefix: a blob cut short or shifted gives short fields, and it is
left to the two decryptions of `unseal` to refuse them. They do, because
a ciphertext is never shorter than its tag.
-/

namespace MailArchiver

/-! ## Short secrets -/

/-- `encrypt_secret(plaintext)`. -/
def encryptSecret (P : Primitives) (draw : Draw) (plaintext : String) : Except PyError String := do
  return b64encode (← sealed P draw (encode plaintext))

/-- `decrypt_secret(token_b64)`. -/
def decryptSecret (P : Primitives) (tokenB64 : String) : Except PyError String := do
  decodeUtf8 (← unsealBytes P (← b64decode tokenB64))

variable {P : Primitives}

theorem decryptSecret_encryptSecret (hlaws : SealingLaws P) {draw : Draw} {s token : String}
    (h : encryptSecret P draw s = .ok token) : decryptSecret P token = .ok s := by
  simp only [encryptSecret, bind_eq_ok, pure_eq_ok] at h
  obtain ⟨raw, hraw, rfl⟩ := h
  simp only [decryptSecret, bind_eq_ok]
  exact ⟨raw, b64decode_b64encode raw, encode s, unsealBytes_sealed P hlaws hraw, decodeUtf8_encode s⟩

/-! ## Where `seal` returns -/

/-- The key file is good and AES-GCM takes both data. -/
def Encrypts (P : Primitives) (draw : Draw) (plaintext : Bytes) : Prop :=
  ∃ key, masterKey P = .ok key
    ∧ (∃ out, P.aesgcmEncrypt draw.dek draw.dataNonce (P.zlibCompress plaintext) = .ok out)
    ∧ ∃ out, P.aesgcmEncrypt key draw.dekNonce draw.dek = .ok out

/-- The wrapped key takes 60 bytes, so the length prefix always has room. -/
theorem sealed_isOk_iff (hlaws : SealingLaws P) {draw : Draw} {plaintext : Bytes} :
    (∃ raw, sealed P draw plaintext = .ok raw) ↔ Encrypts P draw plaintext := by
  simp only [sealed, sealBlob, SealedBlob.serialize, bind_eq_ok, pure_eq_ok]
  constructor
  · rintro ⟨raw, b, ⟨out, hout, key, hkey, wrapped, hw, -⟩, -⟩
    exact ⟨key, hkey, ⟨out, hout⟩, wrapped, hw⟩
  · rintro ⟨key, hkey, ⟨out, hout⟩, wrapped, hw⟩
    have hlen : (draw.dekNonce ++ wrapped).length = 60 := by
      rw [List.length_append, draw.dekNonce_length, hlaws.tag _ _ _ _ hw, draw.dek_length]
    have hpack : ∃ hd, packH (draw.dekNonce ++ wrapped).length = .ok hd := by
      rw [hlen]
      exact ⟨_, rfl⟩
    obtain ⟨hd, hhd⟩ := hpack
    exact ⟨_, _, ⟨out, hout, key, hkey, wrapped, hw, rfl⟩, hd, hhd, rfl⟩

/-! ## What is accepted is well formed -/

/-- The length is read from two bytes. -/
theorem unpackH_ok {head : Bytes} {n : Nat} (h : unpackH head = .ok n) :
    ∃ hi lo, head = [hi, lo] ∧ n = 256 * hi.toNat + lo.toNat := by
  unfold unpackH at h
  split at h
  · exact ⟨_, _, rfl, (Except.ok.inj h).symm⟩
  · cases h

/-- The fields of a blob whose ciphertext is not empty are the ones its
bytes spell out. -/
theorem serialize_of_deserialize {raw : Bytes} {b : SealedBlob}
    (h : SealedBlob.deserialize raw = .ok b) (hct : 0 < b.ciphertext.length) :
    b.serialize = .ok raw := by
  simp only [SealedBlob.deserialize, bind_eq_ok, pure_eq_ok] at h
  obtain ⟨wlen, hw, rfl⟩ := h
  obtain ⟨hi, lo, hhead, hwlen⟩ := unpackH_ok hw
  have hhi := hi.toNat_lt
  have hlo := lo.toNat_lt
  -- a ciphertext is left, so no slice before it was cut
  simp only [List.length_drop] at hct
  have hwrapped : ((raw.drop 2).take wlen).length = wlen := by
    rw [List.length_take, List.length_drop]
    omega
  have hpack : packH wlen = .ok [hi, lo] := by
    have hlt : wlen < 65536 := by omega
    have hdiv : wlen / 256 = hi.toNat := by omega
    have hmod : wlen % 256 = lo.toNat := by omega
    rw [packH, if_pos hlt, hdiv, hmod, UInt8.ofNat_toNat, UInt8.ofNat_toNat]
  simp only [SealedBlob.serialize, bind_eq_ok, pure_eq_ok, hwrapped]
  refine ⟨[hi, lo], hpack, ?_⟩
  rw [List.append_assoc, List.append_assoc, List.take_append_drop, List.take_append_drop, ← hhead,
    List.take_append_drop]

/-- What an accepted blob consists of. -/
theorem Seals.lengths (hlaws : SealingLaws P) {raw plaintext : Bytes} (h : Seals P raw plaintext) :
    ∃ b, SealedBlob.deserialize raw = .ok b ∧ 28 ≤ b.wrappedDek.length
      ∧ 16 ≤ b.ciphertext.length := by
  obtain ⟨b, key, dek, compressed, hb, -, hdek, hct, -⟩ := h
  have hw := hlaws.tag _ _ _ _ hdek
  have hc := hlaws.tag _ _ _ _ hct
  rw [List.length_drop] at hw
  exact ⟨b, hb, by omega, by omega⟩

/-- **An accepted blob is the serialization of its fields.** -/
theorem Seals.canonical (hlaws : SealingLaws P) {raw plaintext : Bytes}
    (h : Seals P raw plaintext) :
    ∃ b, SealedBlob.deserialize raw = .ok b ∧ b.serialize = .ok raw := by
  obtain ⟨b, hb, -, hct⟩ := h.lengths hlaws
  exact ⟨b, hb, serialize_of_deserialize hb (by omega)⟩

/-- The length prefix covers a wrapped key, and leaves room for a nonce
and a tag. -/
theorem Seals.room (hlaws : SealingLaws P) {hi lo : UInt8} {rest plaintext : Bytes}
    (h : Seals P (hi :: lo :: rest) plaintext) :
    28 ≤ 256 * hi.toNat + lo.toNat ∧ 256 * hi.toNat + lo.toNat + 28 ≤ rest.length := by
  obtain ⟨b, hb, hw, hct⟩ := h.lengths hlaws
  simp only [SealedBlob.deserialize, List.take_succ_cons, List.take_zero, unpackH, List.drop_succ_cons,
    List.drop_zero, bind_eq_ok, pure_eq_ok, Except.ok.injEq, exists_eq_left'] at hb
  subst hb
  simp only [List.length_take, List.length_drop] at hw hct
  omega

/-! ## Only sealed blobs are accepted -/

/-- `calls` are the calls `seal` ever made, each with a data key of its
own, and AES-GCM decrypts nothing but what these calls encrypted. -/
structure SealsOnly (P : Primitives) (calls : Set (Draw × Bytes)) : Prop where
  produced : ∀ key nonce out data, P.aesgcmDecrypt key nonce out = .ok data →
    ∃ c ∈ calls,
      (masterKey P = .ok key ∧ nonce = c.1.dekNonce ∧ data = c.1.dek)
        ∨ (key = c.1.dek ∧ nonce = c.1.dataNonce ∧ data = P.zlibCompress c.2)
  once : ∀ c ∈ calls, ∀ c' ∈ calls, c.1.dek = c'.1.dek → c = c'
  notMaster : ∀ c ∈ calls, masterKey P ≠ .ok c.1.dek

/-- The call behind a data key unwrapped from a blob. -/
theorem SealsOnly.call {calls : Set (Draw × Bytes)} (h : SealsOnly P calls) {raw plaintext : Bytes}
    (hseals : Seals P raw plaintext) (hlaws : SealingLaws P) :
    ∃ c ∈ calls, sealed P c.1 c.2 = .ok raw ∧ c.2 = plaintext
      ∧ ∃ b key, SealedBlob.deserialize raw = .ok b ∧ masterKey P = .ok key
        ∧ P.aesgcmDecrypt key (b.wrappedDek.take 12) (b.wrappedDek.drop 12) = .ok c.1.dek := by
  have hcanonical := hseals.canonical hlaws
  obtain ⟨b, key, dek, compressed, hb, hkey, hdek, hct, hz⟩ := hseals
  have hunwrap := (hlaws.authentic ..).mpr hdek
  have hinner := (hlaws.authentic ..).mpr hct
  obtain ⟨c, hc, ⟨-, hnonce, rfl⟩ | ⟨rfl, -⟩⟩ := h.produced _ _ _ _ hunwrap
  · obtain ⟨c', hc', ⟨hmaster, -⟩ | ⟨hsame, hdata, rfl⟩⟩ := h.produced _ _ _ _ hinner
    · exact absurd hmaster (h.notMaster c hc)
    · obtain rfl := h.once c hc c' hc' hsame
      refine ⟨c, hc, ?_, Except.ok.inj ((hlaws.inflate c.2).symm.trans hz), b, key, hb, hkey, hunwrap⟩
      obtain ⟨b', hb', hser⟩ := hcanonical
      obtain rfl := Except.ok.inj (hb.symm.trans hb')
      -- the three fields are what the call put there
      have hblob : sealBlob P c.1 c.2 = .ok b := by
        simp only [sealBlob, bind_eq_ok, pure_eq_ok]
        refine ⟨b.ciphertext, hdata ▸ hct, key, hkey, b.wrappedDek.drop 12, hnonce ▸ hdek, ?_⟩
        rw [← hnonce, ← hdata, List.take_append_drop]
      simp only [sealed, bind_eq_ok]
      exact ⟨b, hblob, hser⟩
  · exact absurd hkey (h.notMaster c hc)

/-- Two blobs with one wrapped key come from one call. -/
theorem SealsOnly.eq_of_wrappedDek {calls : Set (Draw × Bytes)} (h : SealsOnly P calls)
    (hlaws : SealingLaws P) {raw raw' plaintext plaintext' : Bytes}
    (hraw : Seals P raw plaintext) (hraw' : Seals P raw' plaintext')
    (hsame : ∀ b b', SealedBlob.deserialize raw = .ok b → SealedBlob.deserialize raw' = .ok b' →
      b.wrappedDek = b'.wrappedDek) : raw = raw' := by
  obtain ⟨c, hc, hsealed, -, b, key, hb, hkey, hdek⟩ := h.call hraw hlaws
  obtain ⟨c', hc', hsealed', -, b', key', hb', hkey', hdek'⟩ := h.call hraw' hlaws
  obtain rfl := Except.ok.inj (hkey.symm.trans hkey')
  rw [hsame b b' hb hb', hdek'] at hdek
  obtain rfl := h.once c' hc' c hc (Except.ok.inj hdek)
  exact Except.ok.inj (hsealed.symm.trans hsealed')

/-- No accepted blob is the beginning of another. -/
theorem SealsOnly.eq_of_prefix {calls : Set (Draw × Bytes)} (h : SealsOnly P calls)
    (hlaws : SealingLaws P) {raw raw' plaintext plaintext' : Bytes}
    (hraw : Seals P raw plaintext) (hraw' : Seals P raw' plaintext') (hhead : raw <+: raw') :
    raw = raw' := by
  obtain ⟨more, rfl⟩ := hhead
  match raw, hraw, hraw' with
  | hi :: lo :: rest, hraw, hraw' =>
      have hroom := (hraw.room hlaws).2
      refine h.eq_of_wrappedDek hlaws hraw hraw' fun b b' hb hb' => ?_
      simp only [SealedBlob.deserialize, List.cons_append, List.take_succ_cons, List.take_zero,
        unpackH, List.drop_succ_cons, List.drop_zero, bind_eq_ok, pure_eq_ok, Except.ok.injEq,
        exists_eq_left'] at hb hb'
      rw [← hb, ← hb']
      exact (List.take_append_of_le_length (by omega)).symm
  | [_], hraw, _ =>
      obtain ⟨b, hb, -, -⟩ := hraw.lengths hlaws
      simp [SealedBlob.deserialize, unpackH, bind, Except.bind] at hb
  | [], hraw, _ =>
      obtain ⟨b, hb, -, -⟩ := hraw.lengths hlaws
      simp [SealedBlob.deserialize, unpackH, bind, Except.bind] at hb

/-- A refusal. -/
def Rejects (P : Primitives) (raw : Bytes) : Prop := ∃ e, unsealBytes P raw = .error e

theorem rejects_iff {raw : Bytes} : Rejects P raw ↔ ∀ plaintext, unsealBytes P raw ≠ .ok plaintext := by
  unfold Rejects
  cases unsealBytes P raw with
  | error e => simp
  | ok plaintext => simp

/-- What the format promises. -/
structure FormatExact (P : Primitives) : Prop where
  roundTrip : ∀ draw plaintext raw,
    sealed P draw plaintext = .ok raw → unsealBytes P raw = .ok plaintext
  secrets : ∀ draw s token, encryptSecret P draw s = .ok token → decryptSecret P token = .ok s
  /-- `seal` fails only where the key file or AES-GCM does. -/
  seals : ∀ draw plaintext, (∃ raw, sealed P draw plaintext = .ok raw) ↔ Encrypts P draw plaintext
  secretsSeal : ∀ draw s, (∃ token, encryptSecret P draw s = .ok token) ↔ Encrypts P draw (encode s)
  canonical : ∀ raw plaintext, unsealBytes P raw = .ok plaintext →
    (SealedBlob.deserialize raw >>= SealedBlob.serialize) = .ok raw
  /-- No two bytes of length, or a length that the rest does not fit. -/
  short : ∀ raw : Bytes, raw.length < 2 → Rejects P raw
  pastEnd : ∀ (hi lo : UInt8) (rest : Bytes),
    rest.length < 256 * hi.toNat + lo.toNat + 28 → Rejects P (hi :: lo :: rest)
  /-- Whatever else a blob was turned into. -/
  onlySealed : ∀ calls, SealsOnly P calls → ∀ raw plaintext,
    unsealBytes P raw = .ok plaintext → ∃ draw, (draw, plaintext) ∈ calls
      ∧ sealed P draw plaintext = .ok raw
  truncated : ∀ calls, SealsOnly P calls → ∀ raw plaintext, unsealBytes P raw = .ok plaintext →
    ∀ raw', raw' <+: raw → raw' ≠ raw → Rejects P raw'
  extended : ∀ calls, SealsOnly P calls → ∀ raw plaintext, unsealBytes P raw = .ok plaintext →
    ∀ more, more ≠ [] → Rejects P (raw ++ more)

/-- **The sealed-blob format decodes exactly what it encodes**: for every
plaintext, every draw and every byte string. -/
theorem sealed_format_exact (hlaws : SealingLaws P) : FormatExact P where
  roundTrip := fun _ _ _ => unsealBytes_sealed P hlaws
  secrets := fun _ _ _ => decryptSecret_encryptSecret hlaws
  seals := fun _ _ => sealed_isOk_iff hlaws
  secretsSeal := by
    intro draw s
    rw [← sealed_isOk_iff hlaws]
    simp only [encryptSecret, bind_eq_ok, pure_eq_ok]
    constructor
    · rintro ⟨token, raw, hraw, -⟩
      exact ⟨raw, hraw⟩
    · rintro ⟨raw, hraw⟩
      exact ⟨_, raw, hraw, rfl⟩
  canonical := by
    intro raw plaintext h
    exact bind_eq_ok.mpr (((unsealBytes_ok_iff P hlaws).mp h).canonical hlaws)
  short := by
    intro raw hshort
    match raw, hshort with
    | [], _ => exact ⟨.structError, rfl⟩
    | [_], _ => exact ⟨.structError, rfl⟩
  pastEnd := by
    intro hi lo rest hshort
    refine rejects_iff.mpr fun plaintext h => ?_
    have hroom := (((unsealBytes_ok_iff P hlaws).mp h).room hlaws).2
    omega
  onlySealed := by
    intro calls hcalls raw plaintext h
    obtain ⟨c, hc, hsealed, rfl, -⟩ := hcalls.call ((unsealBytes_ok_iff P hlaws).mp h) hlaws
    exact ⟨c.1, hc, hsealed⟩
  truncated := by
    intro calls hcalls raw plaintext h raw' hhead hne
    refine rejects_iff.mpr fun plaintext' h' => hne ?_
    exact hcalls.eq_of_prefix hlaws ((unsealBytes_ok_iff P hlaws).mp h')
      ((unsealBytes_ok_iff P hlaws).mp h) hhead
  extended := by
    intro calls hcalls raw plaintext h more hne
    refine rejects_iff.mpr fun plaintext' h' => hne ?_
    have heq := hcalls.eq_of_prefix hlaws ((unsealBytes_ok_iff P hlaws).mp h)
      ((unsealBytes_ok_iff P hlaws).mp h') (List.prefix_append raw more)
    simpa using heq.symm

/-! ### One sealed mail -/

/-- The known answers of one `seal` call. -/
def soloAnswers : KnownAnswers := { sampleAnswers with aesgcm := sampleAnswers.aesgcm.take 2 }

theorem soloLaws : SealingLaws soloAnswers.primitives :=
  KnownAnswers.sealingLaws (by decide +kernel)

theorem sealed_plainMail :
    sealed soloAnswers.primitives sampleDraw plainMail = .ok (sampleSealed plainMail) := by
  decide +kernel

theorem soloAnswers_sealsOnly :
    SealsOnly soloAnswers.primitives {(sampleDraw, plainMail)} where
  produced := by
    intro key nonce out data h
    have hmem := (KnownAnswers.decrypt_ok_iff (by decide +kernel)).mp h
    refine ⟨_, rfl, ?_⟩
    rcases List.mem_cons.mp hmem with heq | hmem
    · obtain ⟨rfl, rfl, rfl, rfl⟩ := Encryption.mk.inj heq
      exact .inl ⟨by decide +kernel, rfl, rfl⟩
    · obtain ⟨rfl, rfl, rfl, rfl⟩ := Encryption.mk.inj (List.mem_singleton.mp hmem)
      exact .inr ⟨rfl, rfl, by decide +kernel⟩
  once := by
    rintro c rfl c' rfl -
    rfl
  notMaster := by
    rintro c rfl
    decide +kernel

/-- A sealed mail unseals; without its last byte, or with one more, it is
refused. -/
theorem sealed_format_exact_plain :
    unsealBytes soloAnswers.primitives (sampleSealed plainMail) = .ok plainMail
      ∧ Rejects soloAnswers.primitives (sampleSealed plainMail).dropLast
      ∧ Rejects soloAnswers.primitives (sampleSealed plainMail ++ [0]) := by
  have hexact := sealed_format_exact soloLaws
  have hplain := hexact.roundTrip _ _ _ sealed_plainMail
  refine ⟨hplain, ?_, hexact.extended _ soloAnswers_sealsOnly _ _ hplain _ (by decide)⟩
  refine hexact.truncated _ soloAnswers_sealsOnly _ _ hplain _ (List.dropLast_prefix _) ?_
  decide +kernel

end MailArchiver

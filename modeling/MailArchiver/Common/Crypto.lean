import MailArchiver.Common.Bytes
import MailArchiver.Lib.Base64
import Mathlib.Data.List.Sort
import Mathlib.Data.String.Basic
import Mathlib.Data.Set.Function

/-!
# Common — Crypto

`mailarchiver_common/crypto.py`: content hashes, the sealed-blob format
and its envelope encryption, the archive fingerprint and its signature.

The primitives of `hashlib`, `zlib` and `cryptography` are a parameter
(`Primitives`); what the code relies on is stated about them by name
(`CollisionFree`, `SealingLaws`), each as a property a result assumes
where it needs it. SHA-256 maps an infinite set to 32 bytes, so "SHA-256
is injective" can only be said of the byte strings in play:
`CollisionFree P S` is injectivity on a set `S`.
-/

namespace MailArchiver

/-- What `hashlib`, `zlib`, `cryptography` and the key files provide. -/
structure Primitives where
  sha256 : Bytes → Bytes
  zlibCompress : Bytes → Bytes
  zlibDecompress : Bytes → Except PyError Bytes
  /-- `AESGCM(key).encrypt(nonce, data, None)`. -/
  aesgcmEncrypt : (key nonce data : Bytes) → Except PyError Bytes
  /-- `AESGCM(key).decrypt(nonce, data, None)`. -/
  aesgcmDecrypt : (key nonce data : Bytes) → Except PyError Bytes
  /-- `_signing_key().sign(data)`. -/
  ed25519Sign : Bytes → Bytes
  /-- Whether `_verify_key().verify(signature, data)` returns; otherwise
  it raises `InvalidSignature`. -/
  ed25519Verify : (signature data : Bytes) → Bool
  /-- The content of `master_key_file`. -/
  masterKeyFile : Bytes

/-- SHA-256 has no collision among the byte strings of `S`, and its
digest is 32 bytes long on each. -/
structure CollisionFree (P : Primitives) (S : Set Bytes) : Prop where
  inj : Set.InjOn P.sha256 S
  width : ∀ b ∈ S, (P.sha256 b).length = 32

theorem CollisionFree.mono {P : Primitives} {S T : Set Bytes} (h : CollisionFree P T)
    (hST : S ⊆ T) : CollisionFree P S :=
  ⟨h.inj.mono hST, fun b hb => h.width b (hST hb)⟩

/-- AES-GCM appends a 16-byte tag and decrypts exactly the outputs of
encryption under the same key and nonce; zlib inflates what it deflated. -/
structure SealingLaws (P : Primitives) : Prop where
  authentic : ∀ key nonce data out,
    P.aesgcmDecrypt key nonce out = .ok data ↔ P.aesgcmEncrypt key nonce data = .ok out
  tag : ∀ key nonce data out,
    P.aesgcmEncrypt key nonce data = .ok out → out.length = data.length + 16
  inflate : ∀ data, P.zlibDecompress (P.zlibCompress data) = .ok data

variable (P : Primitives)

/-! ## Hash and deduplication -/

/-- SHA-256 in hexadecimal: the key of deduplication and of storage. -/
def contentHash (data : Bytes) : String := hex (P.sha256 data)

theorem contentHash_inj {S : Set Bytes} (h : CollisionFree P S) {a b : Bytes}
    (ha : a ∈ S) (hb : b ∈ S) : contentHash P a = contentHash P b ↔ a = b :=
  hex_inj.trans (h.inj.eq_iff ha hb)

/-- The 64 ASCII characters of a digest. -/
theorem length_encode_contentHash {S : Set Bytes} (h : CollisionFree P S) {a : Bytes}
    (ha : a ∈ S) : (encode (contentHash P a)).length = 64 := by
  rw [contentHash, length_encode_hex, h.width a ha]

/-! ## Base64 of the standard library -/

/-- `base64.b64encode(data).decode()`. -/
def b64encode (data : Bytes) : String := String.ofList (Base64.encode data)

/-- `binascii.a2b_base64`, its two errors. -/
def a2bBase64 (cs : List Char) : Except PyError Bytes :=
  match Base64.decode cs with
  | .ok data => .ok data
  | .error .oneCharacterOver =>
      .error (.binasciiError "number of data characters cannot be 1 more than a multiple of 4")
  | .error .incorrectPadding => .error (.binasciiError "Incorrect padding")

/-- `base64.b64decode(s)` of a `str`. -/
def b64decode (s : String) : Except PyError Bytes :=
  if s.toList.any (fun c => 127 < c.toNat) then
    .error (.valueError "string argument should contain only ASCII characters")
  else a2bBase64 s.toList

/-! ## Envelope encryption -/

/-- `bytes.strip()`: ASCII whitespace off both ends. -/
def stripBytes (bs : Bytes) : Bytes :=
  let space := fun b : UInt8 => isAsciiSpace (Char.ofNat b.toNat)
  ((bs.dropWhile space).reverse.dropWhile space).reverse

/-- `_master_key()`: the AES-256 master key, base64 in its file. -/
def masterKey : Except PyError Bytes := do
  let key ← a2bBase64 ((stripBytes P.masterKeyFile).map fun b => Char.ofNat b.toNat)
  if key.length ≠ 32 then
    throw (.valueError "La clé maître doit faire 32 octets (AES-256).")
  return key

/-- A sealed blob:
`[len(wrapped_dek)][wrapped_dek][dek_nonce][data_nonce][ciphertext]`. -/
structure SealedBlob where
  /-- The data key under the master key, its nonce in front. -/
  wrappedDek : Bytes
  dataNonce : Bytes
  ciphertext : Bytes
  deriving DecidableEq, Repr

/-- `struct.pack(">H", n)`. -/
def packH (n : Nat) : Except PyError Bytes :=
  if n < 65536 then .ok [UInt8.ofNat (n / 256), UInt8.ofNat (n % 256)] else .error .structError

/-- `struct.unpack(">H", raw)`. -/
def unpackH : Bytes → Except PyError Nat
  | [hi, lo] => .ok (256 * hi.toNat + lo.toNat)
  | _ => .error .structError

/-- `SealedBlob.serialize`. -/
def SealedBlob.serialize (b : SealedBlob) : Except PyError Bytes := do
  return (← packH b.wrappedDek.length) ++ b.wrappedDek ++ b.dataNonce ++ b.ciphertext

/-- `SealedBlob.deserialize`; slices never raise. -/
def SealedBlob.deserialize (raw : Bytes) : Except PyError SealedBlob := do
  let wlen ← unpackH (raw.take 2)
  let rest := raw.drop 2
  return {
    wrappedDek := rest.take wlen
    dataNonce := (rest.drop wlen).take 12
    ciphertext := (rest.drop wlen).drop 12 }

/-- One set of draws of `_random` in `seal`. -/
structure Draw where
  dek : Bytes
  dataNonce : Bytes
  dekNonce : Bytes
  dek_length : dek.length = 32
  dataNonce_length : dataNonce.length = 12
  dekNonce_length : dekNonce.length = 12
  deriving DecidableEq

/-- `seal(plaintext)`: compress, encrypt under a one-off data key, wrap
the data key under the master key. -/
def sealBlob (draw : Draw) (plaintext : Bytes) : Except PyError SealedBlob := do
  let compressed := P.zlibCompress plaintext
  let ciphertext ← P.aesgcmEncrypt draw.dek draw.dataNonce compressed
  let wrapped ← P.aesgcmEncrypt (← masterKey P) draw.dekNonce draw.dek
  return {
    wrappedDek := draw.dekNonce ++ wrapped
    dataNonce := draw.dataNonce
    ciphertext := ciphertext }

/-- `unseal(blob)` (`unseal` and `seal` are Lean keywords). -/
def unsealBlob (blob : SealedBlob) : Except PyError Bytes := do
  let dekNonce := blob.wrappedDek.take 12
  let wrapped := blob.wrappedDek.drop 12
  let dek ← P.aesgcmDecrypt (← masterKey P) dekNonce wrapped
  let compressed ← P.aesgcmDecrypt dek blob.dataNonce blob.ciphertext
  P.zlibDecompress compressed

/-- What the blob store holds for a plaintext: `seal(...).serialize()`. -/
def sealed (draw : Draw) (plaintext : Bytes) : Except PyError Bytes := do
  (← sealBlob P draw plaintext).serialize

/-- `unseal(deserialize(...))`: the plaintext of a stored blob. -/
def unsealBytes (raw : Bytes) : Except PyError Bytes := do
  unsealBlob P (← SealedBlob.deserialize raw)

theorem unpackH_packH {n : Nat} {bs : Bytes} (h : packH n = .ok bs) :
    bs.length = 2 ∧ unpackH bs = .ok n := by
  unfold packH at h
  split at h
  · cases h
    refine ⟨rfl, ?_⟩
    simp only [unpackH, UInt8.toNat_ofNat', Except.ok.injEq]
    omega
  · cases h

/-- Reading back a serialized blob whose data nonce has its 12 bytes. -/
theorem deserialize_serialize {b : SealedBlob} {raw : Bytes} (hn : b.dataNonce.length = 12)
    (h : b.serialize = .ok raw) : SealedBlob.deserialize raw = .ok b := by
  simp only [SealedBlob.serialize, bind_eq_ok, pure_eq_ok, List.append_assoc] at h
  obtain ⟨hd, hp, rfl⟩ := h
  obtain ⟨hlen, hun⟩ := unpackH_packH hp
  have hdrop : (hd ++ (b.wrappedDek ++ (b.dataNonce ++ b.ciphertext))).drop 2
      = b.wrappedDek ++ (b.dataNonce ++ b.ciphertext) := List.drop_left' hlen
  have htake : (hd ++ (b.wrappedDek ++ (b.dataNonce ++ b.ciphertext))).take 2 = hd :=
    List.take_left' hlen
  simp [SealedBlob.deserialize, htake, hdrop, hun, bind, Except.bind, pure, Except.pure,
    List.take_left' hn, List.drop_left' hn]

/-- The blob is a sealing of `plaintext`: its data key is encrypted under
the master key, and its content is the encryption, under that data key,
of a zlib stream of `plaintext`. -/
def Seals (raw plaintext : Bytes) : Prop :=
  ∃ b key dek compressed,
    SealedBlob.deserialize raw = .ok b
      ∧ masterKey P = .ok key
      ∧ P.aesgcmEncrypt key (b.wrappedDek.take 12) dek = .ok (b.wrappedDek.drop 12)
      ∧ P.aesgcmEncrypt dek b.dataNonce compressed = .ok b.ciphertext
      ∧ P.zlibDecompress compressed = .ok plaintext

/-- Unsealing succeeds on sealings only. -/
theorem unsealBytes_ok_iff (hlaws : SealingLaws P) {raw plaintext : Bytes} :
    unsealBytes P raw = .ok plaintext ↔ Seals P raw plaintext := by
  simp only [unsealBytes, unsealBlob, bind_eq_ok, hlaws.authentic, Seals]
  constructor
  · rintro ⟨b, hb, key, hk, dek, hdek, compressed, hc, hz⟩
    exact ⟨b, key, dek, compressed, hb, hk, hdek, hc, hz⟩
  · rintro ⟨b, key, dek, compressed, hb, hk, hdek, hc, hz⟩
    exact ⟨b, hb, key, hk, dek, hdek, compressed, hc, hz⟩

/-- The round trip of the store: what `seal` wrote unseals to its
plaintext. -/
theorem unsealBytes_sealed (hlaws : SealingLaws P) {draw : Draw} {plaintext raw : Bytes}
    (h : sealed P draw plaintext = .ok raw) : unsealBytes P raw = .ok plaintext := by
  simp only [sealed, sealBlob, bind_eq_ok, pure_eq_ok] at h
  obtain ⟨b, ⟨ct, hc, key, hk, wrapped, hw, rfl⟩, hser⟩ := h
  refine (unsealBytes_ok_iff P hlaws).mpr ⟨_, key, draw.dek, P.zlibCompress plaintext,
    deserialize_serialize draw.dataNonce_length hser, hk, ?_, hc, hlaws.inflate plaintext⟩
  simpa [List.take_left' draw.dekNonce_length, List.drop_left' draw.dekNonce_length] using hw

/-! ## Fingerprint and signature -/

/-- `sorted(...)` on strings: by code point. -/
def sorted (xs : List String) : List String := xs.insertionSort (· ≤ ·)

/-- The bytes `archive_fingerprint` feeds to SHA-256, in the order of its
`update` calls. -/
def fingerprintInput (headersCanonical : Bytes) (bodyHash : String)
    (attachmentHashes : List String) : Bytes :=
  headersCanonical ++ encode bodyHash ++ (sorted attachmentHashes).flatMap encode

/-- `archive_fingerprint(headers_canonical, body_hash, attachment_hashes)`. -/
def archiveFingerprint (headersCanonical : Bytes) (bodyHash : String)
    (attachmentHashes : List String) : Bytes :=
  P.sha256 (fingerprintInput headersCanonical bodyHash attachmentHashes)

/-- The input is the canonical headers followed by hash blocks. -/
theorem fingerprintInput_eq (headersCanonical : Bytes) (bodyHash : String)
    (attachmentHashes : List String) :
    fingerprintInput headersCanonical bodyHash attachmentHashes =
      headersCanonical ++ ((bodyHash :: sorted attachmentHashes).map encode).flatten := by
  rw [fingerprintInput, List.map_cons, List.flatten_cons, List.append_assoc,
    ← List.flatMap_def]

/-- `sign(fingerprint)`: the Ed25519 signature in base64. -/
def sign (fingerprint : Bytes) : String := b64encode (P.ed25519Sign fingerprint)

/-- `verify(fingerprint, signature_b64)`: false on `InvalidSignature`;
any other exception goes through. -/
def verify (fingerprint : Bytes) (signatureB64 : String) : Except PyError Bool := do
  return P.ed25519Verify (← b64decode signatureB64) fingerprint

theorem charOf_ascii : ∀ v < 64, (Base64.charOf v).toNat ≤ 127 := by
  decide

theorem encode_ascii (bs : Bytes) : ∀ c ∈ Base64.encode bs, c.toNat ≤ 127 := by
  fun_induction Base64.encode bs with
  | case1 => simp
  | case2 a =>
      have ha := a.toNat_lt
      have h₁ := charOf_ascii (a.toNat / 4) (by omega)
      have h₂ := charOf_ascii (a.toNat % 4 * 16) (by omega)
      simp [h₁, h₂]
  | case3 a b =>
      have ha := a.toNat_lt
      have hb := b.toNat_lt
      have h₁ := charOf_ascii (a.toNat / 4) (by omega)
      have h₂ := charOf_ascii (a.toNat % 4 * 16 + b.toNat / 16) (by omega)
      have h₃ := charOf_ascii (b.toNat % 16 * 4) (by omega)
      simp [h₁, h₂, h₃]
  | case4 a b c rest ih =>
      have ha := a.toNat_lt
      have hb := b.toNat_lt
      have hc := c.toNat_lt
      have h₁ := charOf_ascii (a.toNat / 4) (by omega)
      have h₂ := charOf_ascii (a.toNat % 4 * 16 + b.toNat / 16) (by omega)
      have h₃ := charOf_ascii (b.toNat % 16 * 4 + c.toNat / 64) (by omega)
      have h₄ := charOf_ascii (c.toNat % 64) (by omega)
      simpa [h₁, h₂, h₃, h₄] using ih

theorem b64decode_b64encode (data : Bytes) : b64decode (b64encode data) = .ok data := by
  have hascii : (Base64.encode data).any (fun c => decide (127 < c.toNat)) = false := by
    rw [List.any_eq_false]
    intro c hc
    have := encode_ascii data c hc
    simp only [decide_eq_true_eq]
    omega
  simp [b64decode, b64encode, hascii, a2bBase64, Base64.decode_encode]

/-- A signature the worker made verifies, provided Ed25519 accepts its
own signatures. -/
theorem verify_sign {fingerprint : Bytes}
    (h : P.ed25519Verify (P.ed25519Sign fingerprint) fingerprint = true) :
    verify P fingerprint (sign P fingerprint) = .ok true := by
  simp [verify, sign, b64decode_b64encode, h, bind, Except.bind, pure, Except.pure]

end MailArchiver

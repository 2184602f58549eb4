import MailArchiver.Common.Crypto

/-!
# Common — KnownAnswers

Primitives given by a table of known answers, so that the model runs on
concrete mails. An entry is an answer the real library gives; off the
table SHA-256 pads or cuts its argument to 32 bytes, zlib stores it
behind a zero byte, and AES-GCM and Ed25519 know no other key. A table
without contradictory entries satisfies the laws the development assumes
of the real primitives.
-/

namespace MailArchiver

/-- One call `AESGCM(key).encrypt(nonce, data, None) = out`. -/
structure Encryption where
  key : Bytes
  nonce : Bytes
  data : Bytes
  out : Bytes
  deriving DecidableEq

structure KnownAnswers where
  /-- Byte strings with their SHA-256. -/
  sha256 : List (Bytes × Bytes)
  /-- Byte strings with their zlib stream. -/
  zlib : List (Bytes × Bytes)
  aesgcm : List Encryption
  /-- Messages with their signature. -/
  ed25519 : List (Bytes × Bytes)
  masterKeyFile : Bytes

/-- The `k` bytes of a number, big end first. -/
def bytesOf : Nat → Nat → Bytes
  | 0, _ => []
  | k + 1, n => UInt8.ofNat (n / 256 ^ k) :: bytesOf k n

@[simp] theorem length_bytesOf (k n : Nat) : (bytesOf k n).length = k := by
  induction k with
  | zero => rfl
  | succ k ih => simp [bytesOf, ih]

namespace KnownAnswers

variable (t : KnownAnswers)

/-- Exactly 32 bytes: the first ones, or the text and zeros. -/
def pad32 (b : Bytes) : Bytes := b.take 32 ++ List.replicate (32 - b.length) 0

def digest (b : Bytes) : Bytes := (t.sha256.lookup b).getD (pad32 b)

def compress (data : Bytes) : Bytes := (t.zlib.lookup data).getD (0 :: data)

def decompress (stream : Bytes) : Except PyError Bytes :=
  match t.zlib.find? (·.2 = stream), stream with
  | some e, _ => .ok e.1
  | none, 0 :: data => .ok data
  | none, _ => .error .zlibError

def encrypt (key nonce data : Bytes) : Except PyError Bytes :=
  match t.aesgcm.find? fun e => e.key = key ∧ e.nonce = nonce ∧ e.data = data with
  | some e => .ok e.out
  | none => .error (.valueError "no known answer")

def decrypt (key nonce out : Bytes) : Except PyError Bytes :=
  match t.aesgcm.find? fun e => e.key = key ∧ e.nonce = nonce ∧ e.out = out with
  | some e => .ok e.data
  | none => .error .invalidTag

/-- The primitives that answer from the table. -/
def primitives : Primitives where
  sha256 := t.digest
  zlibCompress := t.compress
  zlibDecompress := t.decompress
  aesgcmEncrypt := t.encrypt
  aesgcmDecrypt := t.decrypt
  ed25519Sign := fun data => (t.ed25519.lookup data).getD (List.replicate 64 0)
  ed25519Verify := fun signature data => t.ed25519.contains (data, signature)
  masterKeyFile := t.masterKeyFile

/-- No two entries contradict each other, a ciphertext has its tag, and
no zlib stream looks like a stored one. -/
structure WellFormed : Prop where
  streams : ∀ e ∈ t.zlib, ∀ e' ∈ t.zlib, e.2 = e'.2 → e = e'
  header : ∀ e ∈ t.zlib, e.2.head? ≠ some 0
  function : ∀ e ∈ t.aesgcm, ∀ e' ∈ t.aesgcm,
    e.key = e'.key → e.nonce = e'.nonce → (e.data = e'.data ↔ e.out = e'.out)
  tag : ∀ e ∈ t.aesgcm, e.out.length = e.data.length + 16

instance : Decidable t.WellFormed :=
  decidable_of_iff
    ((∀ e ∈ t.zlib, ∀ e' ∈ t.zlib, e.2 = e'.2 → e = e')
      ∧ (∀ e ∈ t.zlib, e.2.head? ≠ some 0)
      ∧ (∀ e ∈ t.aesgcm, ∀ e' ∈ t.aesgcm,
          e.key = e'.key → e.nonce = e'.nonce → (e.data = e'.data ↔ e.out = e'.out))
      ∧ ∀ e ∈ t.aesgcm, e.out.length = e.data.length + 16)
    ⟨fun ⟨h₁, h₂, h₃, h₄⟩ => ⟨h₁, h₂, h₃, h₄⟩, fun h => ⟨h.streams, h.header, h.function, h.tag⟩⟩

variable {t}

theorem mem_of_lookup {l : List (Bytes × Bytes)} {a b : Bytes} (h : l.lookup a = some b) :
    (a, b) ∈ l := by
  obtain ⟨l₁, l₂, rfl, -⟩ := List.lookup_eq_some_iff.mp h
  simp

theorem decompress_compress (h : t.WellFormed) (data : Bytes) :
    t.decompress (t.compress data) = .ok data := by
  unfold compress
  cases hl : t.zlib.lookup data with
  | some stream =>
      have hmem := mem_of_lookup hl
      simp only [Option.getD_some]
      cases hf : t.zlib.find? (·.2 = stream) with
      | none => exact absurd (List.find?_eq_none.mp hf _ hmem) (by simp)
      | some e =>
          have he : e.2 = stream := by simpa using List.find?_some hf
          have := h.streams e (List.mem_of_find?_eq_some hf) _ hmem he
          simp [decompress, hf, this]
  | none =>
      have hf : t.zlib.find? (·.2 = 0 :: data) = none := by
        rw [List.find?_eq_none]
        intro e he hstream
        exact h.header e he (by simp [of_decide_eq_true hstream])
      simp [decompress, hf]

theorem encrypt_ok_iff (h : t.WellFormed) {key nonce data out : Bytes} :
    t.encrypt key nonce data = .ok out ↔ ⟨key, nonce, data, out⟩ ∈ t.aesgcm := by
  unfold encrypt
  cases hf : t.aesgcm.find? fun e => e.key = key ∧ e.nonce = nonce ∧ e.data = data with
  | none =>
      rw [List.find?_eq_none] at hf
      refine ⟨nofun, fun hmem => ?_⟩
      exact absurd (hf _ hmem) (by simp)
  | some e =>
      have hmem := List.mem_of_find?_eq_some hf
      have hkey := List.find?_some hf
      simp only [decide_eq_true_eq] at hkey
      obtain ⟨rfl, rfl, rfl⟩ := hkey
      simp only [Except.ok.injEq]
      constructor
      · rintro rfl
        exact hmem
      · intro hmem'
        exact (h.function _ hmem _ hmem' rfl rfl).mp rfl

theorem decrypt_ok_iff (h : t.WellFormed) {key nonce data out : Bytes} :
    t.decrypt key nonce out = .ok data ↔ ⟨key, nonce, data, out⟩ ∈ t.aesgcm := by
  unfold decrypt
  cases hf : t.aesgcm.find? fun e => e.key = key ∧ e.nonce = nonce ∧ e.out = out with
  | none =>
      rw [List.find?_eq_none] at hf
      refine ⟨nofun, fun hmem => ?_⟩
      exact absurd (hf _ hmem) (by simp)
  | some e =>
      have hmem := List.mem_of_find?_eq_some hf
      have hkey := List.find?_some hf
      simp only [decide_eq_true_eq] at hkey
      obtain ⟨rfl, rfl, rfl⟩ := hkey
      simp only [Except.ok.injEq]
      constructor
      · rintro rfl
        exact hmem
      · intro hmem'
        exact (h.function _ hmem _ hmem' rfl rfl).mpr rfl

/-- A consistent table satisfies the laws of the real primitives. -/
theorem sealingLaws (h : t.WellFormed) : SealingLaws t.primitives where
  authentic := fun _ _ _ _ => (decrypt_ok_iff h).trans (encrypt_ok_iff h).symm
  tag := fun _ _ _ _ hout => h.tag _ ((encrypt_ok_iff h).mp hout)
  inflate := decompress_compress h

end KnownAnswers

/-- Freedom from collisions on finitely many strings is decided on them. -/
theorem CollisionFree.of_list {P : Primitives} {S : Set Bytes} (l : List Bytes)
    (hS : ∀ b ∈ S, b ∈ l)
    (h : ∀ a ∈ l, (P.sha256 a).length = 32 ∧ ∀ b ∈ l, P.sha256 a = P.sha256 b → a = b) :
    CollisionFree P S :=
  ⟨fun a ha b hb hab => (h a (hS a ha)).2 b (hS b hb) hab, fun b hb => (h b (hS b hb)).1⟩

/-! ## Sample mails

Small mails with the answers the real libraries give on them. Every mail
is sealed under one data key, so that one wrapped key serves them all. -/

/-- A one-line mail. -/
def plainMail : Bytes := encode "Subject: a\n\nx"

/-- The same mail with one more header: same fingerprint, other bytes. -/
def tracedMail : Bytes := encode "Subject: a\nX-Trace: 1\n\nx"

/-- A mail from an address with a capital. -/
def capitalMail : Bytes := encode "From: Bob@x.fr\n\nx"

/-- A mail whose only part is an attachment without a file name. -/
def attachmentMail (subject content : String) : Bytes :=
  encode ("Subject: " ++ subject ++ "\nContent-Type: multipart/mixed; boundary=b\n\n"
    ++ "--b\nContent-Disposition: attachment\n\n" ++ content ++ "\n--b--\n")

def emptyDigest : Bytes :=
  bytesOf 32 0xe3b0c44298fc1c149afbf4c8996fb92427ae41e4649b934ca495991b7852b855
def xDigest : Bytes :=
  bytesOf 32 0x2d711642b726b04401627ca9fbac32f5c8530fb1903cc4db02258717921a4881
def zDigest : Bytes :=
  bytesOf 32 0x594e519ae499312b29433b7dd8a97ff068defcba9755b6d5d00e84c524d67b06
def plainDigest : Bytes :=
  bytesOf 32 0x4e761a856e5b9e86c9f9635ee24415fab068d1b78670cacc06376d0075bf5d1c

/-- What SHA-256 is run on for a mail without headers but its subject,
whose body and attachments have these digests. -/
def sampleInput (subject digests : String) : String :=
  "Message-ID: \nDate: \nFrom: \nTo: \nCc: \nSubject: " ++ subject ++ digests

/-- The input of `plainMail`. -/
def plainInput : String := sampleInput "a" (hex xDigest)

/-- A mail that carries `plainInput` as an attachment. -/
def wrapperMail : Bytes := attachmentMail "m" plainInput

def sampleDraw : Draw where
  dek := bytesOf 32 0x202122232425262728292a2b2c2d2e2f303132333435363738393a3b3c3d3e3f
  dataNonce := bytesOf 12 0x404142434445464748494a4b
  dekNonce := bytesOf 12 0x505152535455565758595a5b
  dek_length := length_bytesOf ..
  dataNonce_length := length_bytesOf ..
  dekNonce_length := length_bytesOf ..

/-- The data of a sealed sample, its zlib stream and its ciphertext. -/
def sampleSeals : List (Bytes × Bytes × Bytes) :=
  [(plainMail,
     bytesOf 21 0x789c0b2e4dca4a4d2eb15248e4e2aa000020150418,
     bytesOf 32 0xbac8b6af1dbc8f467c83026061a8fb7213ae8887ed26a1097b258c708d7e84b1
       ++ bytesOf 5 0x04e16ebba3),
   (tracedMail,
     bytesOf 32 0x789c0b2e4dca4a4d2eb15248e48ad00d294a4c4eb55230e4e2aa0000624d0721,
     bytesOf 32 0xbac8b6af1dbc8f467c83026061c0817f3ac4d1cd4012973a8c54940002a7c823
       ++ bytesOf 16 0xf17149bfccca5ce189075bf7feee4e8d),
   (wrapperMail,
     bytesOf 32 0x789c3d4ec10e823014bbef2bf881c56d0c06184f10130f9ef007de1b43676423
       ++ bytesOf 32 0xf048e4ef9d07bdb469d3b4ed377c3a4b4d36b136067281f86d9f5dd2db8bfc0c
       ++ bytesOf 32 0x0b1d26ff76c331c3b8850196fd848c718eff78e7d739ae9e7c0c4d0644601f53
       ++ bytesOf 32 0xf219bbba7585bbe397aec95807944ad9798953a25b4cd0da04fd6f1fd460a42c
       ++ bytesOf 32 0xb542a34a145a0b592a63a11e116caec6c256452e4694b5c8add5030aa58aca48
       ++ bytesOf 15 0x532b09baaae4f714e7ec03440b3f26,
     bytesOf 32 0xbac880cf9178473b4689bf037dcb941f1f8885cce553a8409ef94a1b238dab21
       ++ bytesOf 32 0x3a5bfbf1abdb1c9224448969aaac89a493ae5806bb985105137b94b2fd2ea81d
       ++ bytesOf 32 0x3efd8e7763e00dc1529950b2cd06ea1686bb5b09628a560d3d3d6b9664387b24
       ++ bytesOf 32 0x220bae28497e247c7430350f06d14591b5cabdf4cd91d623862fa9f4a9afc98f
       ++ bytesOf 32 0x1d003777ea8f7a1c2b9dc551b8c7c8c49f524bab868ceb9c2103e4fe8c7a41ac
       ++ bytesOf 31 0x488a1d809a400785963d56ff013618960a7d416e34af49183be937cbfae59b),
   (attachmentMail "s" "z",
     bytesOf 32 0x789c3dcab90d80300c00c0de5364018b3e880a368005f258c2883c4a1c89303d
       ++ bytesOf 32 0xd0d09e6e6df620275a559853148a825bcfa45568a770364586c017f951d9d4a2
       ++ bytesOf 31 0x37a54f1600d1fe7de19a5365e114b53222c6ede17580fb6b88f000e32921e4,
     bytesOf 32 0xbac8804be97b453b5e3290f6d62e50f92d0697b575455586ac76a84a7c63ff3f
       ++ bytesOf 32 0x1ac381705b2a810117c2a5d7895a31b4113cbc581a9ae6b8f824de99777c80b3
       ++ bytesOf 32 0x0245e79e15f2c27f0b860241d196d3552a82ce0fc03303f8c9c1267309798062
       ++ bytesOf 15 0x5f59c85f8397730f4610d00ab15441),
   (attachmentMail "t" "z",
     bytesOf 32 0x789c3dcabd0d80201006d0fea660818b3dc64a37d00540483c233fc18f449c5e
       ++ bytesOf 32 0x6d6c5fde5cedee5768051a53848fe0a565af55a807249b822ec8e55daf6caad1
       ++ bytesOf 31 0x99d2064bc46cff3ec999d3299014b5328059b7f03ad1fd35667a00e38321e5,
     bytesOf 32 0xbac8804bed7b452b423480d6232ad0f92e48d7b42545e79652ddabc1efae535c
       ++ bytesOf 32 0xa77f40c06a314f71259227d7195f534abb37bc98bace4b7f502c2c3d89c9fec0
       ++ bytesOf 32 0xac32aec3d14fc33c2385820da096d355881d941e8f6205a6274b2673a37981e4
       ++ bytesOf 15 0x6630b3e39204243f63cf73614bd767),
   (encode plainInput,
     bytesOf 32 0x789c0dc5310ac3300c00c0bdafc8070a922c5b76d68640874eed0724c50e044a
       ++ bytesOf 32 0xa049ff1f2f77af7a1cbad6fb731a87dba467edcdbffddbfbec9d8777de7fdbaa
       ++ bytesOf 32 0x9fe3a0b408626232a164c00c98485c4b33f5402d7a8e019a6181e0ce8b0151cc
       ++ bytesOf 11 0x8252089573c60bbd131dc3,
     bytesOf 32 0xbac8b044617c063b5e3290952a82567881a2c6f523c6e75920139324a5e4cb48
       ++ bytesOf 32 0x6a5ae00119ab0e5c512deb7feeca34347aff04fd02170b0692794e17f8da8fbb
       ++ bytesOf 32 0xaa03083c1d415e304b789128a8ca3a2c3bb163c3cf3df90920b0c65eab5935bb
       ++ bytesOf 27 0x52401d074f3d9422f0833f77690953c47c7f2102854df765f38008),
   (encode "z",
     bytesOf 9 0x789cab0200007b007b,
     bytesOf 25 0xbac816835076be0b2914f5a48e9af35305127397063a942e45)]

def sampleAnswers : KnownAnswers where
  sha256 :=
    [([], emptyDigest), (encode "x", xDigest), (encode "z", zDigest),
     (encode plainInput, plainDigest),
     (encode (sampleInput "m" (hex emptyDigest ++ hex plainDigest)),
       bytesOf 32 0x509a2c1fa34fd562f157b0898020d6cdd256dc422090e73cab61c21d4768086c),
     (encode (sampleInput "s" (hex emptyDigest ++ hex zDigest)),
       bytesOf 32 0xb47303b0e2805be3b7dd36dca20e829b92d01d00c4ee0d85febc28386ee38663),
     (encode (sampleInput "t" (hex emptyDigest ++ hex zDigest)),
       bytesOf 32 0x10c30ae58ca4fd29c0647dcbe0f3343811d6a3e738581a9423f31b0576a8494e),
     (encode ("Message-ID: \nDate: \nFrom: Bob@x.fr\nTo: \nCc: \nSubject: " ++ hex xDigest),
       bytesOf 32 0x0744081c21feefc6744824d4be22a79ce84620b610f8e8c184c2fe7dbf72da03)]
  zlib := sampleSeals.map fun e => (e.1, e.2.1)
  aesgcm :=
    { key := bytesOf 32 0x000102030405060708090a0b0c0d0e0f101112131415161718191a1b1c1d1e1f
      nonce := sampleDraw.dekNonce
      data := sampleDraw.dek
      out := bytesOf 32 0xb2061457c0759fc1749f174ee1ccadfad31ecfd81644ac151cb0dae0cc7dab4b
        ++ bytesOf 16 0xe4bb30f03cc604cfdecf64012ae6928b }
    :: sampleSeals.map fun e =>
        { key := sampleDraw.dek, nonce := sampleDraw.dataNonce, data := e.2.1, out := e.2.2 }
  ed25519 :=
    [(plainDigest,
       bytesOf 32 0xafecd74b14f03d35b7528b16390c005e76d58189ab93b2ec2ad70cf0dc9d21bc
         ++ bytesOf 32 0xd83f303344ceb2f27c80055d84b0ebd5f793aa26d49097afd9dc5b1533fced0f),
     (bytesOf 32 0x509a2c1fa34fd562f157b0898020d6cdd256dc422090e73cab61c21d4768086c,
        bytesOf 32 0xa59032252d2a07b8de231e80080fdf7f83acf4a640f927feca44815e6b05d680
          ++ bytesOf 32 0x94582ae23c131403ad3ec3d1500ae790e23625683f12ff86d454ac15104bf809),
     (bytesOf 32 0xb47303b0e2805be3b7dd36dca20e829b92d01d00c4ee0d85febc28386ee38663,
        bytesOf 32 0x4b94b4f286a71c018f06736a5e0ac6a6837e2ddb39915a2333da351832e07262
          ++ bytesOf 32 0xf77dac126b966120692ebd9880b6e36c9004a4e3172fd613a2c0953f6337d20c),
     (bytesOf 32 0x10c30ae58ca4fd29c0647dcbe0f3343811d6a3e738581a9423f31b0576a8494e,
        bytesOf 32 0xeb1870386f89741384c1fd4bb963aabe15373bdbee63609787a8b9cfbfe43188
          ++ bytesOf 32 0x5d1f605f47da54815df1f1795936e985d0baf600b1ed6122afb6a1170a4e0806),
     (bytesOf 32 0x0744081c21feefc6744824d4be22a79ce84620b610f8e8c184c2fe7dbf72da03,
        bytesOf 32 0x0c2badff48b445cfe1ef1d65b2639a9d938d37e756e2ec380e5a6476a1cd934e
          ++ bytesOf 32 0x6785919df6347bdfe15670fb278ee0b220593753f8ec28e8d4c613495bcdc50b)]
  masterKeyFile := encode "AAECAwQFBgcICQoLDA0ODxAREhMUFRYXGBkaGxwdHh8="

/-- What the blob store holds for a sample. -/
def sampleSealed (plaintext : Bytes) : Bytes :=
  match sealed sampleAnswers.primitives sampleDraw plaintext with
  | .ok raw => raw
  | .error _ => []

theorem sampleAnswers_wellFormed : sampleAnswers.WellFormed := by decide +kernel

theorem sampleLaws : SealingLaws sampleAnswers.primitives :=
  KnownAnswers.sealingLaws sampleAnswers_wellFormed

def secretStream : Bytes := bytesOf 14 0x789c2b4e4d2e4a2d010008d10287

/-- The sample with the password `secret`, to be sealed under `sampleDraw`. -/
def secretAnswers : KnownAnswers where
  sha256 := sampleAnswers.sha256
  zlib := (encode "secret", secretStream) :: sampleAnswers.zlib
  aesgcm :=
    { key := sampleDraw.dek
      nonce := sampleDraw.dataNonce
      data := secretStream
      out := bytesOf 30 0xbac896cf1d588f26533258f987cdead7700e5e4c1e8ebe3074b5e2f9c39c }
    :: sampleAnswers.aesgcm
  ed25519 := sampleAnswers.ed25519
  masterKeyFile := sampleAnswers.masterKeyFile

theorem secretLaws : SealingLaws secretAnswers.primitives :=
  KnownAnswers.sealingLaws (by decide +kernel)

end MailArchiver

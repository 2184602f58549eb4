import MailArchiver.Common.SealedFormat
import MailArchiver.Common.Text

/-!
# Api — RestoreDestination

`set_restore_imap` and `get_restore_imap` of `UserRepo`, and the route
`PATCH /users/{user_id}/restore-imap` over them. The route passes
`req.model_dump()`, where every key is present: the default of
`data.get("username", "")` is never used, and a username left out is
`None` there. The commit, and the audit record the route writes after it,
are taken to succeed: JSONB refuses a NUL in the host, the username or the
folder, and the database may be out of reach.
-/

namespace MailArchiver

/-- A text given and not empty: what `if data.get(key)` asks. -/
def truthy (s : Option String) : Option String := s.filter (· ≠ "")

/-- A JSON body; an absent key and a null differ for `folder` alone. -/
structure ImapBody where
  host : Option String
  port : Option Int
  username : Option String
  password : Option String
  ssl : Option Bool
  folder : Option (Option String)
  deriving DecidableEq, Repr

structure RestoreImapRequest where
  host : Option String
  port : Option Int
  username : Option String
  password : Option String
  ssl : Bool
  folder : Option String
  deriving DecidableEq, Repr

/-- The defaults of `RestoreImapRequest`. -/
def ImapBody.parse (b : ImapBody) : RestoreImapRequest where
  host := b.host
  port := b.port
  username := b.username
  password := b.password
  ssl := b.ssl.getD true
  folder := b.folder.getD (some "INBOX")

/-- A value of the column `restore_imap`. -/
structure StoredImap where
  host : String
  port : Int
  username : String
  ssl : Bool
  folder : String
  passwordEnc : Option String
  deriving DecidableEq, Repr

/-- The column `restore_imap`; `row` is `none` where there is no account. -/
structure ImapColumn where
  row : Nat → Option (Option StoredImap)

/-- `u.restore_imap = cfg`, committed. -/
def ImapColumn.put (t : ImapColumn) (userId : Nat) (cfg : Option StoredImap) : ImapColumn :=
  ⟨fun id => if id = userId then some cfg else t.row id⟩

section

variable (P : Primitives)

/-- The key `password_enc`: a new password, or the one of the row. -/
def storedPassword (draw : Draw) (existing : Option StoredImap) (password : Option String) :
    Except PyError (Option String) :=
  match truthy password with
  | some password => (encryptSecret P draw password).map some
  | none => .ok (truthy (existing.bind (·.passwordEnc)))

/-- What `set_restore_imap` makes of a row. -/
def newRestoreImap (draw : Draw) (existing : Option StoredImap)
    (data : Option RestoreImapRequest) : Except PyError (Option StoredImap) :=
  match data with
  | none => .ok none
  | some data =>
      match truthy data.host with
      | none => .ok none
      | some host =>
          match data.username with
          -- `data.get("username", "")` is `None`: the key is there
          | none => .error (.attributeError "'NoneType' object has no attribute 'strip'")
          | some username => do
              let passwordEnc ← storedPassword P draw existing data.password
              return some {
                host := pyStrip host
                -- `or`: the port 0 counts as not given
                port := (data.port.filter (· ≠ 0)).getD (if data.ssl then 993 else 143)
                username := pyStrip username
                ssl := data.ssl
                folder := pyStrip ((truthy data.folder).getD "INBOX")
                passwordEnc }

/-- `UserRepo.set_restore_imap`. -/
def setRestoreImap (draw : Draw) (t : ImapColumn) (userId : Nat)
    (data : Option RestoreImapRequest) : Except PyError ImapColumn :=
  match t.row userId with
  | none => .error (.keyError "utilisateur introuvable")
  | some existing => (newRestoreImap P draw existing data).map (t.put userId)

/-- A configuration with its password. -/
structure DecryptedImap extends StoredImap where
  password : String
  deriving DecidableEq, Repr

/-- `UserRepo.get_restore_imap`. -/
def getRestoreImap (t : ImapColumn) (userId : Nat) : Except PyError (Option DecryptedImap) :=
  match t.row userId with
  | none | some none => .ok none
  | some (some cfg) =>
      if cfg.host = "" then .ok none
      else
        match truthy cfg.passwordEnc with
        | some token => (decryptSecret P token).map fun password => some { cfg with password }
        | none => .ok (some { cfg with password := "" })

/-- The route, the audit record aside: an error is a 404 or a 500. -/
def patchRestoreImap (draw : Draw) (t : ImapColumn) (userId : Nat) (body : ImapBody) :
    Except PyError ImapColumn :=
  setRestoreImap P draw t userId (some body.parse)

end

/-! ## What a sequence of bodies asks for -/

/-- The destination of the restorations. -/
structure ImapDestination where
  host : String
  port : Int
  username : String
  ssl : Bool
  folder : String
  password : String
  deriving DecidableEq, Repr

def DecryptedImap.destination (cfg : DecryptedImap) : ImapDestination where
  host := cfg.host
  port := cfg.port
  username := cfg.username
  ssl := cfg.ssl
  folder := cfg.folder
  password := cfg.password

/-- No host, or an empty one. -/
def ImapBody.drops (b : ImapBody) : Bool := b.host.getD "" = ""

/-- No host, or a blank one. -/
def ImapBody.blank (b : ImapBody) : Bool := pyStrip (b.host.getD "") = ""

/-- The passwords supplied since the destination was last cleared, the
last one first. -/
def suppliedSince (cleared : ImapBody → Bool) (bodies : List ImapBody) : List String :=
  (bodies.reverse.takeWhile fun b => !cleared b).filterMap fun b => truthy b.password

/-- The destination a sequence of bodies asks for, `cleared` telling the
ones that clear it. -/
def destinationAfter (cleared : ImapBody → Bool) (bodies : List ImapBody) :
    Option ImapDestination :=
  match bodies.getLast? with
  | none => none
  | some b =>
      if b.blank then none
      else some {
        host := pyStrip (b.host.getD "")
        port := b.port.getD (if b.ssl.getD true then 993 else 143)
        username := pyStrip (b.username.getD "")
        ssl := b.ssl.getD true
        folder := pyStrip (b.folder.join.getD "INBOX")
        password := (suppliedSince cleared bodies).head?.getD "" }

/-- Every request succeeds, and the destination is then the one they ask
for. -/
def UpdatesFaithfully (P : Primitives) (cleared : ImapBody → Bool) (t : ImapColumn) (userId : Nat)
    (reqs : List (Draw × ImapBody)) : Prop :=
  ∃ t', reqs.foldlM (fun t r => patchRestoreImap P r.1 t userId r.2) t = .ok t'
    ∧ (getRestoreImap P t' userId).map (Option.map DecryptedImap.destination) =
      .ok (destinationAfter cleared (reqs.map (·.2)))

/-! ## Passwords supplied -/

@[simp] theorem suppliedSince_concat (cleared : ImapBody → Bool) (bodies : List ImapBody)
    (b : ImapBody) :
    suppliedSince cleared (bodies ++ [b]) =
      if cleared b then [] else (truthy b.password).toList ++ suppliedSince cleared bodies := by
  cases hb : cleared b with
  | true => simp [suppliedSince, hb]
  | false => cases hpw : truthy b.password <;> simp [suppliedSince, hb, hpw]

theorem truthy_ne_empty {s : Option String} {text : String} (h : truthy s = some text) :
    text ≠ "" := by
  simpa using (Option.filter_eq_some_iff.mp h).2

theorem ne_empty_of_mem_suppliedSince {cleared : ImapBody → Bool} {bodies : List ImapBody}
    {pw : String} (h : pw ∈ suppliedSince cleared bodies) : pw ≠ "" := by
  obtain ⟨b, -, hb⟩ := List.mem_filterMap.mp h
  exact truthy_ne_empty hb

/-- The more requests clear, the fewer passwords are left. -/
theorem suppliedSince_isPrefix {cleared cleared' : ImapBody → Bool}
    (h : ∀ b, cleared' b = true → cleared b = true) (bodies : List ImapBody) :
    suppliedSince cleared bodies <+: suppliedSince cleared' bodies := by
  have htake : (bodies.reverse.takeWhile fun b => !cleared b) =
      (bodies.reverse.takeWhile fun b => !cleared' b).takeWhile fun b => !cleared b := by
    rw [List.takeWhile_takeWhile]
    congr 1
    funext b
    cases hb : cleared' b with
    | true => simp [h b hb]
    | false => simp
  rw [suppliedSince, htake]
  exact (List.takeWhile_prefix _).filterMap _

theorem suppliedSince_head_iff {cleared cleared' : ImapBody → Bool}
    (h : ∀ b, cleared' b = true → cleared b = true) (bodies : List ImapBody) :
    (suppliedSince cleared' bodies).head?.getD "" = (suppliedSince cleared bodies).head?.getD "" ↔
      (suppliedSince cleared' bodies = [] ∨ suppliedSince cleared bodies ≠ []) := by
  obtain ⟨older, holder⟩ := suppliedSince_isPrefix h bodies
  cases hnew : suppliedSince cleared bodies with
  | cons pw rest =>
      rw [hnew] at holder
      simp [← holder]
  | nil =>
      cases hall : suppliedSince cleared' bodies with
      | nil => simp
      | cons pw rest =>
          have hpw := @ne_empty_of_mem_suppliedSince cleared' bodies pw (by simp [hall])
          simpa using hpw

/-! ## Runs on the row of one account -/

section

variable {P : Primitives}

/-- The row after a sequence of requests. -/
def rowAfter (P : Primitives) (existing : Option StoredImap) (reqs : List (Draw × ImapBody)) :
    Except PyError (Option StoredImap) :=
  reqs.foldlM (fun row r => newRestoreImap P r.1 row (some r.2.parse)) existing

theorem rowAfter_concat (existing : Option StoredImap) (reqs : List (Draw × ImapBody))
    (r : Draw × ImapBody) :
    rowAfter P existing (reqs ++ [r]) =
      rowAfter P existing reqs >>= fun row => newRestoreImap P r.1 row (some r.2.parse) := by
  simp [rowAfter]

@[simp] theorem ImapColumn.row_put (t : ImapColumn) (userId : Nat) (cfg : Option StoredImap) :
    (t.put userId cfg).row userId = some cfg := by
  simp [ImapColumn.put]

@[simp] theorem ImapColumn.put_put (t : ImapColumn) (userId : Nat) (cfg cfg' : Option StoredImap) :
    (t.put userId cfg).put userId cfg' = t.put userId cfg' := by
  simp only [ImapColumn.put, ImapColumn.mk.injEq]
  funext id
  by_cases hid : id = userId <;> simp [hid]

theorem ImapColumn.put_self {t : ImapColumn} {userId : Nat} {cfg : Option StoredImap}
    (h : t.row userId = some cfg) : t.put userId cfg = t := by
  cases t with
  | mk row =>
      simp only [ImapColumn.put, ImapColumn.mk.injEq]
      funext id
      by_cases hid : id = userId
      · rw [if_pos hid, hid, ← h]
      · rw [if_neg hid]

/-- The requests write the row of their account and no other. -/
theorem foldlM_patchRestoreImap {t : ImapColumn} {userId : Nat} {existing : Option StoredImap}
    (h : t.row userId = some existing) (reqs : List (Draw × ImapBody)) :
    reqs.foldlM (fun t r => patchRestoreImap P r.1 t userId r.2) t =
      (rowAfter P existing reqs).map (t.put userId) := by
  induction reqs generalizing t existing with
  | nil =>
      rw [rowAfter, List.foldlM_nil, List.foldlM_nil]
      exact congrArg Except.ok (ImapColumn.put_self h).symm
  | cons r reqs ih =>
      have hpatch : patchRestoreImap P r.1 t userId r.2 =
          (newRestoreImap P r.1 existing (some r.2.parse)).map (t.put userId) := by
        simp only [patchRestoreImap, setRestoreImap, h]
      rw [rowAfter, List.foldlM_cons, List.foldlM_cons, hpatch]
      cases newRestoreImap P r.1 existing (some r.2.parse) with
      | error e => rfl
      | ok row =>
          have hput := @ih (t.put userId row) row (t.row_put userId row)
          have hsame : (t.put userId row).put userId = t.put userId :=
            funext fun cfg => t.put_put userId row cfg
          rw [hsame] at hput
          exact hput

/-- Both ends of a run, seen on the row. -/
theorem updatesFaithfully_iff_row {cleared : ImapBody → Bool} {t : ImapColumn} {userId : Nat}
    {reqs : List (Draw × ImapBody)} (hnew : t.row userId = some none) :
    UpdatesFaithfully P cleared t userId reqs ↔
      ∃ row, rowAfter P none reqs = .ok row
        ∧ (getRestoreImap P (t.put userId row) userId).map
            (Option.map DecryptedImap.destination) =
          .ok (destinationAfter cleared (reqs.map (·.2))) := by
  rw [UpdatesFaithfully, foldlM_patchRestoreImap hnew]
  simp only [map_eq_ok]
  constructor
  · rintro ⟨t', ⟨row, hrow, rfl⟩, hget⟩
    exact ⟨row, hrow, hget⟩
  · rintro ⟨row, hrow, hget⟩
    exact ⟨_, ⟨row, hrow, rfl⟩, hget⟩

/-! ## One request -/

theorem truthy_host {b : ImapBody} : truthy b.host = none ↔ b.drops = true := by
  unfold truthy ImapBody.drops
  cases b.host with
  | none => simp
  | some host => simp [Option.filter]

theorem truthy_host_of_not_drops {b : ImapBody} (h : b.drops = false) :
    truthy b.host = some (b.host.getD "") := by
  unfold ImapBody.drops at h
  cases hhost : b.host with
  | none => simp [hhost] at h
  | some host => simp_all [truthy, Option.filter]

theorem blank_of_drops {b : ImapBody} (h : b.drops = true) : b.blank = true := by
  have hhost : b.host.getD "" = "" := by simpa [ImapBody.drops] using h
  simp only [ImapBody.blank, hhost, decide_eq_true_eq]
  decide

theorem newRestoreImap_of_drops {b : ImapBody} (h : b.drops = true) (draw : Draw)
    (existing : Option StoredImap) : newRestoreImap P draw existing (some b.parse) = .ok none := by
  have hhost : truthy b.parse.host = none := truthy_host.mpr h
  simp only [newRestoreImap, hhost]

/-- **What a request with a host stores.** -/
theorem newRestoreImap_ok_iff {b : ImapBody} (h : b.drops = false) {draw : Draw}
    {existing row : Option StoredImap} :
    newRestoreImap P draw existing (some b.parse) = .ok row ↔
      ∃ username passwordEnc, b.username = some username
        ∧ storedPassword P draw existing b.password = .ok passwordEnc
        ∧ row = some {
            host := pyStrip (b.host.getD "")
            port := (b.port.filter (· ≠ 0)).getD (if b.ssl.getD true then 993 else 143)
            username := pyStrip username
            ssl := b.ssl.getD true
            folder := pyStrip ((truthy (b.folder.getD (some "INBOX"))).getD "INBOX")
            passwordEnc } := by
  have hhost := truthy_host_of_not_drops h
  cases husername : b.username with
  | none => simp [newRestoreImap, ImapBody.parse, hhost, husername]
  | some username =>
      simp only [newRestoreImap, ImapBody.parse, hhost, husername, bind_eq_ok, pure_eq_ok]
      constructor
      · rintro ⟨passwordEnc, henc, rfl⟩
        exact ⟨username, passwordEnc, rfl, henc, rfl⟩
      · rintro ⟨_, passwordEnc, huser, henc, rfl⟩
        cases huser
        exact ⟨passwordEnc, henc, rfl⟩

/-! ## A sequence of requests -/

/-- `decrypt_secret` inverts `encrypt_secret` on the passwords supplied. -/
def InvertsSecrets (P : Primitives) (reqs : List (Draw × ImapBody)) : Prop :=
  ∀ r ∈ reqs, ∀ password, truthy r.2.password = some password →
    ∃ token, encryptSecret P r.1 password = .ok token ∧ decryptSecret P token = .ok password

/-- So it does when the key file is good and AES-GCM takes the data. -/
theorem invertsSecrets_of_encrypts (hlaws : SealingLaws P) {reqs : List (Draw × ImapBody)}
    (h : ∀ r ∈ reqs, ∀ password, truthy r.2.password = some password →
      Encrypts P r.1 (encode password)) : InvertsSecrets P reqs := by
  intro r hr password hpassword
  obtain ⟨raw, hraw⟩ := (sealed_isOk_iff hlaws).mpr (h r hr password hpassword)
  have hencrypt : encryptSecret P r.1 password = .ok (b64encode raw) := by
    rw [encryptSecret, hraw]
    rfl
  exact ⟨_, hencrypt, decryptSecret_encryptSecret hlaws hencrypt⟩

/-- The token of the row decrypts to the last password supplied. -/
def KeepsPassword (P : Primitives) (supplied : List String) (passwordEnc : Option String) : Prop :=
  match supplied.head? with
  | none => passwordEnc = none
  | some password => ∃ token, passwordEnc = some token ∧ decryptSecret P token = .ok password

/-- The empty text is no token. -/
theorem truthy_token {token password : String} (h : decryptSecret P token = .ok password) :
    truthy (some token) = some token := by
  have hne : token ≠ "" := by
    rintro rfl
    have hnil : b64decode "" = .ok [] := by decide
    simp only [decryptSecret, unsealBytes, SealedBlob.deserialize, hnil, bind_eq_ok] at h
    obtain ⟨_, hraw, _, ⟨blob, ⟨n, hn, -⟩, -⟩, -⟩ := h
    cases hraw
    cases hn
  simp [truthy, Option.filter, hne]

theorem truthy_of_keepsPassword {supplied : List String} {passwordEnc : Option String}
    (h : KeepsPassword P supplied passwordEnc) : truthy passwordEnc = passwordEnc := by
  unfold KeepsPassword at h
  split at h
  · rw [h]
    rfl
  · obtain ⟨token, rfl, hdec⟩ := h
    exact truthy_token hdec

/-- One request: the password is replaced when one is supplied. -/
theorem keepsPassword_storedPassword {draw : Draw} {existing : Option StoredImap}
    {password passwordEnc : Option String} {supplied : List String}
    (hkeeps : KeepsPassword P supplied (existing.bind (·.passwordEnc)))
    (hinverts : ∀ pw, truthy password = some pw →
      ∃ token, encryptSecret P draw pw = .ok token ∧ decryptSecret P token = .ok pw)
    (h : storedPassword P draw existing password = .ok passwordEnc) :
    KeepsPassword P ((truthy password).toList ++ supplied) passwordEnc := by
  unfold storedPassword at h
  cases hpw : truthy password with
  | none =>
      rw [hpw] at h
      obtain rfl := Except.ok.inj h
      rw [truthy_of_keepsPassword hkeeps]
      simpa using hkeeps
  | some pw =>
      obtain ⟨token, henc, hdec⟩ := hinverts pw hpw
      rw [hpw] at h
      simp only [henc, Except.map, Except.ok.injEq] at h
      exact ⟨token, h.symm, hdec⟩

theorem keepsPassword_rowAfter {reqs : List (Draw × ImapBody)} (hinverts : InvertsSecrets P reqs)
    {row : Option StoredImap} (h : rowAfter P none reqs = .ok row) :
    KeepsPassword P (suppliedSince ImapBody.drops (reqs.map (·.2)))
      (row.bind (·.passwordEnc)) := by
  induction reqs using List.reverseRecOn generalizing row with
  | nil =>
      cases h
      rfl
  | append_singleton reqs r ih =>
      rw [rowAfter_concat, bind_eq_ok] at h
      obtain ⟨existing, hexisting, hnew⟩ := h
      have hkeeps := ih (fun r' hr' => hinverts r' (List.mem_append_left _ hr')) hexisting
      rw [List.map_append, List.map_singleton, suppliedSince_concat]
      cases hdrops : r.2.drops with
      | true =>
          -- a request without a host forgets the password
          rw [newRestoreImap_of_drops hdrops] at hnew
          obtain rfl := Except.ok.inj hnew
          rfl
      | false =>
          obtain ⟨username, passwordEnc, -, henc, rfl⟩ := (newRestoreImap_ok_iff hdrops).mp hnew
          exact keepsPassword_storedPassword hkeeps (hinverts r (by simp)) henc

/-- A request is refused for the missing username of a destination alone. -/
theorem rowAfter_isOk_iff {reqs : List (Draw × ImapBody)} (hinverts : InvertsSecrets P reqs) :
    (∃ row, rowAfter P none reqs = .ok row) ↔
      ∀ r ∈ reqs, r.2.drops = false → r.2.username.isSome = true := by
  induction reqs using List.reverseRecOn with
  | nil => exact iff_of_true ⟨none, rfl⟩ (by simp)
  | append_singleton reqs r ih =>
      have hbefore : InvertsSecrets P reqs := fun r' hr' => hinverts r' (List.mem_append_left _ hr')
      have hlast : ∀ existing,
          (∃ row, newRestoreImap P r.1 existing (some r.2.parse) = .ok row) ↔
          (r.2.drops = false → r.2.username.isSome = true) := by
        intro existing
        cases hdrops : r.2.drops with
        | true => simp [newRestoreImap_of_drops hdrops]
        | false =>
            simp only [newRestoreImap_ok_iff hdrops, Option.isSome_iff_exists, true_imp_iff]
            constructor
            · rintro ⟨_, username, _, husername, -⟩
              exact ⟨username, husername⟩
            · rintro ⟨username, husername⟩
              have hstored : ∃ passwordEnc,
                  storedPassword P r.1 existing r.2.password = .ok passwordEnc := by
                unfold storedPassword
                split
                · rename_i password hpw
                  obtain ⟨token, henc, -⟩ := hinverts r (by simp) password hpw
                  exact ⟨some token, by rw [henc]; rfl⟩
                · exact ⟨_, rfl⟩
              obtain ⟨passwordEnc, henc⟩ := hstored
              exact ⟨_, username, passwordEnc, husername, henc, rfl⟩
      rw [List.forall_mem_append, List.forall_mem_singleton, ← ih hbefore]
      simp only [rowAfter_concat, bind_eq_ok]
      constructor
      · rintro ⟨row, existing, hexisting, hnew⟩
        exact ⟨⟨existing, hexisting⟩, (hlast existing).mp ⟨row, hnew⟩⟩
      · rintro ⟨⟨existing, hexisting⟩, husername⟩
        obtain ⟨row, hnew⟩ := (hlast existing).mpr husername
        exact ⟨row, existing, hexisting, hnew⟩

/-! ## What is read back -/

/-- Reading a row that has a host: the token decrypts, or there is none. -/
theorem getRestoreImap_put {t : ImapColumn} {userId : Nat} {cfg : StoredImap}
    {supplied : List String} (hhost : cfg.host ≠ "")
    (hkeeps : KeepsPassword P supplied cfg.passwordEnc) :
    getRestoreImap P (t.put userId (some cfg)) userId =
      .ok (some { cfg with password := supplied.head?.getD "" }) := by
  simp only [getRestoreImap, ImapColumn.row_put, if_neg hhost, truthy_of_keepsPassword hkeeps]
  unfold KeepsPassword at hkeeps
  split at hkeeps
  · rename_i hnone
    rw [hkeeps, hnone]
    rfl
  · rename_i password hsome
    obtain ⟨token, htoken, hdec⟩ := hkeeps
    rw [htoken, hsome]
    simp only [hdec, Except.map, Option.getD_some]

/-- The port asked for is stored, unless it is 0. -/
theorem port_iff (port : Option Int) {d : Int} (hd : d ≠ 0) :
    (port.filter (· ≠ 0)).getD d = port.getD d ↔ port ≠ some 0 := by
  cases port with
  | none => simp
  | some n =>
      by_cases hn : n = 0
      · simp [Option.filter, hn, hd]
      · simp [Option.filter, hn]

/-- The folder asked for is stored, unless it is empty. -/
theorem folder_iff (folder : Option (Option String)) :
    pyStrip ((truthy (folder.getD (some "INBOX"))).getD "INBOX") =
      pyStrip (folder.join.getD "INBOX") ↔ folder ≠ some (some "") := by
  have hinbox : truthy (some "INBOX") = some "INBOX" := by decide
  have hempty : pyStrip "INBOX" ≠ pyStrip "" := by decide
  match folder with
  | none => simp [hinbox]
  | some none => simp [truthy]
  | some (some name) =>
      by_cases hname : name = ""
      · simp [truthy, Option.filter, hname, hempty]
      · simp [truthy, Option.filter, hname]

theorem readBack_iff {cleared : ImapBody → Bool} {t : ImapColumn} {userId : Nat}
    {reqs : List (Draw × ImapBody)} {r : Draw × ImapBody} {row : Option StoredImap}
    (hinverts : InvertsSecrets P (reqs ++ [r]))
    (hcleared : ∀ b, ImapBody.drops b = true → cleared b = true)
    (hrow : rowAfter P none (reqs ++ [r]) = .ok row) :
    (getRestoreImap P (t.put userId row) userId).map (Option.map DecryptedImap.destination) =
        .ok (destinationAfter cleared ((reqs ++ [r]).map (·.2))) ↔
      (r.2.blank = false → r.2.port ≠ some 0 ∧ r.2.folder ≠ some (some "")
        ∧ (suppliedSince ImapBody.drops ((reqs ++ [r]).map (·.2)) = []
          ∨ suppliedSince cleared ((reqs ++ [r]).map (·.2)) ≠ [])) := by
  have hkeeps := keepsPassword_rowAfter hinverts hrow
  have hhead := suppliedSince_head_iff hcleared ((reqs ++ [r]).map (·.2))
  have hlast : ((reqs ++ [r]).map (·.2)).getLast? = some r.2 := by simp
  generalize (reqs ++ [r]).map (·.2) = bodies at hkeeps hhead hlast ⊢
  rw [rowAfter_concat, bind_eq_ok] at hrow
  obtain ⟨existing, -, hnew⟩ := hrow
  simp only [destinationAfter, hlast]
  cases hdrops : r.2.drops with
  | true =>
      rw [newRestoreImap_of_drops hdrops] at hnew
      obtain rfl := Except.ok.inj hnew
      simp [getRestoreImap, blank_of_drops hdrops, Except.map]
  | false =>
      obtain ⟨username, enc, husername, -, rfl⟩ := (newRestoreImap_ok_iff hdrops).mp hnew
      -- a blank host is stored, and read back as none
      cases hblank : r.2.blank with
      | true =>
          have hhost : pyStrip (r.2.host.getD "") = "" := by simpa [ImapBody.blank] using hblank
          simp [getRestoreImap, hhost, Except.map]
      | false =>
          have hhost : pyStrip (r.2.host.getD "") ≠ "" := by simpa [ImapBody.blank] using hblank
          have hport := port_iff r.2.port
            (show (if r.2.ssl.getD true then 993 else 143 : Int) ≠ 0 by split <;> decide)
          rw [getRestoreImap_put hhost hkeeps, ← hport, ← folder_iff, ← hhead]
          simp [Except.map, DecryptedImap.destination, husername]

/-- **When the destination is updated faithfully**: the requests with a
host give a username, and the last one, if its host is not blank, asks
neither for the port 0 nor for the empty folder, and a password was
supplied since the destination was last cleared if one was since the last
request without a host. `cleared` may take a blank host for a clearing or
not. -/
theorem restore_imap_updates_iff {cleared : ImapBody → Bool} {t : ImapColumn} {userId : Nat}
    {reqs : List (Draw × ImapBody)} (hnew : t.row userId = some none)
    (hinverts : InvertsSecrets P reqs)
    (hcleared : ∀ b, ImapBody.drops b = true → cleared b = true) :
    UpdatesFaithfully P cleared t userId reqs ↔
      (∀ r ∈ reqs, r.2.drops = false → r.2.username.isSome = true)
        ∧ ∀ b, (reqs.map (·.2)).getLast? = some b → b.blank = false →
            b.port ≠ some 0 ∧ b.folder ≠ some (some "")
              ∧ (suppliedSince ImapBody.drops (reqs.map (·.2)) = []
                ∨ suppliedSince cleared (reqs.map (·.2)) ≠ []) := by
  rw [updatesFaithfully_iff_row hnew, ← rowAfter_isOk_iff hinverts]
  rcases List.eq_nil_or_concat reqs with rfl | ⟨before, r, rfl⟩
  · exact iff_of_true ⟨none, rfl, by simp [getRestoreImap, destinationAfter, Except.map]⟩
      ⟨⟨none, rfl⟩, by simp⟩
  · rw [List.concat_eq_append] at hinverts ⊢
    have hlast : ((before ++ [r]).map (·.2)).getLast? = some r.2 := by simp
    rw [hlast]
    constructor
    · rintro ⟨row, hrow, hget⟩
      refine ⟨⟨row, hrow⟩, fun b hb => ?_⟩
      obtain rfl := Option.some.inj hb
      exact (readBack_iff hinverts hcleared hrow).mp hget
    · rintro ⟨⟨row, hrow⟩, hcond⟩
      exact ⟨row, hrow, (readBack_iff hinverts hcleared hrow).mpr (hcond _ rfl)⟩

end

/-! ### Two sequences -/

/-- An account with no destination. -/
def noDestination : ImapColumn := ⟨fun _ => some none⟩

/-- A destination with its password, then another port. -/
def passwordThenPort : List (Draw × ImapBody) :=
  [(sampleDraw,
      ⟨some " imap.example.org ", none, some "alice", some "Subject: a\n\nx", none, none⟩),
    (sampleDraw, ⟨some "imap.example.org", some 1993, some "alice", none, none, some none⟩)]

theorem passwordThenPort_inverts : InvertsSecrets soloAnswers.primitives passwordThenPort := by
  refine invertsSecrets_of_encrypts soloLaws fun r hr password hpassword => ?_
  simp only [passwordThenPort, List.mem_cons, List.not_mem_nil, or_false] at hr
  rcases hr with rfl | rfl
  · obtain rfl : "Subject: a\n\nx" = password := Option.some.inj hpassword
    exact (sealed_isOk_iff soloLaws).mp ⟨_, sealed_plainMail⟩
  · cases hpassword

/-- The password outlives the request without one. -/
theorem passwordThenPort_updates :
    UpdatesFaithfully soloAnswers.primitives ImapBody.blank noDestination 1 passwordThenPort :=
  (restore_imap_updates_iff rfl passwordThenPort_inverts fun _ => blank_of_drops).mpr (by decide)

/-- A request without a username is a server error. -/
theorem username_left_out_raises :
    ¬ UpdatesFaithfully soloAnswers.primitives ImapBody.blank noDestination 1
      [(sampleDraw, ⟨some "imap.example.org", none, none, none, none, none⟩)] := by
  rintro ⟨t, h, -⟩
  cases h

end MailArchiver

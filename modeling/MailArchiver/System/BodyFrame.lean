import MailArchiver.System.Soundness

/-!
# System — BodyFrame

Bodies and attachments share one key scheme: a body lies under the hash
of what its fingerprint was computed from, an attachment under the hash
of its content. Archiving or purging a mail leaves the body of another
one alone, unless an attachment is the very text that body's fingerprint
hashes (`Wraps`).
-/

namespace MailArchiver

open Tables Transition

variable {env : Env}

/-- The byte strings whose hashes are keys of the bucket. -/
def Job.keyed (job : Job env) : List Bytes :=
  job.mail.input env.prims :: job.mail.attachments.map (·.content)

/-- An attachment of one mail is what the fingerprint of the other one is
computed from. -/
def Job.Wraps (job other : Job env) : Prop :=
  ∃ att ∈ job.mail.attachments, att.content = other.mail.input env.prims

/-- A mail of the run. -/
def Brings (es : List Event) (job : Job env) : Prop :=
  ∃ c raw now signedAt, .start c raw now signedAt ∈ es ∧ prepare env now signedAt raw = .ok job

theorem Job.archiveHash_eq (job : Job env) :
    job.archiveHash = contentHash env.prims (job.mail.input env.prims) := rfl

/-- Every attachment row came with a mail. -/
def Tables.Sourced (k : Tables env) : Prop :=
  ∀ a ∈ k.db.attachments, ∃ c tx, k.txs c = some tx ∧ a.sha256 ∈ tx.job.attHashes

/-- A transaction that stays with its mail. -/
theorem Tables.Sourced.withTx {k : Tables env} (h : k.Sourced) {c : Nat} {tx tx' : Tx env}
    (htx : k.txs c = some tx) (hjob : tx'.job = tx.job) : ∀ a ∈ k.db.attachments,
      ∃ c₁ tx₁, k.withTx c tx' c₁ = some tx₁ ∧ a.sha256 ∈ tx₁.job.attHashes := by
  intro a ha
  obtain ⟨c₁, tx₁, htx₁, hsha⟩ := h a ha
  by_cases hc : c₁ = c
  · subst hc
    obtain rfl : tx = tx₁ := Option.some.inj (htx.symm.trans htx₁)
    exact ⟨c₁, tx', withTx_same .., hjob ▸ hsha⟩
  · exact ⟨c₁, tx₁, (withTx_ne k tx' hc).trans htx₁, hsha⟩

theorem Tables.Sourced.step {k k' : Tables env} (hs : Step k k') (hsource : k.Sourced) :
    k'.Sourced := by
  cases hs with
  | stutter | select | load | begin | execute | crash | hold => exact hsource
  | @start c job hfree =>
      intro a ha
      obtain ⟨c₁, tx₁, htx₁, hsha⟩ := hsource a ha
      have hne : c₁ ≠ c := by
        rintro rfl
        rw [hfree] at htx₁
        cases htx₁
      exact ⟨c₁, tx₁, (withTx_ne k _ hne).trans htx₁, hsha⟩
  | upsert htx | flush htx | reserve htx | rollback htx => exact hsource.withTx htx rfl
  | @commit c tx id htx hflushed hreserved hhashes =>
      intro a ha
      rcases of_mem_archive_attachments ha with ⟨b, hb, rfl⟩ | ⟨r, hr, -, hsha, -⟩
      · have hkept := @hsource.withTx _ _ c tx (tx.ended (some id)) htx rfl
        exact hkept b hb
      · refine ⟨c, _, withTx_same .., ?_⟩
        rw [← hsha]
        exact hhashes ▸ List.mem_map_of_mem hr
  | purged hp =>
      intro a ha
      obtain ⟨b, hb, -, rfl⟩ := mem_foldl_onDb_attachments.mp ha
      exact hsource b hb

theorem World.reachable_sourced {w : World env}
    (h : Reachable World.step (World.init env) w) : w.tables.Sourced := by
  have hinv : w.Sound ∧ w.tables.Sourced := by
    refine h.invariant (I := fun w : World env => w.Sound ∧ w.tables.Sourced)
      ⟨.init env, fun a ha => absurd ha List.not_mem_nil⟩ ?_
    intro w e w' hw hs
    exact ⟨hw.1.step hs, hw.2.step (World.tables_step hw.1.coherent hs)⟩
  exact hinv.2

namespace World

/-- The step is not about a mail with this archive hash: no call on such a
mail moves, and the purge deletes the body of no such mail. -/
def elsewhere (hash : String) (w : World env) : Event → Bool
  | .advance c _ _ => (w.calls c).all fun call => call.job.archiveHash ≠ hash
  | .purge .advance =>
      match w.purge.next with
      | some (.deleteBody msg) => msg.archiveHash ≠ hash
      | _ => true
  | _ => true

/-- A message the purge is about to delete has its body under its archive
hash. -/
theorem Sound.deleteBody_key {w : World env} (h : w.Sound) {msg : Message}
    (hnext : w.purge.next = some (.deleteBody msg)) : msg.bodySha256 = msg.archiveHash := by
  obtain ⟨expired, mem, hloaded, hmem⟩ := h.next_mem hnext
  obtain ⟨x, hx, h' | h' | h'⟩ := (hloaded.mem_message rfl).mp hmem
  · cases h'
    obtain ⟨m, hm, hsame⟩ := hloaded.row x hx
    rw [← hsame.bodySha256, ← hsame.archiveHash]
    exact h.bodySha256 hm
  · cases h'
  · cases h'

/-- What the purge is about to collect is an attachment of some call's mail. -/
theorem Sound.collect_source {w : World env} (h : w.Sound) (hsource : w.tables.Sourced)
    {r : Attachment} (hnext : w.purge.next = some (.collect r)) :
    ∃ c call, w.calls c = some call ∧ r.sha256 ∈ call.job.attHashes := by
  obtain ⟨expired, mem, hloaded, hmem⟩ := h.next_mem hnext
  obtain ⟨a, ha, -, hsha⟩ := hloaded.collected_row hmem
  obtain ⟨c, tx, htx, hatt⟩ := hsource a ha
  obtain ⟨call, hcall, rfl⟩ := Option.map_eq_some_iff.mp htx
  exact ⟨c, call, hcall, hsha ▸ hatt⟩

/-- A step elsewhere leaves the key alone, if no attachment of the run has
it. -/
theorem lookup_step {es : List Event} {w w' : World env} {e : Event} {hash : String}
    (hrun : run step (init env) es = some w) (hs : w.step e = some w')
    (helse : w.elsewhere hash e = true)
    (hatts : ∀ job : Job env, Brings es job → hash ∉ job.attHashes) :
    w'.blobs.lookup hash = w.blobs.lookup hash := by
  have hsound := reachable_sound ⟨es, hrun⟩
  have hcalls : ∀ c call, w.calls c = some call → hash ∉ call.job.attHashes := by
    intro c call hcall
    obtain ⟨raw, now, signedAt, hstart, hjob⟩ := call_of_run hrun hcall
    exact hatts call.job ⟨c, raw, now, signedAt, hstart, hjob⟩
  generalize hb : w'.blobs = blobs
  have hstep := BlobStep.of_step hs
  rw [hb] at hstep
  cases hstep with
  | same => rfl
  | @put c draw draw' published call sha plaintext blob hcall hwrites hblob =>
      refine BlobStore.lookup_put_ne _ _ ?_
      rintro rfl
      rcases (hsound.coherent c call hcall).writes hwrites with hkey | hkey
      · simp [elsewhere, hcall, hkey] at helse
      · exact hcalls c call hcall hkey
  | @delete st hnext =>
      rw [Statement.lookup_onBlobs, if_neg]
      intro hdel
      cases st with
      | collect r =>
          obtain rfl : r.sha256 = hash := Option.some.inj hdel
          obtain ⟨c, call, hcall, hatt⟩ :=
            hsound.collect_source (reachable_sourced ⟨es, hrun⟩) hnext
          exact hcalls c call hcall hatt
      | deleteBody msg =>
          obtain rfl : msg.bodySha256 = hash := Option.some.inj hdel
          simp [elsewhere, hnext, hsound.deleteBody_key hnext] at helse
      | decrement | deleteDedup | deleteMessage => cases hdel

theorem lookup_run {es₁ es₂ : List Event} {w₁ w₂ : World env} {hash : String}
    (hrun₁ : run step (init env) es₁ = some w₁) (hrun₂ : run step w₁ es₂ = some w₂)
    (helse : Meets step (fun w e => w.elsewhere hash e = true) w₁ es₂)
    (hatts : ∀ job : Job env, Brings (es₁ ++ es₂) job → hash ∉ job.attHashes) :
    w₂.blobs.lookup hash = w₁.blobs.lookup hash := by
  induction es₂ generalizing es₁ w₁ with
  | nil =>
      obtain rfl := Option.some.inj hrun₂
      rfl
  | cons e es₂ ih =>
      obtain ⟨w, hs, hrest⟩ := run_cons_eq_some.mp hrun₂
      obtain ⟨he, helse⟩ := helse
      rw [hs] at helse
      have hsnoc : run step (init env) (es₁ ++ [e]) = some w :=
        run_append.mpr ⟨w₁, hrun₁, run_cons_eq_some.mpr ⟨w, hs, rfl⟩⟩
      rw [ih hsnoc hrest helse (by simpa using hatts)]
      refine lookup_step hrun₁ hs he fun job hjob => hatts job ?_
      obtain ⟨c, raw, now, signedAt, hstart, hprep⟩ := hjob
      exact ⟨c, raw, now, signedAt, List.mem_append_left _ hstart, hprep⟩

/-- **A body is left alone by what happens to other mails**: after any run
in which `m` is archived, whatever is archived and purged of other archive
hashes leaves the blob of `m` as it is, provided no mail of the run wraps
the mail of `m`. -/
theorem body_frame {es₁ es₂ : List Event} {w₁ w₂ : World env} {m : Message}
    (hfree : CollisionFree env.prims {b | ∃ job : Job env, Brings (es₁ ++ es₂) job ∧ b ∈ job.keyed})
    (hrun₁ : run step (init env) es₁ = some w₁) (hm : m ∈ w₁.db.messages)
    (hwraps : ∀ c call job, w₁.calls c = some call → call.committed = some m.id →
      Brings (es₁ ++ es₂) job → ¬job.Wraps call.job)
    (hrun₂ : run step w₁ es₂ = some w₂)
    (helse : Meets step (fun w e => w.elsewhere m.archiveHash e = true) w₁ es₂) :
    w₂.blobs.lookup m.bodySha256 = w₁.blobs.lookup m.bodySha256 := by
  have hsound := reachable_sound ⟨es₁, hrun₁⟩
  obtain ⟨c, call, hcall, hcom, hsame⟩ := hsound.origin hm
  obtain ⟨raw, now, signedAt, hstart, hprep⟩ := call_of_run hrun₁ hcall
  have hbrings : Brings (es₁ ++ es₂) call.job :=
    ⟨c, raw, now, signedAt, List.mem_append_left _ hstart, hprep⟩
  rw [hsound.bodySha256 hm]
  refine lookup_run hrun₁ hrun₂ helse fun job hjob hatt => ?_
  -- the attachment with that hash would be what the fingerprint hashes
  rw [hsame.archiveHash, Job.msgRow_archiveHash, Job.archiveHash_eq] at hatt
  obtain ⟨att, hmem, heq⟩ := List.mem_map.mp hatt
  refine hwraps c call job hcall hcom hjob ⟨att, hmem, ?_⟩
  refine (contentHash_inj env.prims hfree ⟨job, hjob, ?_⟩ ⟨call.job, hbrings, ?_⟩).mp heq
  · exact List.mem_cons_of_mem _ (List.mem_map_of_mem hmem)
  · exact List.mem_cons_self

/-! ## Two mails -/

/-- The strings a run of two mails brings to the bucket. -/
theorem keyed_of_brings {es : List Event} {raw₀ raw₁ : Bytes} {t₀ t₁ : DateTime}
    (hstarts : ∀ c raw now signedAt, .start c raw now signedAt ∈ es →
      (raw = raw₀ ∧ now = t₀ ∧ signedAt = t₀) ∨ (raw = raw₁ ∧ now = t₁ ∧ signedAt = t₁))
    {keyed₀ keyed₁ : List Bytes}
    (h₀ : (prepare sampleEnv t₀ t₀ raw₀).map Job.keyed = .ok keyed₀)
    (h₁ : (prepare sampleEnv t₁ t₁ raw₁).map Job.keyed = .ok keyed₁) {job : Job sampleEnv}
    (h : Brings es job) : job.keyed = keyed₀ ∨ job.keyed = keyed₁ := by
  obtain ⟨c, raw, now, signedAt, hstart, hprep⟩ := h
  rcases hstarts c raw now signedAt hstart with ⟨rfl, rfl, rfl⟩ | ⟨rfl, rfl, rfl⟩
  · rw [hprep] at h₀
    exact .inl (Except.ok.inj h₀)
  · rw [hprep] at h₁
    exact .inr (Except.ok.inj h₁)

/-- The key strings of the wrapper of `plainMail`. -/
def wrapperKeyed : List Bytes :=
  [encode (sampleInput "m" (hex emptyDigest ++ hex plainDigest)), encode plainInput]

/-- Archiving the wrapper of an archived mail writes over its body. -/
theorem body_overwritten : ∃ w₁ w₂ : World sampleEnv, ∃ m ∈ w₁.db.messages,
    sampleRun (sampleCall 0 plainMail sampleTime 7) = some w₁
      ∧ run step w₁ (sampleCall 1 wrapperMail sampleNow 9) = some w₂
      ∧ Meets step (fun w e => w.elsewhere m.archiveHash e = true) w₁
          (sampleCall 1 wrapperMail sampleNow 9)
      ∧ (w₂.calls 1).map (·.pc) = some .returned
      ∧ CollisionFree sampleEnv.prims {b | ∃ job : Job sampleEnv,
          Brings (sampleCall 0 plainMail sampleTime 7 ++ sampleCall 1 wrapperMail sampleNow 9) job
            ∧ b ∈ job.keyed}
      ∧ w₂.blobs.lookup m.bodySha256 ≠ w₁.blobs.lookup m.bodySha256 := by
  have hany : (sampleRun (sampleCall 0 plainMail sampleTime 7)).any (fun w₁ =>
      decide (w₁.db.messages.map (fun m => (m.archiveHash, m.bodySha256))
          = [(hex plainDigest, hex plainDigest)])
        && meetsAll step (elsewhere (hex plainDigest)) w₁ (sampleCall 1 wrapperMail sampleNow 9)
        && (run step w₁ (sampleCall 1 wrapperMail sampleNow 9)).any fun w₂ =>
          decide ((w₂.calls 1).map (·.pc) = some .returned)
            && decide (w₂.blobs.lookup (hex plainDigest) ≠ w₁.blobs.lookup (hex plainDigest)))
      = true := by
    decide +kernel
  have hplain : (prepare sampleEnv sampleTime sampleTime plainMail).map Job.keyed
      = .ok [encode plainInput] := by
    decide +kernel
  have hwrapper : (prepare sampleEnv sampleNow sampleNow wrapperMail).map Job.keyed
      = .ok wrapperKeyed := by
    decide +kernel
  obtain ⟨w₁, hrun₁, hw₁⟩ := (Option.any_eq_true _ _).mp hany
  simp only [Bool.and_eq_true, decide_eq_true_eq] at hw₁
  obtain ⟨⟨hrows, helse⟩, hnext⟩ := hw₁
  obtain ⟨w₂, hrun₂, hw₂⟩ := (Option.any_eq_true _ _).mp hnext
  simp only [Bool.and_eq_true, decide_eq_true_eq] at hw₂
  obtain ⟨hret, hchanged⟩ := hw₂
  have hmem : (hex plainDigest, hex plainDigest)
      ∈ w₁.db.messages.map (fun m => (m.archiveHash, m.bodySha256)) :=
    hrows ▸ List.mem_singleton_self _
  obtain ⟨m, hm, hfacts⟩ := List.mem_map.mp hmem
  obtain ⟨hhash, hbody⟩ := Prod.mk.inj hfacts
  refine ⟨w₁, w₂, m, hm, hrun₁, hrun₂, ?_, hret, ?_, hbody ▸ hchanged⟩
  · rw [hhash]
    exact meets_of_check (fun _ _ he => he) helse
  · refine CollisionFree.of_list wrapperKeyed ?_ (by decide +kernel)
    rintro b ⟨job, hjob, hb⟩
    have hstarts : ∀ c raw now signedAt, .start c raw now signedAt
        ∈ sampleCall 0 plainMail sampleTime 7 ++ sampleCall 1 wrapperMail sampleNow 9 →
          (raw = plainMail ∧ now = sampleTime ∧ signedAt = sampleTime)
            ∨ (raw = wrapperMail ∧ now = sampleNow ∧ signedAt = sampleNow) := by
      intro c raw now signedAt hstart
      rcases List.mem_append.mp hstart with hstart | hstart
      · exact .inl (mem_sampleCall_start.mp hstart).2
      · exact .inr (mem_sampleCall_start.mp hstart).2
    rcases keyed_of_brings hstarts hplain hwrapper hjob with hk | hk
    · rw [hk] at hb
      rw [List.mem_singleton.mp hb]
      exact List.mem_cons_of_mem _ List.mem_cons_self
    · exact hk ▸ hb

/-- `plainMail` is archived and put under hold. -/
def heldRun : List Event :=
  sampleCall 0 plainMail sampleTime 7 ++ [.readHold 0 1 true, .commitHold 0]

/-- Another mail, of the same time, is archived and purged. -/
def otherRun : List Event :=
  sampleCall 1 (attachmentMail "s" "z") sampleTime 9
    ++ .purge (.select sampleCutoff [sampleRow (attachmentMail "s" "z") 2])
      :: List.replicate 8 (.purge .advance)

def otherKeyed : List Bytes :=
  [encode (sampleInput "s" (hex emptyDigest ++ hex zDigest)), encode "z"]

/-- The body of the mail under hold is as it was. -/
theorem body_frame_held : ∃ w₁ w₂ : World sampleEnv, ∃ m ∈ w₁.db.messages,
    sampleRun heldRun = some w₁ ∧ run step w₁ otherRun = some w₂
      ∧ w₂.db.messages.map (·.id) = [1]
      ∧ w₂.blobs.lookup m.bodySha256 = w₁.blobs.lookup m.bodySha256 := by
  have hany : (sampleRun heldRun).any (fun w₁ =>
      decide (w₁.db.messages.map (·.archiveHash) = [hex plainDigest])
        && meetsAll step (elsewhere (hex plainDigest)) w₁ otherRun
        && (run step w₁ otherRun).any fun w₂ => decide (w₂.db.messages.map (·.id) = [1]))
      = true := by
    decide +kernel
  have hplain : (prepare sampleEnv sampleTime sampleTime plainMail).map Job.keyed
      = .ok [encode plainInput] := by
    decide +kernel
  have hother : (prepare sampleEnv sampleTime sampleTime (attachmentMail "s" "z")).map Job.keyed
      = .ok otherKeyed := by
    decide +kernel
  have hfree : ∀ a ∈ encode plainInput :: otherKeyed, (sampleEnv.prims.sha256 a).length = 32
      ∧ ∀ b ∈ encode plainInput :: otherKeyed,
        sampleEnv.prims.sha256 a = sampleEnv.prims.sha256 b → a = b := by
    decide +kernel
  have hne : encode "z" ∉ [encode plainInput,
      encode (sampleInput "s" (hex emptyDigest ++ hex zDigest))] := by
    decide +kernel
  have hstarts : ∀ c raw now signedAt, .start c raw now signedAt ∈ heldRun ++ otherRun →
      (raw = plainMail ∧ now = sampleTime ∧ signedAt = sampleTime)
        ∨ (raw = attachmentMail "s" "z" ∧ now = sampleTime ∧ signedAt = sampleTime) := by
    intro c raw now signedAt hstart
    simp only [heldRun, otherRun, List.mem_append, List.mem_cons, List.mem_replicate,
      mem_sampleCall_start, reduceCtorEq, List.not_mem_nil, and_false, or_false] at hstart
    exact hstart.imp (·.2) (·.2)
  obtain ⟨w₁, hrun₁, hw₁⟩ := (Option.any_eq_true _ _).mp hany
  simp only [Bool.and_eq_true, decide_eq_true_eq] at hw₁
  obtain ⟨⟨hrows, helse⟩, hnext⟩ := hw₁
  obtain ⟨w₂, hrun₂, hids⟩ := (Option.any_eq_true _ _).mp hnext
  have hmem : hex plainDigest ∈ w₁.db.messages.map (·.archiveHash) :=
    hrows ▸ List.mem_singleton_self _
  obtain ⟨m, hm, hhash⟩ := List.mem_map.mp hmem
  refine ⟨w₁, w₂, m, hm, hrun₁, hrun₂, of_decide_eq_true hids, body_frame ?_ hrun₁ hm ?_ hrun₂ ?_⟩
  · refine CollisionFree.of_list (encode plainInput :: otherKeyed) ?_ hfree
    rintro b ⟨job, hjob, hb⟩
    rcases keyed_of_brings hstarts hplain hother hjob with hk | hk
    · rw [hk] at hb
      rw [List.mem_singleton.mp hb]
      exact List.mem_cons_self
    · exact List.mem_cons_of_mem _ (hk ▸ hb)
  · rintro c call job hcall - hjob ⟨att, hatt, heq⟩
    obtain ⟨raw, now, signedAt, hstart, hprep⟩ := call_of_run hrun₁ hcall
    have hcalled : Brings (heldRun ++ otherRun) call.job :=
      ⟨c, raw, now, signedAt, List.mem_append_left _ hstart, hprep⟩
    have hcontent := List.mem_map_of_mem (f := fun a : ParsedAttachment => a.content) hatt
    -- the one attachment there is, is the input of neither mail
    rcases keyed_of_brings hstarts hplain hother hjob with hk | hk
    · rw [(List.cons.inj hk).2] at hcontent
      exact absurd hcontent List.not_mem_nil
    · rw [(List.cons.inj hk).2, List.mem_singleton] at hcontent
      refine hne (hcontent.symm.trans heq ▸ ?_)
      rcases keyed_of_brings hstarts hplain hother hcalled with hk' | hk'
      · rw [(List.cons.inj hk').1]
        exact List.mem_cons_self
      · rw [(List.cons.inj hk').1]
        exact List.mem_cons_of_mem _ List.mem_cons_self
  · rw [hhash]
    exact meets_of_check (fun _ _ he => he) helse

end World

end MailArchiver

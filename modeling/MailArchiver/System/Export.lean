import MailArchiver.Api.Perimeter
import MailArchiver.Api.Tampering
import MailArchiver.System.ImmutableBodies

/-!
# System — Export

From the raw mail a `process` call is given to the `.eml` the API serves.
As long as the bodies are kept (`KeepsBodies`), a row is exported as the
bytes its call was given, with a valid signature, to whoever may open the
mail, and to nobody else.
-/

namespace MailArchiver

open Transition

variable {env : Env} {lower : String → String}

theorem Message.SameArchive.signature {m m' : Message} (h : m.SameArchive m') :
    m.signature = m'.signature := by
  rw [← h.eq]

theorem Message.SameArchive.canAccess {m m' : Message} (h : m.SameArchive m')
    (scope : Option (List String)) : canAccess lower m scope = canAccess lower m' scope := by
  rw [← h.eq]
  rfl

/-- The mail is one an account of this perimeter may open. -/
def Job.OpenTo (lower : String → String) (job : Job env) : Option (List String) → Prop
  | none => True
  | some scope => ∃ a ∈ job.mail.addrs, lower a ∈ scope.map lower

theorem Job.openTo_iff {job : Job env} {id : Nat} {scope : Option (List String)} :
    canAccess lower (job.msgRow id) scope = true ↔ job.OpenTo lower scope := by
  cases scope with
  | none => exact iff_of_true rfl trivial
  | some scope => exact canAccess_msgRow job id scope

namespace World

/-- Ed25519 accepts the signatures of the calls. -/
def SignsValidly (w : World env) : Prop :=
  ∀ c call, w.calls c = some call →
    env.prims.ed25519Verify (env.prims.ed25519Sign (call.job.mail.fingerprint env.prims))
      (call.job.mail.fingerprint env.prims) = true

theorem bodiesHeld_of_run (hlaws : SealingLaws env.prims) {es : List Event} {w : World env}
    (hrun : run World.step (World.init env) es = some w)
    (hkeeps : Meets World.step World.KeepsBodies (World.init env) es) :
    w.Sound ∧ w.BodiesHeld := by
  refine run_invariant_of_meets (I := fun w : World env => w.Sound ∧ w.BodiesHeld)
    (fun w e w' ⟨hsound, hheld⟩ hcond hs => ?_) hrun hkeeps ⟨.init env, ?_⟩
  · exact ⟨hsound.step hs, hheld.step hlaws hsound hs hcond⟩
  · intro c call hcall
    cases hcall

theorem Sound.getMessage {w : World env} (h : w.Sound) {m : Message} (hm : m ∈ w.db.messages) :
    getMessage w.db m.id = some m :=
  Table.find?_key h.tables.rows.ids hm

/-- The row of a call bears a valid signature of its archive hash. -/
theorem verify_row {w : World env} (hsigns : w.SignsValidly) {c : Nat} {call : Call env}
    (hcall : w.calls c = some call) {m : Message} {id : Nat}
    (hsame : m.SameArchive (call.job.msgRow id)) :
    ∃ fingerprint, fromhex m.archiveHash = .ok fingerprint
      ∧ verify env.prims fingerprint m.signature = .ok true := by
  refine ⟨call.job.mail.fingerprint env.prims, ?_, ?_⟩
  · rw [hsame.archiveHash]
    exact fromhex_hex _
  · rw [hsame.signature]
    exact verify_sign _ (hsigns c call hcall)

/-- What `get_eml` finds of a row whose body is held. -/
theorem getEml_row {w : World env} (hsound : w.Sound) (hheld : w.BodiesHeld)
    (hsigns : w.SignsValidly) {m : Message} (hm : m ∈ w.db.messages)
    (hnot : w.purge.bodyDeleted m.id = false) :
    ∃ c call, w.calls c = some call ∧ call.committed = some m.id
      ∧ m.SameArchive (call.job.msgRow m.id)
      ∧ ∀ scope, getEml env.prims lower w.db w.blobs m.id scope =
          if canAccess lower m scope then .ok (call.job.mail.raw, true)
          else .error .accessDenied := by
  obtain ⟨c, call, hcall, hcom, hsame⟩ := hsound.origin hm
  obtain ⟨blob, hlookup, hraw⟩ :=
    hheld c call hcall (holdsBody_iff.mpr (.inr ⟨m.id, hcom, ⟨m, hm, rfl⟩, hnot⟩))
  have hblob : w.blobs.lookup m.bodySha256 = some blob := by
    rw [hsound.bodySha256 hm, hsame.archiveHash]
    exact hlookup
  refine ⟨c, call, hcall, hcom, hsame, fun scope => ?_⟩
  have hmsg := hsound.getMessage hm
  by_cases hacc : canAccess lower m scope = true
  · rw [if_pos hacc]
    exact (getEml_ok_iff hmsg hacc hblob hraw).mpr (verify_row hsigns hcall hsame)
  · rw [if_neg hacc]
    simp only [getEml, hmsg, hacc, Bool.false_eq_true, if_false]

/-- **What was archived is what is exported**: in a run whose every step
keeps the bodies, a row whose body the purge has not deleted is the row of
a mail some event of the run brought, and the API serves that mail, byte
for byte and with a valid signature, to the perimeters with one of its
addresses; any other perimeter is refused. -/
theorem export_returns_original (hlaws : SealingLaws env.prims) {es : List Event} {w : World env}
    (hrun : run World.step (World.init env) es = some w)
    (hkeeps : Meets World.step World.KeepsBodies (World.init env) es)
    (hsigns : w.SignsValidly) {m : Message} (hm : m ∈ w.db.messages)
    (hnot : w.purge.bodyDeleted m.id = false) :
    ∃ c raw now signedAt job, .start c raw now signedAt ∈ es
      ∧ prepare env now signedAt raw = .ok job
      ∧ m.SameArchive (job.msgRow m.id)
      ∧ ∀ scope,
          (job.OpenTo lower scope →
            exportEml env.prims lower w.db w.blobs m.id scope = .response raw "valid")
          ∧ (¬job.OpenTo lower scope →
            exportEml env.prims lower w.db w.blobs m.id scope
              = .httpException 403 "accès non autorisé à ce message") := by
  obtain ⟨hsound, hheld⟩ := bodiesHeld_of_run hlaws hrun hkeeps
  obtain ⟨c, call, hcall, -, hsame, hget⟩ := @getEml_row _ lower w hsound hheld hsigns m hm hnot
  obtain ⟨raw, now, signedAt, hstart, hprep⟩ := call_of_run hrun hcall
  obtain rfl : call.job.mail.raw = raw := (prepare_ok hprep).2.2
  refine ⟨c, _, now, signedAt, call.job, hstart, hprep, hsame, fun scope => ?_⟩
  rw [← @Job.openTo_iff _ lower call.job m.id scope, ← hsame.canAccess, exportEml, hget]
  constructor
  · intro hacc
    rw [if_pos hacc]
    rfl
  · intro hacc
    rw [if_neg hacc]

theorem meets_keepsBodies {es : List Event}
    (h : meetsAll World.step keepsBodies (World.init env) es = true) :
    Meets World.step KeepsBodies (World.init env) es := by
  refine meets_of_meetsAll (I := CallsBelow 2) ?_ (fun w e hw h => keepsBodies_sound hw h)
    (fun c _ => rfl) h
  intro w e w' hw h hs
  unfold keepsBodies at h
  exact hw.step (Bool.and_eq_true_iff.mp h).1 hs

/-- One mail, archived. -/
def archivedRun : List Event := sampleCall 0 plainMail sampleTime 7

/-- Its row stays backed by the body. -/
theorem archivedRun_holds : ∃ w m, sampleRun archivedRun = some w
    ∧ Meets World.step KeepsBodies (World.init sampleEnv) archivedRun ∧ w.SignsValidly
    ∧ m ∈ w.db.messages ∧ m.id = 1 ∧ w.purge.bodyDeleted m.id = false := by
  have hany : (sampleRun archivedRun).any (fun w =>
      w.purge.isIdle && decide (w.db.messages.map (·.id) = [1])
        && decide ((w.calls 0).map (fun call => call.job.mail.fingerprint sampleEnv.prims)
          = some plainDigest)) = true := by
    decide +kernel
  have hmeets : meetsAll World.step keepsBodies (World.init sampleEnv) archivedRun = true := by
    decide +kernel
  have hverify : sampleEnv.prims.ed25519Verify (sampleEnv.prims.ed25519Sign plainDigest)
      plainDigest = true := by
    decide +kernel
  obtain ⟨w, hrun, hw⟩ := (Option.any_eq_true _ _).mp hany
  simp only [Bool.and_eq_true, decide_eq_true_eq] at hw
  obtain ⟨⟨hidle, hrows⟩, hcall⟩ := hw
  have hsigns : w.SignsValidly := by
    intro c call hc
    obtain ⟨raw, now, signedAt, hstart, -⟩ := call_of_run hrun hc
    obtain ⟨rfl, -⟩ := mem_sampleCall_start.mp hstart
    rw [hc, Option.map_some, Option.some.injEq] at hcall
    rw [hcall]
    exact hverify
  have hmem : 1 ∈ w.db.messages.map (·.id) := hrows ▸ List.mem_singleton_self _
  obtain ⟨m, hm, hid⟩ := List.mem_map.mp hmem
  have hnot : w.purge.bodyDeleted m.id = false := by
    rw [Purge.eq_idle hidle]
    rfl
  exact ⟨w, m, hrun, meets_keepsBodies hmeets, hsigns, hm, hid, hnot⟩

/-- The administrator exports it; the account of another address does not. -/
theorem export_returns_original_plain : ∃ w, sampleRun archivedRun = some w
    ∧ exportEml sampleEnv.prims String.toLower w.db w.blobs 1 none = .response plainMail "valid"
    ∧ exportEml sampleEnv.prims String.toLower w.db w.blobs 1 (some ["bob@x.fr"])
      = .httpException 403 "accès non autorisé à ce message" := by
  have haddrs : (prepare sampleEnv sampleTime sampleTime plainMail).map (fun job =>
      job.mail.addrs) = .ok [""] := by
    decide +kernel
  have hlower : ("" : String).toLower ∉ ["bob@x.fr"].map String.toLower := by
    decide +kernel
  obtain ⟨w, m, hrun, hkeeps, hsigns, hm, hid, hnot⟩ := archivedRun_holds
  obtain ⟨c, raw, now, signedAt, job, hstart, hprep, -, hexport⟩ :=
    @export_returns_original _ String.toLower sampleLaws _ w hrun hkeeps hsigns m hm hnot
  obtain ⟨rfl, rfl, rfl, rfl⟩ := mem_sampleCall_start.mp hstart
  rw [hid] at hexport
  refine ⟨w, hrun, (hexport none).1 trivial, (hexport _).2 ?_⟩
  rw [hprep] at haddrs
  rintro ⟨a, ha, hscope⟩
  rw [show job.mail.addrs = [""] from Except.ok.inj haddrs, List.mem_singleton] at ha
  rw [ha] at hscope
  exact hlower hscope

end World

end MailArchiver

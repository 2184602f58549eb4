import MailArchiver.System.SharedAttachments

/-!
# System — ExactlyOnce

What a `process` call that returned has left behind while no purge runs.
Nothing is removed then: rows, blobs and documents stay (`Grows`), and
what a call has seen or done it can rely on (`Backed`).
-/

namespace MailArchiver

open Transition

variable {env : Env}

namespace World

/-- The index document of a message, in the daily index of its archiving. -/
def Indexed (w : World env) (m : Message) : Prop :=
  ∃ doc, w.stores.index.docs (dailyIndex env.indexBase m.signedAt.isoformat) m.id = some doc
    ∧ doc.docId = some m.id

/-- The mail is archived exactly once, in all four stores. -/
def ArchivedOnce (w : World env) (job : Job env) : Prop :=
  ∃ m, w.db.messages.filter (fun m => m.archiveHash = job.archiveHash) = [m]
    ∧ w.db.messageDedup.filter (fun d => d.archiveHash = job.archiveHash) = [m.dedup]
    ∧ (w.blobs.lookup job.archiveHash).isSome
    ∧ w.AttachmentsKept m
    ∧ w.Indexed m

/-- Everything of `w` is still there in `w'`. -/
structure Grows (w w' : World env) : Prop where
  messages : ∀ m ∈ w.db.messages, ∃ m' ∈ w'.db.messages, m'.SameArchive m
  dedup : ∀ d ∈ w.db.messageDedup, d ∈ w'.db.messageDedup
  blobs : ∀ sha, (w.blobs.lookup sha).isSome → (w'.blobs.lookup sha).isSome
  indexed : ∀ m, w.Indexed m → w'.Indexed m

theorem Indexed.congr {w : World env} {m m' : Message} (h : w.Indexed m)
    (hsame : m.SameArchive m') : w.Indexed m' := by
  rw [Indexed, ← hsame.signedAt, ← hsame.id]
  exact h

/-- A document is replaced by one with the same id. -/
theorem Indexed.of_indexMessage {w w' : World env} {id : Nat} {doc : IndexDoc}
    (hdoc : doc.docId = some id)
    (hindex : w'.stores.index = w.stores.index.indexMessage env.indexBase id doc) {m : Message}
    (h : w.Indexed m) : w'.Indexed m := by
  obtain ⟨old, hold, hid⟩ := h
  rw [Indexed, hindex]
  by_cases hsame : dailyIndex env.indexBase m.signedAt.isoformat
      = dailyIndex env.indexBase doc.archivedAt ∧ m.id = id
  · exact ⟨doc, by rw [SearchIndex.docs_indexMessage, if_pos hsame], hsame.2 ▸ hdoc⟩
  · exact ⟨old, by rw [SearchIndex.docs_indexMessage, if_neg hsame, hold], hid⟩

/-- The document of a message that has just been indexed. -/
theorem Indexed.of_doc {w : World env} {x : SearchIndex} {m : Message} {doc : IndexDoc}
    (hindex : w.stores.index = x.indexMessage env.indexBase m.id doc)
    (hat : doc.archivedAt = m.signedAt.isoformat) (hdoc : doc.docId = some m.id) :
    w.Indexed m := by
  refine ⟨doc, ?_, hdoc⟩
  rw [hindex, SearchIndex.docs_indexMessage, hat, if_pos ⟨rfl, rfl⟩]

theorem grows_of_step {w w' : World env} {e : Event} (hs : w.step e = some w')
    (he : e.isPurge = false) : w.Grows w' := by
  have hblobs : ∀ sha, (w.blobs.lookup sha).isSome → (w'.blobs.lookup sha).isSome := by
    intro sha hsome
    refine (BlobStep.of_step hs).isSome hsome fun st hpurge => ?_
    rw [hpurge] at he
    cases he
  cases Move.of_step hs with
  | refused | start | fail =>
      exact ⟨fun m hm => ⟨m, hm, .refl m⟩, fun d hd => hd, hblobs, fun m hm => hm⟩
  | @advance c draw published call call' s hcall hmove =>
      have hdb : (∀ m ∈ w.db.messages, m ∈ s.db.messages)
          ∧ ∀ d ∈ w.db.messageDedup, d ∈ s.db.messageDedup := by
        rcases hmove.db with ⟨hdb, -⟩ | ⟨rows, id, -, hdb, -⟩
        · rw [hdb]
          exact ⟨fun m hm => hm, fun d hd => hd⟩
        · rw [hdb]
          exact ⟨fun m hm => List.mem_append_left _ hm, fun d hd => List.mem_append_left _ hd⟩
      refine ⟨fun m hm => ⟨m, hdb.1 m hm, .refl m⟩, hdb.2, hblobs, fun m hm => ?_⟩
      rcases hmove.index with hindex | ⟨id, doc, hdoc, hindex⟩
      · rw [Indexed, setCall_stores, hindex]
        exact hm
      · exact hm.of_indexMessage hdoc hindex
  | purge => cases he
  | @hold e r q s hstores =>
      rcases hstores with rfl | ⟨row, on, rfl⟩
      · exact ⟨fun m hm => ⟨m, hm, .refl m⟩, fun d hd => hd, hblobs, fun m hm => hm⟩
      · exact ⟨fun m hm => exists_mem_setHold row on hm, fun d hd => hd, hblobs, fun m hm => hm⟩

/-- What a call relies on, at its place, is there. -/
def Backed (w : World env) (call : Call env) : Prop :=
  (call.pc.bodyWritten = true → (w.blobs.lookup call.job.archiveHash).isSome) ∧
    match call.pc with
    | .reindex dup => dup ∈ w.db.messageDedup ∧ dup.archiveHash = call.job.archiveHash
    | .recheck => ∃ dup ∈ w.db.messageDedup, dup.archiveHash = call.job.archiveHash
    | .indexMessage id => ∃ m ∈ w.db.messages, m.SameArchive (call.job.msgRow id)
    | .publish id => ∃ m ∈ w.db.messages, m.SameArchive (call.job.msgRow id) ∧ w.Indexed m
    | .returned => ∃ m ∈ w.db.messages, m.archiveHash = call.job.archiveHash ∧ w.Indexed m
    | _ => True

theorem Backed.grows {w w' : World env} {call : Call env} (h : w.Backed call)
    (hg : w.Grows w') : w'.Backed call := by
  obtain ⟨hbody, hpc⟩ := h
  refine ⟨fun hw => hg.blobs _ (hbody hw), ?_⟩
  cases hplace : call.pc with
  | check | putBody | storeAttachments | upsert | insertDedup | commit | raised => trivial
  | reindex dup =>
      simp only [hplace] at hpc
      exact ⟨hg.dedup dup hpc.1, hpc.2⟩
  | recheck =>
      simp only [hplace] at hpc
      obtain ⟨dup, hdup, hhash⟩ := hpc
      exact ⟨dup, hg.dedup dup hdup, hhash⟩
  | indexMessage id =>
      simp only [hplace] at hpc
      obtain ⟨m, hm, hsame⟩ := hpc
      obtain ⟨m', hm', hsame'⟩ := hg.messages m hm
      exact ⟨m', hm', hsame'.trans hsame⟩
  | publish id =>
      simp only [hplace] at hpc
      obtain ⟨m, hm, hsame, hindexed⟩ := hpc
      obtain ⟨m', hm', hsame'⟩ := hg.messages m hm
      exact ⟨m', hm', hsame'.trans hsame, (hg.indexed m hindexed).congr hsame'.symm⟩
  | returned =>
      simp only [hplace] at hpc
      obtain ⟨m, hm, hhash, hindexed⟩ := hpc
      obtain ⟨m', hm', hsame'⟩ := hg.messages m hm
      exact ⟨m', hm', hsame'.archiveHash.trans hhash, (hg.indexed m hindexed).congr hsame'.symm⟩

theorem mem_dedup_of_find {db : Db} {hash : String} {dup : MessageDedup}
    (h : db.findDedup hash = some dup) : dup ∈ db.messageDedup ∧ dup.archiveHash = hash :=
  ⟨List.mem_of_find?_eq_some h, by simpa using List.find?_some h⟩

theorem not_written {call : Call env} {p : Prop} (h : call.pc.bodyWritten = false)
    (hw : call.pc.bodyWritten = true) : p := by
  rw [h] at hw
  cases hw

/-- A step of a call puts in place what its next step relies on. -/
theorem Backed.move {w : World env} {c : Nat} {call call' : Call env} {s : Stores}
    (h : w.Backed call) (hsound : w.Sound) (hmove : MailArchiver.Move w.stores c call s call')
    (hg : w.Grows (w.setCall c s call')) : (w.setCall c s call').Backed call' := by
  obtain ⟨hbody, hplace⟩ := h
  -- the body was written, and stays
  have hkept : call.pc.bodyWritten = true → call'.job = call.job →
      ((w.setCall c s call').blobs.lookup call'.job.archiveHash).isSome := by
    intro hw hjob
    rw [hjob]
    exact hg.blobs _ (hbody hw)
  cases hmove with
  | duplicate hpc hdup => exact ⟨not_written rfl, mem_dedup_of_find hdup⟩
  | unknown => exact ⟨not_written rfl, trivial⟩
  | raised => exact ⟨not_written rfl, trivial⟩
  | gone hpc hdup =>
      -- the row that refused this call is still there
      simp only [hpc] at hplace
      obtain ⟨dup, hmem, hhash⟩ := hplace
      exact absurd (List.find?_eq_none.mp hdup dup hmem) (by simpa using hhash)
  | @reindexed dup hpc =>
      simp only [hpc] at hplace
      obtain ⟨hmem, hhash⟩ := hplace
      rw [hsound.mirror] at hmem
      obtain ⟨m, hm, rfl⟩ := List.mem_map.mp hmem
      have hat : (call.job.existingDoc m.id m.signedAt).archivedAt = m.signedAt.isoformat := rfl
      have hdoc : (call.job.existingDoc m.id m.signedAt).docId = some m.id := rfl
      refine ⟨not_written rfl, ?_⟩
      simp only [Call.goto, setCall_db]
      exact ⟨m, hm, hhash, Indexed.of_doc rfl hat hdoc⟩
  | bodyPut hpc hblob => exact ⟨fun _ => by simp [blobs], trivial⟩
  | attachmentPut hpc | upserted hpc | flushed hpc | reserved hpc =>
      exact ⟨fun _ => hkept (by simp [hpc, Pc.bodyWritten]) rfl, trivial⟩
  | conflicted hpc hdup => exact ⟨not_written rfl, _, mem_dedup_of_find hdup⟩
  | committed hpc =>
      exact ⟨not_written rfl, _, List.mem_append_right _ (List.mem_singleton_self _), .refl _⟩
  | @indexed id hpc =>
      simp only [hpc] at hplace
      obtain ⟨m, hm, hsame⟩ := hplace
      obtain rfl : m.id = id := hsame.id
      have hat : (call.job.freshDoc m.id).archivedAt = m.signedAt.isoformat := by
        rw [hsame.signedAt]
        rfl
      have hdoc : (call.job.freshDoc m.id).docId = some m.id := rfl
      refine ⟨not_written rfl, ?_⟩
      simp only [Call.goto, setCall_db]
      exact ⟨m, hm, hsame, Indexed.of_doc rfl hat hdoc⟩
  | @published id live hpc =>
      simp only [hpc] at hplace
      obtain ⟨m, hm, hsame, hindexed⟩ := hplace
      exact ⟨not_written rfl, m, hm, hsame.archiveHash, hindexed⟩

/-! ## Runs without a purge -/

/-- What holds as long as no purge has run. -/
structure Unpurged (w : World env) : Prop where
  safe : w.SharedSafe
  idle : w.purge = .idle
  backed : ∀ c call, w.calls c = some call → w.Backed call
  bodies : ∀ m ∈ w.db.messages, (w.blobs.lookup m.archiveHash).isSome

theorem Unpurged.init (env : Env) : (World.init env).Unpurged where
  safe := .init env
  idle := rfl
  backed := by
    intro c call hcall
    cases hcall
  bodies := fun m hm => absurd hm List.not_mem_nil

theorem Unpurged.step {w w' : World env} {e : Event} (h : w.Unpurged)
    (he : e.isPurge = false) (hs : w.step e = some w') : w'.Unpurged := by
  have hg := grows_of_step hs he
  have hsafe : w'.SharedSafe := by
    refine h.safe.step ?_ hs
    cases e with
    | purge => cases he
    | start | advance | fail | readHold | commitHold => trivial
  cases Move.of_step hs with
  | refused => exact h
  | purge => cases he
  | @start c raw now signedAt job hfree hjob =>
      refine ⟨hsafe, h.idle, fun c' call' hcall' => ?_, h.bodies⟩
      rcases setCall_calls_cases hcall' with ⟨-, rfl⟩ | ⟨-, hold⟩
      · exact ⟨not_written rfl, trivial⟩
      · exact (h.backed c' call' hold).grows hg
  | @fail c call hcall hpc =>
      refine ⟨hsafe, h.idle, fun c' call' hcall' => ?_, h.bodies⟩
      rcases setCall_calls_cases hcall' with ⟨-, rfl⟩ | ⟨-, hold⟩
      · exact ⟨not_written rfl, trivial⟩
      · exact (h.backed c' call' hold).grows hg
  | @advance c draw published call call' s hcall hmove =>
      have hold := fun m hm => hg.blobs _ (h.bodies m hm)
      refine ⟨hsafe, h.idle, fun c₁ call₁ hcall₁ => ?_, fun m hm => ?_⟩
      · rcases setCall_calls_cases hcall₁ with ⟨-, rfl⟩ | ⟨-, hother⟩
        · exact (h.backed c call hcall).move h.safe.sound hmove hg
        · exact (h.backed c₁ call₁ hother).grows hg
      · change m ∈ s.db.messages at hm
        rcases hmove.db with ⟨hdb, -⟩ | ⟨rows, id, hpc, hdb, -⟩
        · rw [hdb] at hm
          exact hold m hm
        · rw [hdb] at hm
          rcases List.mem_append.mp hm with hm | hm
          · exact hold m hm
          · rw [List.mem_singleton.mp hm]
            exact hg.blobs _ ((h.backed c call hcall).1 (by simp [hpc, Pc.bodyWritten]))
  | @hold e r q s hstores =>
      refine ⟨hsafe, h.idle, fun c' call' hcall' => (h.backed c' call' hcall').grows hg,
        fun m hm => ?_⟩
      have hrow : ∃ m₀ ∈ w.db.messages, m.SameArchive m₀ := by
        rcases hstores with rfl | ⟨row, on, rfl⟩
        · exact ⟨m, hm, .refl m⟩
        · exact exists_of_mem_setHold hm
      obtain ⟨m₀, hm₀, hsame⟩ := hrow
      rw [hsame.archiveHash]
      exact hg.blobs _ (h.bodies m₀ hm₀)

/-- A call that returned has archived its mail, or found it archived. -/
theorem Unpurged.archivedOnce {w : World env} (h : w.Unpurged) {c : Nat} {call : Call env}
    (hcall : w.calls c = some call) (hret : call.pc = .returned) : w.ArchivedOnce call.job := by
  obtain ⟨-, hplace⟩ := h.backed c call hcall
  simp only [hret] at hplace
  obtain ⟨m, hm, hhash, hindexed⟩ := hplace
  have hrows : w.db.messages.filter (fun m => m.archiveHash = call.job.archiveHash) = [m] := by
    rw [← hhash]
    exact Table.filter_key h.safe.sound.tables.dedup.hashes hm
  refine ⟨m, hrows, ?_, hhash ▸ h.bodies m hm, h.safe.kept h.idle hm, hindexed⟩
  rw [h.safe.sound.mirror, List.filter_map]
  exact congrArg (List.map Message.dedup) hrows

/-! ## Calls that archive nothing -/

/-- What is committed stays committed. -/
theorem committed_step {w w' : World env} {e : Event} (hsound : w.Sound)
    (hs : w.step e = some w') {c : Nat} {call : Call env} {id : Nat} (hcall : w.calls c = some call)
    (hcom : call.committed = some id) :
    ∃ call', w'.calls c = some call' ∧ call'.committed = some id := by
  cases Move.of_step hs with
  | refused | purge | hold => exact ⟨call, hcall, hcom⟩
  | @start c₀ raw now signedAt job hfree hjob =>
      by_cases hc : c = c₀
      · rw [hc, hfree] at hcall
        cases hcall
      · exact ⟨call, (setCall_calls_ne w _ _ hc).trans hcall, hcom⟩
  | @advance c₀ draw published call₀ call' s hcall₀ hmove =>
      by_cases hc : c = c₀
      · subst hc
        obtain rfl : call = call₀ := Option.some.inj (hcall.symm.trans hcall₀)
        refine ⟨call', setCall_calls_self .., ?_⟩
        rcases hmove.db with ⟨-, hsame⟩ | ⟨rows, id', hpc, -, -⟩
        · exact hsame.trans hcom
        · -- before its commit a call has committed nothing
          have hcoh := hsound.coherent c call hcall
          simp only [Call.Coherent, hpc] at hcoh
          rw [hcoh.1] at hcom
          cases hcom
      · exact ⟨call, (setCall_calls_ne w _ _ hc).trans hcall, hcom⟩
  | @fail c₀ call₀ hcall₀ hpc =>
      by_cases hc : c = c₀
      · subst hc
        obtain rfl : call = call₀ := Option.some.inj (hcall.symm.trans hcall₀)
        exact ⟨_, setCall_calls_self .., hcom⟩
      · exact ⟨call, (setCall_calls_ne w _ _ hc).trans hcall, hcom⟩

/-- A step of a call that does not commit leaves the tables alone. -/
theorem db_of_call_step {w w' : World env} {e : Event} {c : Nat} (hs : w.step e = some w')
    (hc : e.call = some c) :
    w'.db = w.db ∨ ∃ call id, w'.calls c = some call ∧ call.committed = some id := by
  cases Move.of_step hs with
  | refused | start | fail => exact .inl rfl
  | @advance c₀ draw published call call' s hcall hmove =>
      obtain rfl : c₀ = c := Option.some.inj hc
      rcases hmove.db with ⟨hdb, -⟩ | ⟨rows, id, -, -, hcom⟩
      · exact .inl hdb
      · exact .inr ⟨call', id, setCall_calls_self .., hcom⟩
  | purge => cases hc
  | hold hstores he =>
      rw [he.1] at hc
      cases hc

/-- No step of call `c` changes the tables. -/
def LeavesTables (env : Env) (es : List Event) (c : Nat) : Prop :=
  ∀ es₁ e es₂ (w₁ w₂ : World env), es = es₁ ++ e :: es₂ → e.call = some c →
    run World.step (World.init env) es₁ = some w₁ → w₁.step e = some w₂ → w₂.db = w₁.db

theorem leavesTables_of_run {es : List Event} {w : World env}
    (hrun : run World.step (World.init env) es = some w) {c : Nat}
    (hnone : ∀ call, w.calls c = some call → call.committed = none) : LeavesTables env es c := by
  intro es₁ e es₂ w₁ w₂ hes hc hrun₁ hs
  have hsound : w₂.Sound := reachable_sound (.snoc ⟨es₁, hrun₁⟩ hs)
  rcases db_of_call_step hs hc with hdb | ⟨call, id, hcall, hcom⟩
  · exact hdb
  · -- what it committed would still be committed at the end
    exfalso
    rw [hes, run_append] at hrun
    obtain ⟨u, hu, hrest⟩ := hrun
    obtain rfl : w₁ = u := Option.some.inj (hrun₁.symm.trans hu)
    obtain ⟨u', hu', hrest'⟩ := run_cons_eq_some.mp hrest
    obtain rfl : w₂ = u' := Option.some.inj (hs.symm.trans hu')
    have hend := run_invariant
      (I := fun w => w.Sound ∧ ∃ call, w.calls c = some call ∧ call.committed = some id)
      (fun v e' v' ⟨hv, call', hcall', hcom'⟩ hs' =>
        ⟨hv.step hs', committed_step hv hs' hcall' hcom'⟩) hrest' ⟨hsound, call, hcall, hcom⟩
    obtain ⟨-, call', hcall', hcom'⟩ := hend
    rw [hnone call' hcall'] at hcom'
    cases hcom'

/-- **A mail that was processed is archived exactly once**: whatever the
interleaving of calls, repeated deliveries and failures, as long as no
purge runs, a call that returned leaves one row, one dedup row, the body,
the attachments and the index document of its mail; a call that did not
commit has left the tables alone. -/
theorem processed_exactly_once {es : List Event} {w : World env}
    (hrun : run World.step (World.init env) es = some w) (hes : ∀ e ∈ es, e.isPurge = false) :
    (∀ c call, w.calls c = some call → call.pc = .returned → w.ArchivedOnce call.job)
      ∧ ∀ c, (∀ call, w.calls c = some call → call.committed = none) → LeavesTables env es c := by
  have hinv : w.Unpurged := run_invariant_of_meets (C := fun _ e => e.isPurge = false)
    (fun _ _ _ hw he hs => hw.step he hs) hrun (meets_of_forall hes) (.init env)
  constructor
  · exact fun c call hcall hret => hinv.archivedOnce hcall hret
  · exact fun c hnone => leavesTables_of_run hrun hnone

/-- One mail delivered to two workers at once, and another mail whose
worker dies behind its `put`. -/
def deliveredRun : List Event :=
  sampleCall 0 plainMail sampleTime 2 ++ sampleCall 1 plainMail sampleNow 2
    ++ List.replicate 5 (.advance 0 sampleDraw true)
    ++ List.replicate 4 (.advance 1 sampleDraw false)
    ++ sampleCall 2 wrapperMail sampleNow 2 ++ [.fail 2]

/-- Both deliveries return, the second one refused by `message_dedup`. -/
theorem processed_exactly_once_sample : ∃ w, sampleRun deliveredRun = some w
    ∧ (w.calls 0).map (·.pc) = some .returned ∧ (w.calls 1).map (·.pc) = some .returned
    ∧ (w.calls 2).map (·.pc) = some .raised
    ∧ (∀ c call, w.calls c = some call → call.pc = .returned → w.ArchivedOnce call.job)
    ∧ LeavesTables sampleEnv deliveredRun 2 := by
  have hany : (sampleRun deliveredRun).any (fun w =>
      decide ((w.calls 0).map (·.pc) = some .returned)
        && decide ((w.calls 1).map (·.pc) = some .returned)
        && decide ((w.calls 2).map (fun call => (call.pc, call.committed))
          = some (.raised, none))) = true := by
    decide +kernel
  obtain ⟨w, hrun, hw⟩ := (Option.any_eq_true _ _).mp hany
  simp only [Bool.and_eq_true, decide_eq_true_eq] at hw
  obtain ⟨⟨h₀, h₁⟩, h₂⟩ := hw
  obtain ⟨call₂, hcall₂, hfacts⟩ := Option.map_eq_some_iff.mp h₂
  obtain ⟨hpc₂, hcom₂⟩ := Prod.mk.inj hfacts
  obtain ⟨honce, hleaves⟩ := processed_exactly_once hrun (by decide +kernel)
  refine ⟨w, hrun, h₀, h₁, by rw [hcall₂, ← hpc₂]; rfl, honce, hleaves 2 fun call hcall => ?_⟩
  obtain rfl : call₂ = call := Option.some.inj (hcall₂.symm.trans hcall)
  exact hcom₂

end World

end MailArchiver

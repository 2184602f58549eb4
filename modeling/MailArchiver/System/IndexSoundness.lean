import MailArchiver.System.ExactlyOnce

/-!
# System — IndexSoundness

Where the documents of the daily indices and the live events come from.
A document outlives its row, so what it says is traced to the calls: the
one that archived the row names the index and the instant, one on a mail
of the same hash gives the rest (`DocFrom`). A live event comes once,
when its mail is archived and indexed (`Announced`). No daily index is
dropped in these runs: `_drop_old_indices` stands with the retention.
-/

namespace MailArchiver

open Transition

variable {env : Env}

/-- A purge writes no document and announces nothing. -/
theorem Purge.Move.keeps_index {s s' : Stores} {p p' : Purge} {e : PurgeEvent}
    (h : Purge.Move s p e s' p') : s'.index = s.index ∧ s'.live = s.live := by
  cases h <;> exact ⟨rfl, rfl⟩

/-- The live events after a step of a call: those before, or the one of
the mail it has archived, and then the call has returned. -/
theorem live_of_advance {s s' : Stores} {c : Nat} {call call' : Call env} {draw : Draw}
    {published : Bool} (h : advance s c call draw published = some (s', call')) :
    s'.live = s.live ∨ ∃ id, call.pc = .publish id ∧ s'.live = s.live ++ [call.job.event id]
      ∧ s'.index = s.index ∧ call' = call.goto .returned := by
  cases hpc : call.pc with
  | publish id =>
      simp only [advance, hpc, Option.some.injEq, Prod.mk.injEq] at h
      obtain ⟨rfl, rfl⟩ := h
      cases published with
      | true => exact .inr ⟨id, rfl, rfl, rfl, rfl⟩
      | false => exact .inl rfl
  | check | reindex | putBody | storeAttachments | upsert | insertDedup | commit | recheck
  | indexMessage | returned | raised =>
      left
      cases Move.of_advance h with
      | published hpc' =>
          rw [hpc] at hpc'
          cases hpc'
      | duplicate | unknown | gone | reindexed | bodyPut | attachmentPut | upserted | flushed
      | conflicted | reserved | committed | indexed | raised => rfl

namespace World

/-- A call is on record with this job. -/
def Runs (w : World env) (job : Job env) : Prop :=
  ∃ c call, w.calls c = some call ∧ call.job = job

/-- The call that committed the row `id` had this job. -/
def ArchivedAs (w : World env) (id : Nat) (job : Job env) : Prop :=
  ∃ c call, w.calls c = some call ∧ call.committed = some id ∧ call.job = job

/-- The document under `id` in the index `name` is that of the row `id`,
of a mail with its archive hash. -/
def DocFrom (w : World env) (name : String) (id : Nat) (doc : IndexDoc) : Prop :=
  ∃ job job', w.ArchivedAs id job ∧ w.Runs job' ∧ job'.archiveHash = job.archiveHash
    ∧ name = dailyIndex env.indexBase job.signedAt.isoformat
    ∧ doc = job'.existingDoc id job.signedAt

/-- The call has announced the mail it archived, which is indexed. -/
def Announced (w : World env) (e : LiveEvent) : Prop :=
  ∃ c call, w.calls c = some call ∧ call.pc = .returned ∧ call.committed = some e.id
    ∧ e = call.job.event e.id
    ∧ (w.stores.index.docs (dailyIndex env.indexBase call.job.signedAt.isoformat) e.id).isSome

/-! ## What a step leaves on record -/

/-- A call stays on record with its job and what it committed. -/
theorem call_step {w w' : World env} {e : Event} (hsound : w.Sound) (hs : w.step e = some w')
    {c : Nat} {call : Call env} (hcall : w.calls c = some call) :
    ∃ call', w'.calls c = some call' ∧ call'.job = call.job
      ∧ ∀ id, call.committed = some id → call'.committed = some id := by
  have hjob : ∃ call', w'.calls c = some call' ∧ call'.job = call.job := by
    cases Move.of_step hs with
    | refused | purge | hold => exact ⟨call, hcall, rfl⟩
    | @start c₀ raw now signedAt job hfree hjob =>
        by_cases hc : c = c₀
        · rw [hc, hfree] at hcall
          cases hcall
        · exact ⟨call, (setCall_calls_ne w _ _ hc).trans hcall, rfl⟩
    | @advance c₀ draw published call₀ call' s hcall₀ hmove =>
        by_cases hc : c = c₀
        · subst hc
          obtain rfl : call = call₀ := Option.some.inj (hcall.symm.trans hcall₀)
          exact ⟨call', setCall_calls_self .., hmove.job⟩
        · exact ⟨call, (setCall_calls_ne w _ _ hc).trans hcall, rfl⟩
    | @fail c₀ call₀ hcall₀ hpc =>
        by_cases hc : c = c₀
        · subst hc
          obtain rfl : call = call₀ := Option.some.inj (hcall.symm.trans hcall₀)
          exact ⟨_, setCall_calls_self .., rfl⟩
        · exact ⟨call, (setCall_calls_ne w _ _ hc).trans hcall, rfl⟩
  obtain ⟨call', hcall', hsame⟩ := hjob
  refine ⟨call', hcall', hsame, fun id hcom => ?_⟩
  obtain ⟨call'', hcall'', hcom'⟩ := committed_step hsound hs hcall hcom
  obtain rfl : call' = call'' := Option.some.inj (hcall'.symm.trans hcall'')
  exact hcom'

theorem Runs.step {w w' : World env} {e : Event} {job : Job env} (h : w.Runs job)
    (hsound : w.Sound) (hs : w.step e = some w') : w'.Runs job := by
  obtain ⟨c, call, hcall, rfl⟩ := h
  obtain ⟨call', hcall', hjob, -⟩ := call_step hsound hs hcall
  exact ⟨c, call', hcall', hjob⟩

theorem ArchivedAs.step {w w' : World env} {e : Event} {id : Nat} {job : Job env}
    (h : w.ArchivedAs id job) (hsound : w.Sound) (hs : w.step e = some w') :
    w'.ArchivedAs id job := by
  obtain ⟨c, call, hcall, hcom, rfl⟩ := h
  obtain ⟨call', hcall', hjob, hkept⟩ := call_step hsound hs hcall
  exact ⟨c, call', hcall', hkept id hcom, hjob⟩

/-- What is archived under an id stays so. -/
theorem archivedAs_run {w later : World env} {es : List Event} {id : Nat} {job : Job env}
    (hrun : run World.step w es = some later) (hsound : w.Sound) (h : w.ArchivedAs id job) :
    later.Sound ∧ later.ArchivedAs id job :=
  run_invariant (I := fun w : World env => w.Sound ∧ w.ArchivedAs id job)
    (fun _ _ _ ⟨hsound, h⟩ hs => ⟨hsound.step hs, h.step hsound hs⟩) hrun ⟨hsound, h⟩

theorem DocFrom.step {w w' : World env} {e : Event} {name : String} {id : Nat} {doc : IndexDoc}
    (h : w.DocFrom name id doc) (hsound : w.Sound) (hs : w.step e = some w') :
    w'.DocFrom name id doc := by
  obtain ⟨job, job', harch, hruns, hfacts⟩ := h
  exact ⟨job, job', harch.step hsound hs, hruns.step hsound hs, hfacts⟩

theorem ArchivedAs.unique {w : World env} (hsound : w.Sound) {id : Nat} {job job' : Job env}
    (h : w.ArchivedAs id job) (h' : w.ArchivedAs id job') : job = job' := by
  obtain ⟨c, call, hcall, hcom, rfl⟩ := h
  obtain ⟨c', call', hcall', hcom', rfl⟩ := h'
  obtain rfl := hsound.committed_inj hcall hcom hcall' hcom'
  obtain rfl : call = call' := Option.some.inj (hcall.symm.trans hcall')
  rfl

/-- A row in the tables is that of the job it was archived as. -/
theorem ArchivedAs.row {w : World env} (hsound : w.Sound) {m : Message} {job : Job env}
    (hm : m ∈ w.db.messages) (h : w.ArchivedAs m.id job) : m.SameArchive (job.msgRow m.id) := by
  obtain ⟨c, call, hcall, hcom, hsame⟩ := hsound.origin hm
  obtain rfl := h.unique hsound ⟨c, call, hcall, hcom, rfl⟩
  exact hsame

/-- The dedup row a call meets names a row archived under its hash. -/
theorem archivedAs_of_find {w : World env} (hsound : w.Sound) {hash : String}
    {dup : MessageDedup} (hdup : w.db.findDedup hash = some dup) :
    ∃ job, w.ArchivedAs dup.messageId job ∧ job.archiveHash = hash
      ∧ job.signedAt = dup.signedAt := by
  obtain ⟨hmem, hhash⟩ := mem_dedup_of_find hdup
  rw [hsound.mirror] at hmem
  obtain ⟨m, hm, rfl⟩ := List.mem_map.mp hmem
  obtain ⟨c, call, hcall, hcom, hsame⟩ := hsound.origin hm
  refine ⟨call.job, ⟨c, call, hcall, hcom, rfl⟩, ?_, ?_⟩
  · rw [← hhash]
    exact hsame.archiveHash.symm
  · exact hsame.signedAt.symm

/-! ## The documents -/

structure IndexSound (w : World env) : Prop where
  /-- A call that will reindex a mail knows whose row it is. -/
  reindex : ∀ c call dup, w.calls c = some call → call.pc = .reindex dup →
    ∃ job, w.ArchivedAs dup.messageId job ∧ job.archiveHash = call.job.archiveHash
      ∧ job.signedAt = dup.signedAt
  docs : ∀ name id doc, w.stores.index.docs name id = some doc → w.DocFrom name id doc

theorem IndexSound.init (env : Env) : (World.init env).IndexSound where
  reindex := by
    intro c call dup hcall
    cases hcall
  docs := by
    intro name id doc hdoc
    cases hdoc

/-- The new documents of a step are those of the rows they are put under. -/
theorem docs_move {w : World env} (h : w.IndexSound) (hsound : w.Sound) {c : Nat}
    {call call' : Call env} {s : Stores} (hcall : w.calls c = some call)
    (hmove : MailArchiver.Move w.stores c call s call') {name : String} {id : Nat}
    {doc : IndexDoc} (hdoc : s.index.docs name id = some doc) : w.DocFrom name id doc := by
  have hput : ∀ (job : Job env) (id' : Nat), w.ArchivedAs id' job →
      call.job.archiveHash = job.archiveHash →
      (w.stores.index.indexMessage env.indexBase id' (call.job.existingDoc id' job.signedAt)).docs
        name id = some doc → w.DocFrom name id doc := by
    intro job id' harch hhash hfound
    rw [SearchIndex.docs_indexMessage] at hfound
    by_cases hkey : name = dailyIndex env.indexBase
        (call.job.existingDoc id' job.signedAt).archivedAt ∧ id = id'
    · rw [if_pos hkey] at hfound
      obtain ⟨hname, rfl⟩ := hkey
      exact ⟨job, call.job, harch, ⟨c, call, hcall, rfl⟩, hhash, hname,
        (Option.some.inj hfound).symm⟩
    · rw [if_neg hkey] at hfound
      exact h.docs name id doc hfound
  cases hmove with
  | @reindexed dup hpc =>
      obtain ⟨job, harch, hhash, hat⟩ := h.reindex c call dup hcall hpc
      refine hput job dup.messageId harch hhash.symm ?_
      rw [hat]
      exact hdoc
  | @indexed id' hpc =>
      have hcom : call.committed = some id' := by
        have hcoh := hsound.coherent c call hcall
        rwa [Call.Coherent, hpc] at hcoh
      exact hput call.job id' ⟨c, call, hcall, hcom, rfl⟩ rfl hdoc
  | duplicate | unknown | gone | bodyPut | attachmentPut | upserted | flushed | conflicted
  | reserved | committed | published | raised => exact h.docs name id doc hdoc

theorem IndexSound.step {w w' : World env} {e : Event} (h : w.IndexSound) (hsound : w.Sound)
    (hs : w.step e = some w') : w'.IndexSound := by
  have hold : ∀ c call dup, w.calls c = some call → call.pc = .reindex dup →
      ∃ job, w'.ArchivedAs dup.messageId job ∧ job.archiveHash = call.job.archiveHash
        ∧ job.signedAt = dup.signedAt := by
    intro c call dup hcall hpc
    obtain ⟨job, harch, hfacts⟩ := h.reindex c call dup hcall hpc
    exact ⟨job, harch.step hsound hs, hfacts⟩
  have hkept : ∀ name id doc, w.stores.index.docs name id = some doc →
      w'.DocFrom name id doc :=
    fun name id doc hdoc => (h.docs name id doc hdoc).step hsound hs
  cases Move.of_step hs with
  | refused => exact h
  | start hfree hjob =>
      refine ⟨fun c call dup hcall hpc => ?_, hkept⟩
      rcases setCall_calls_cases hcall with ⟨-, rfl⟩ | ⟨-, hother⟩
      · cases hpc
      · exact hold c call dup hother hpc
  | fail hcall₀ hpc₀ =>
      refine ⟨fun c call dup hcall hpc => ?_, hkept⟩
      rcases setCall_calls_cases hcall with ⟨-, rfl⟩ | ⟨-, hother⟩
      · cases hpc
      · exact hold c call dup hother hpc
  | @advance c₀ draw published call₀ call' s hcall₀ hmove =>
      constructor
      · intro c call dup hcall hpc
        rcases setCall_calls_cases hcall with ⟨-, rfl⟩ | ⟨-, hother⟩
        · -- only the two lookups of the hash lead there
          rw [hmove.job]
          cases hmove with
          | duplicate hpc₀ hdup =>
              cases hpc
              obtain ⟨job, harch, hfacts⟩ := archivedAs_of_find hsound hdup
              exact ⟨job, harch.step hsound hs, hfacts⟩
          | unknown | gone | reindexed | bodyPut | attachmentPut | upserted | flushed
          | conflicted | reserved | committed | indexed | published | raised => cases hpc
        · exact hold c call dup hother hpc
      · intro name id doc hdoc
        exact (docs_move h hsound hcall₀ hmove hdoc).step hsound hs
  | @purge e s p hmove =>
      have hindex : s.index = w.stores.index := hmove.keeps_index.1
      refine ⟨hold, fun name id doc hdoc => hkept name id doc ?_⟩
      rw [← hindex]
      exact hdoc
  | @hold e r q s hstores =>
      refine ⟨hold, fun name id doc hdoc => hkept name id doc ?_⟩
      rcases hstores with rfl | ⟨row, on, rfl⟩
      · exact hdoc
      · exact hdoc

/-! ## The live events -/

/-- A document stays, or is replaced, and then its mail stays indexed. -/
theorem docs_isSome_step {w w' : World env} {e : Event} (hs : w.step e = some w')
    {name : String} {id : Nat} (h : (w.stores.index.docs name id).isSome) :
    (w'.stores.index.docs name id).isSome := by
  cases Move.of_step hs with
  | refused | start | fail => exact h
  | @advance c draw published call call' s hcall hmove =>
      show (s.index.docs name id).isSome
      rcases hmove.index with hindex | ⟨id', doc, -, hindex⟩
      · rw [hindex]
        exact h
      · rw [hindex, SearchIndex.docs_indexMessage]
        split
        · rfl
        · exact h
  | @purge e s p hmove =>
      show (s.index.docs name id).isSome
      rw [hmove.keeps_index.1]
      exact h
  | hold hstores =>
      rcases hstores with rfl | ⟨row, on, rfl⟩
      · exact h
      · exact h

structure LiveSound (w : World env) : Prop where
  /-- A call about to announce its mail has indexed it. -/
  publish : ∀ c call id, w.calls c = some call → call.pc = .publish id →
    (w.stores.index.docs (dailyIndex env.indexBase call.job.signedAt.isoformat) id).isSome
  announced : ∀ e ∈ w.stores.live, w.Announced e
  once : (w.stores.live.map (·.id)).Nodup

theorem LiveSound.init (env : Env) : (World.init env).LiveSound where
  publish := by
    intro c call id hcall
    cases hcall
  announced := fun e he => absurd he List.not_mem_nil
  once := List.nodup_nil

/-- A call that returned does not move again. -/
theorem returned_step {w w' : World env} {e : Event} (hs : w.step e = some w') {c : Nat}
    {call : Call env} (hcall : w.calls c = some call) (hret : call.pc = .returned) :
    w'.calls c = some call := by
  have hne : ∀ c₀ call₀, w.calls c₀ = some call₀ → call₀.pc ≠ .returned → c ≠ c₀ := by
    rintro c₀ call₀ hcall₀ hpc rfl
    rw [hcall, Option.some.injEq] at hcall₀
    exact hpc (hcall₀ ▸ hret)
  cases Move.of_step hs with
  | refused | purge | hold => exact hcall
  | @start c₀ raw now signedAt job hfree hjob =>
      have hc : c ≠ c₀ := by
        rintro rfl
        rw [hfree] at hcall
        cases hcall
      rw [setCall_calls_ne w _ _ hc]
      exact hcall
  | @advance c₀ draw published call₀ call' s hcall₀ hmove =>
      have hpc : call₀.pc ≠ .returned := by
        cases hmove with
        | duplicate hpc => rcases hpc with hpc | hpc <;> simp [hpc]
        | raised hpc => exact hpc
        | unknown hpc | gone hpc | reindexed hpc | bodyPut hpc | attachmentPut hpc | upserted hpc
        | flushed hpc | conflicted hpc | reserved hpc | committed hpc | indexed hpc
        | published hpc => simp [hpc]
      rw [setCall_calls_ne w _ _ (hne c₀ call₀ hcall₀ hpc)]
      exact hcall
  | @fail c₀ call₀ hcall₀ hpc =>
      rw [setCall_calls_ne w _ _ (hne c₀ call₀ hcall₀ hpc)]
      exact hcall

theorem Announced.step {w w' : World env} {e : Event} {l : LiveEvent} (h : w.Announced l)
    (hs : w.step e = some w') : w'.Announced l := by
  obtain ⟨c, call, hcall, hret, hcom, heq, hdoc⟩ := h
  exact ⟨c, call, returned_step hs hcall hret, hret, hcom, heq, docs_isSome_step hs hdoc⟩

/-- A step announces at most one mail, which no call had announced. -/
theorem live_step {w w' : World env} {e : Event} (hs : w.step e = some w') :
    w'.stores.live = w.stores.live ∨ ∃ c call id, w.calls c = some call ∧ call.pc = .publish id
      ∧ w'.stores.live = w.stores.live ++ [call.job.event id]
      ∧ w'.calls c = some (call.goto .returned) := by
  cases Move.of_step hs with
  | refused | start | fail => exact .inl rfl
  | @advance c draw published call call' s hcall hmove =>
      cases hadv : MailArchiver.advance w.stores c call draw published with
      | none => simp [World.step, hcall, hadv] at hs
      | some next =>
          obtain ⟨s₁, call₁⟩ := next
          rw [Option.some.inj (hs.symm.trans (step_advance hcall hadv))]
          rcases live_of_advance hadv with hlive | ⟨id, hpc, hlive, -, rfl⟩
          · exact .inl hlive
          · exact .inr ⟨c, call, id, hcall, hpc, hlive, setCall_calls_self ..⟩
  | purge hmove => exact .inl hmove.keeps_index.2
  | hold hstores =>
      rcases hstores with rfl | ⟨row, on, rfl⟩
      · exact .inl rfl
      · exact .inl rfl

theorem LiveSound.step {w w' : World env} {e : Event} (h : w.LiveSound) (hsound : w.Sound)
    (hs : w.step e = some w') : w'.LiveSound := by
  have hpublish : ∀ c call id, w'.calls c = some call → call.pc = .publish id →
      (w'.stores.index.docs (dailyIndex env.indexBase call.job.signedAt.isoformat) id).isSome := by
    intro c call id hcall hpc
    have hold : w.calls c = some call →
        (w'.stores.index.docs (dailyIndex env.indexBase call.job.signedAt.isoformat) id).isSome :=
      fun hbefore => docs_isSome_step hs (h.publish c call id hbefore hpc)
    cases Move.of_step hs with
    | refused | purge | hold => exact hold hcall
    | start hfree hjob =>
        rcases setCall_calls_cases hcall with ⟨-, rfl⟩ | ⟨-, hother⟩
        · cases hpc
        · exact hold hother
    | fail hcall₀ hpc₀ =>
        rcases setCall_calls_cases hcall with ⟨-, rfl⟩ | ⟨-, hother⟩
        · cases hpc
        · exact hold hother
    | advance hcall₀ hmove =>
        rcases setCall_calls_cases hcall with ⟨-, rfl⟩ | ⟨-, hother⟩
        · -- it has just put the document
          cases hmove with
          | @indexed id' hpc₀ =>
              cases hpc
              rw [setCall_stores, SearchIndex.docs_indexMessage, if_pos ⟨rfl, rfl⟩]
              rfl
          | duplicate | unknown | gone | reindexed | bodyPut | attachmentPut | upserted
          | flushed | conflicted | reserved | committed | published | raised => cases hpc
        · exact hold hother
  refine ⟨hpublish, ?_, ?_⟩
  · intro l hl
    rcases live_step hs with hlive | ⟨c, call, id, hcall, hpc, hlive, hcall'⟩
    · rw [hlive] at hl
      exact (h.announced l hl).step hs
    · rw [hlive] at hl
      rcases List.mem_append.mp hl with hl | hl
      · exact (h.announced l hl).step hs
      · rw [List.mem_singleton.mp hl]
        refine ⟨c, call.goto .returned, hcall', rfl, ?_, rfl, ?_⟩
        · have hcoh := hsound.coherent c call hcall
          rwa [Call.Coherent, hpc] at hcoh
        · exact docs_isSome_step hs (h.publish c call id hcall hpc)
  · rcases live_step hs with hlive | ⟨c, call, id, hcall, hpc, hlive, -⟩
    · rw [hlive]
      exact h.once
    · rw [hlive, List.map_append, List.map_singleton]
      refine List.nodup_append.mpr ⟨h.once, List.nodup_singleton _, ?_⟩
      intro i hi i' hi' heq
      obtain rfl : i' = id := List.mem_singleton.mp hi'
      subst heq
      -- an earlier event of this row would be of this very call
      obtain ⟨l, hl, rfl⟩ := List.mem_map.mp hi
      obtain ⟨c', call', hcall', hret, hcom', -⟩ := h.announced l hl
      have hcom : call.committed = some l.id := by
        have hcoh := hsound.coherent c call hcall
        rwa [Call.Coherent, hpc] at hcoh
      obtain rfl := hsound.committed_inj hcall' hcom' hcall hcom
      obtain rfl : call' = call := Option.some.inj (hcall'.symm.trans hcall)
      rw [hpc] at hret
      cases hret

/-! ## Every reachable world -/

theorem reachable_indexSound {w : World env}
    (h : Transition.Reachable World.step (World.init env) w) :
    w.Sound ∧ w.IndexSound ∧ w.LiveSound := by
  refine h.invariant (I := fun w : World env => w.Sound ∧ w.IndexSound ∧ w.LiveSound)
    ⟨.init env, .init env, .init env⟩ ?_
  intro w e w' ⟨hsound, hindex, hlive⟩ hs
  exact ⟨hsound.step hs, hindex.step hsound hs, hlive.step hsound hs⟩

/-- **A search document is that of an archived mail**: whatever the
interleaving of calls, failures, purges and holds, what lies in the index
`name` under `id` says what a call on a mail with the archive hash of the
row `id` says, under the instant the row was signed at and in the index
of that day, and no other index has a document of that row. While the row
is there, they are its own hash and instant. Daily indices are not dropped
meanwhile. -/
theorem document_of_archived_mail {w : World env}
    (h : Transition.Reachable World.step (World.init env) w) {name : String} {id : Nat}
    {doc : IndexDoc} (hdoc : w.stores.index.docs name id = some doc) :
    w.DocFrom name id doc
      ∧ (∀ name', (w.stores.index.docs name' id).isSome → name' = name)
      ∧ ∀ m ∈ w.db.messages, m.id = id →
          name = dailyIndex env.indexBase m.signedAt.isoformat
            ∧ ∃ job, w.Runs job ∧ job.archiveHash = m.archiveHash
              ∧ doc = job.existingDoc m.id m.signedAt := by
  obtain ⟨hsound, hindex, -⟩ := reachable_indexSound h
  have hfrom := hindex.docs name id doc hdoc
  obtain ⟨job, job', harch, hruns, hhash, hname, heq⟩ := hfrom
  refine ⟨⟨job, job', harch, hruns, hhash, hname, heq⟩, ?_, ?_⟩
  · intro name' hsome
    obtain ⟨doc', hdoc'⟩ := Option.isSome_iff_exists.mp hsome
    obtain ⟨job₁, -, harch₁, -, -, hname₁, -⟩ := hindex.docs name' id doc' hdoc'
    rw [hname₁, hname, harch₁.unique hsound harch]
  · rintro m hm rfl
    have hrow := harch.row hsound hm
    rw [hrow.signedAt, hrow.archiveHash]
    exact ⟨hname, job', hruns, hhash, heq⟩

/-- The document of a mail delivered twice is there, once. -/
theorem document_of_archived_mail_sample : ∃ w doc, sampleRun deliveredRun = some w
    ∧ w.stores.index.docs "messages-2026.03.14" 1 = some doc
    ∧ w.DocFrom "messages-2026.03.14" 1 doc := by
  have hany : (sampleRun deliveredRun).any (fun w =>
      (w.stores.index.docs "messages-2026.03.14" 1).isSome) = true := by
    decide +kernel
  obtain ⟨w, hrun, hw⟩ := (Option.any_eq_true _ _).mp hany
  obtain ⟨doc, hdoc⟩ := Option.isSome_iff_exists.mp hw
  exact ⟨w, doc, hrun, hdoc, (document_of_archived_mail ⟨_, hrun⟩ hdoc).1⟩

/-- **A mail is announced once, when it can be found**: whatever the
interleaving, the live events have distinct ids, and each is the event of
the mail that a call committed under that id, of a call that has returned
and whose document is in the index of its day, as long as no daily index
is dropped. -/
theorem announced_once_indexed {w : World env}
    (h : Transition.Reachable World.step (World.init env) w) :
    (w.stores.live.map (·.id)).Nodup ∧ ∀ e ∈ w.stores.live, w.Announced e :=
  ⟨(reachable_indexSound h).2.2.once, (reachable_indexSound h).2.2.announced⟩

/-- Of the two deliveries of a mail one announces it. -/
theorem announced_once_indexed_sample : ∃ w, sampleRun deliveredRun = some w
    ∧ w.stores.live.map (·.id) = [1] ∧ ∀ e ∈ w.stores.live, w.Announced e := by
  have hany : (sampleRun deliveredRun).any (fun w =>
      decide (w.stores.live.map (·.id) = [1])) = true := by
    decide +kernel
  obtain ⟨w, hrun, hw⟩ := (Option.any_eq_true _ _).mp hany
  exact ⟨w, hrun, of_decide_eq_true hw, (announced_once_indexed ⟨_, hrun⟩).2⟩

end World

end MailArchiver

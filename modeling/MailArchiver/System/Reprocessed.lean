import MailArchiver.System.Soundness

/-!
# System — Reprocessed

Calls of `process` on the raw bytes of a mail that is archived already:
a redelivery, a replay from the dead-letter queue, a new collection. Each
of them finds the dedup row and writes the index document again, from a
new parse. All of the new document is a function of the raw bytes or is
restored from the row, except for the date of a mail without a readable
`Date` header, which `parse` takes from the clock.
-/

namespace MailArchiver

open Transition

variable {env : Env}

/-- The mail has a `Date` header that `parsedate_to_datetime` reads. -/
def DateReadable (E : EmailPackage) (raw : Bytes) : Prop :=
  ∃ v, (E.message raw).header "Date" = .ok (some v) ∧ v ≠ ""
    ∧ ∃ d, E.parsedateToDatetime v = .ok d

theorem mailDate_of_readable {E : EmailPackage} {raw : Bytes} (h : DateReadable E raw)
    (now now' : DateTime) : mailDate E now ((E.message raw).header "Date")
      = mailDate E now' ((E.message raw).header "Date") := by
  obtain ⟨v, hv, hne, ⟨d, zoned⟩, hd⟩ := h
  cases zoned with
  | true => simp [mailDate, hv, hne, hd, bind, Except.bind, pure, Except.pure]
  | false => simp [mailDate, hv, hne, hd, bind, Except.bind, pure, Except.pure]

/-- An error that is caught, or no date at all: the time of the parse. -/
theorem mailDate_of_not_readable {E : EmailPackage} {raw : Bytes} (hnot : ¬DateReadable E raw)
    {now date : DateTime} (h : mailDate E now ((E.message raw).header "Date") = .ok date) :
    date = now := by
  have hcaught : ∀ {e : PyError},
      (if e.isTypeOrValueError then .ok now else .error e : Except PyError DateTime) = .ok date →
        date = now := by
    intro e he
    split at he
    · exact (Except.ok.inj he).symm
    · cases he
  cases hv : (E.message raw).header "Date" with
  | error e =>
      rw [hv] at h
      exact hcaught h
  | ok v =>
      rw [hv] at h
      cases v with
      | none => exact (Except.ok.inj h).symm
      | some v =>
          by_cases hne : v = ""
          · simp [mailDate, hne, bind, Except.bind, pure, Except.pure] at h
            exact h.symm
          · cases hd : E.parsedateToDatetime v with
            | error e =>
                simp only [mailDate, hne, hd, bind, Except.bind, if_false] at h
                exact hcaught h
            | ok d => exact absurd ⟨v, hv, hne, d, hd⟩ hnot

theorem parse_date {E : EmailPackage} {now : DateTime} {raw : Bytes} {mail : ParsedMail}
    (h : parse E now raw = .ok mail) :
    mailDate E now ((E.message raw).header "Date") = .ok mail.date := by
  obtain ⟨textParts, hparsed⟩ := parse_eq_ok.mp h
  exact hparsed.date

namespace Job

/-- The document of the duplicate path, field by field. -/
theorem existingDoc_again {job job' : Job env} {now signedAt : DateTime}
    (h : prepare env now signedAt job.mail.raw = .ok job') (id : Nat) :
    ∃ date, mailDate env.email now ((env.email.message job.mail.raw).header "Date") = .ok date
      ∧ job'.existingDoc id job.signedAt = { job.freshDoc id with date := date.isoformat } := by
  obtain ⟨date, hdate, hmail⟩ := mail_again h
  refine ⟨date, hdate, ?_⟩
  rw [existingDoc, indexDoc, hmail]
  rfl

theorem prepare_again (job : Job env) (now signedAt : DateTime) :
    ∃ job', prepare env now signedAt job.mail.raw = .ok job' := by
  obtain ⟨now₀, hparsed⟩ := job.parsed
  obtain ⟨date, -, hagain⟩ := @parse_again env.email now₀ now _ _ hparsed
  unfold prepare
  split
  · rename_i e he
    rw [hagain] at he
    cases he
  · exact ⟨_, rfl⟩

end Job

/-- Writing again what an index holds. -/
theorem SearchIndex.indexMessage_same {x : SearchIndex} {base : String} {id : Nat} {doc : IndexDoc}
    (h : x.docs (dailyIndex base doc.archivedAt) id = some doc) : x.indexMessage base id doc = x := by
  have hdocs : (x.indexMessage base id doc).docs = x.docs := by
    funext n i
    rw [docs_indexMessage]
    split
    · rename_i hat
      rw [hat.1, hat.2, h]
    · rfl
  exact congrArg SearchIndex.mk hdocs

namespace World

/-- An event of a new call on the raw mail, which starts at a time of
`T`. -/
def Reprocesses (w : World env) (raw : Bytes) (T : Set DateTime) : Event → Prop
  | .start c raw' now _ => w.calls c = none ∧ raw' = raw ∧ now ∈ T
  | .advance c _ _ | .fail c => w.calls c = none
  | _ => False

/-- The tables, the blobs and the index are as they were. -/
structure Unchanged (w w' : World env) : Prop where
  db : w'.db = w.db
  blobs : w'.blobs = w.blobs
  index : w'.stores.index = w.stores.index

/-- Where a call on an archived mail can be: it has found the dedup row,
or will. -/
structure Duplicates (first : Job env) (m : Message) (call : Call env) : Prop where
  hash : call.job.archiveHash = first.archiveHash
  doc : call.job.existingDoc m.id m.signedAt = first.freshDoc m.id
  pc : call.pc = .check ∨ call.pc = .reindex m.dedup ∨ call.pc = .returned ∨ call.pc = .raised

/-- What a run of calls on an archived mail keeps: nothing has changed, and
each new call is on its way to the same document. -/
structure Repeats (w₀ : World env) (first : Job env) (m : Message) (w : World env) : Prop where
  unchanged : w₀.Unchanged w
  calls : ∀ c call, w₀.calls c = none → w.calls c = some call → Duplicates first m call

theorem Unchanged.of_stores {w₀ w : World env} (h : w₀.Unchanged w) {c : Nat} {s : Stores}
    {call : Call env} (hdb : s.db = w.stores.db) (hblobs : s.blobs = w.stores.blobs)
    (hindex : s.index = w.stores.index) : w₀.Unchanged (w.setCall c s call) :=
  ⟨hdb.trans h.db, hblobs.trans h.blobs, hindex.trans h.index⟩

theorem Repeats.setCall {w₀ w : World env} {first : Job env} {m : Message}
    (h : w₀.Repeats first m w) {c : Nat} {s : Stores} {call : Call env}
    (hs : w₀.Unchanged (w.setCall c s call)) (hcall : Duplicates first m call) :
    w₀.Repeats first m (w.setCall c s call) := by
  refine ⟨hs, fun c' call' hfresh hcall' => ?_⟩
  rcases setCall_calls_cases hcall' with ⟨-, rfl⟩ | ⟨-, hold⟩
  · exact hcall
  · exact h.calls c' call' hfresh hold

theorem Repeats.step {w₀ w w' : World env} {first : Job env} {m : Message} {T : Set DateTime}
    {e : Event} (h : w₀.Repeats first m w)
    (hdate : ∀ now ∈ T, ∀ date,
      mailDate env.email now ((env.email.message first.mail.raw).header "Date") = .ok date →
        date.isoformat = first.mail.date.isoformat)
    (hsigned : m.signedAt = first.signedAt)
    (hdup : w₀.db.findDedup first.archiveHash = some m.dedup)
    (hdoc : w₀.stores.index.docs (dailyIndex env.indexBase m.signedAt.isoformat) m.id
      = some (first.freshDoc m.id))
    (he : w₀.Reprocesses first.mail.raw T e) (hs : w.step e = some w') :
    w₀.Repeats first m w' := by
  cases Move.of_step hs with
  | refused => exact h
  | purge => exact he.elim
  | hold =>
      rename_i hstores hnone
      cases e with
      | start | advance | fail => cases hnone.1
      | purge | readHold | commitHold => exact he.elim
  | @start c raw now signedAt job hfree hjob =>
      obtain ⟨-, rfl, hnow⟩ := he
      refine h.setCall (h.unchanged.of_stores rfl rfl rfl) ⟨?_, ?_, .inl rfl⟩
      · exact Job.archiveHash_again hjob
      · show job.existingDoc m.id m.signedAt = _
        obtain ⟨date, hread, hdoc'⟩ := Job.existingDoc_again hjob m.id
        rw [hsigned, hdoc', hdate now hnow date hread]
        rfl
  | @fail c call hcall hpc =>
      obtain ⟨hhash, hdoc', -⟩ := h.calls c call he hcall
      exact h.setCall (h.unchanged.of_stores rfl rfl rfl) ⟨hhash, hdoc', .inr (.inr (.inr rfl))⟩
  | @advance c draw published call call' s hcall hmove =>
      obtain ⟨hhash, hdoc', hpc'⟩ := h.calls c call he hcall
      have hfound : w.stores.db.findDedup call.job.archiveHash = some m.dedup := by
        rw [hhash, show w.stores.db = w₀.db from h.unchanged.db]
        exact hdup
      cases hmove with
      | @duplicate dup hpc hdup' =>
          obtain rfl : m.dedup = dup := Option.some.inj (hfound.symm.trans hdup')
          exact h.setCall (h.unchanged.of_stores rfl rfl rfl) ⟨hhash, hdoc', .inr (.inl rfl)⟩
      | unknown hpc hnone =>
          rw [hfound] at hnone
          cases hnone
      | @reindexed dup hpc =>
          have hm : dup = m.dedup := by
            simpa [hpc] using hpc'
          subst hm
          refine h.setCall (h.unchanged.of_stores rfl rfl ?_)
            ⟨hhash, hdoc', .inr (.inr (.inl rfl))⟩
          -- the document is the one that is there
          have hsame : call.job.existingDoc m.dedup.messageId m.dedup.signedAt
              = first.freshDoc m.id := hdoc'
          rw [hsame]
          refine SearchIndex.indexMessage_same ?_
          rw [show w.stores.index = w₀.stores.index from h.unchanged.index]
          rw [hsigned] at hdoc
          exact hdoc
      | raised hpc =>
          exact h.setCall (h.unchanged.of_stores rfl rfl rfl) ⟨hhash, hdoc', .inr (.inr (.inr rfl))⟩
      | gone hpc | bodyPut hpc | attachmentPut hpc | upserted hpc | flushed hpc | conflicted hpc
      | reserved hpc | committed hpc | indexed hpc | published hpc => simp [hpc] at hpc'

/-! ## A call on an archived mail -/

/-- There is always a number for one more call. -/
theorem exists_callsBelow {w : World env} (h : Reachable step (init env) w) :
    ∃ n, w.CallsBelow n := by
  refine h.invariant (I := fun w => ∃ n, w.CallsBelow n) ⟨0, fun c hc => rfl⟩ ?_
  intro w e w' hw hs
  obtain ⟨n, hn⟩ := hw
  cases e with
  | start c raw now signedAt =>
      have hbelow : Event.below (max n (c + 1)) (.start c raw now signedAt) = true := by
        show decide (c < max n (c + 1)) = true
        simp
      exact ⟨max n (c + 1), (hn.mono (Nat.le_max_left ..)).step hbelow hs⟩
  | advance | fail | purge | readHold | commitHold => exact ⟨n, hn.step rfl hs⟩

/-- A call on an archived mail ends after two steps, with its document
written again. -/
theorem run_again {w : World env} {n : Nat} {raw : Bytes} {t : DateTime} {job : Job env}
    {dup : MessageDedup} (hfree : w.calls n = none) (hjob : prepare env t t raw = .ok job)
    (hdup : w.db.findDedup job.archiveHash = some dup) :
    ∃ w', run step w (sampleCall n raw t 2) = some w' ∧ w'.stores.index =
      w.stores.index.indexMessage env.indexBase dup.messageId
        (job.existingDoc dup.messageId dup.signedAt) := by
  let called := w.setCall n w.stores ⟨job, .check, none⟩
  let found := called.setCall n w.stores ⟨job, .reindex dup, none⟩
  have hstart : w.step (.start n raw t t) = some called := step_start hfree hjob
  have hcheck : called.step (.advance n sampleDraw true) = some found := by
    have hfound : called.stores.db.findDedup job.archiveHash = some dup := hdup
    refine step_advance (setCall_calls_self ..) ?_
    simp only [advance, hfound]
    rfl
  have hwrite : ∃ w', found.step (.advance n sampleDraw true) = some w' ∧ w'.stores.index =
      w.stores.index.indexMessage env.indexBase dup.messageId
        (job.existingDoc dup.messageId dup.signedAt) := by
    have hcall : found.calls n = some ⟨job, .reindex dup, none⟩ := setCall_calls_self ..
    simp only [step, hcall, advance]
    exact ⟨_, rfl, rfl⟩
  obtain ⟨w', hw', hindex⟩ := hwrite
  refine ⟨w', ?_, hindex⟩
  rw [sampleCall]
  refine run_cons_eq_some.mpr ⟨called, hstart, ?_⟩
  refine run_cons_eq_some.mpr ⟨found, hcheck, ?_⟩
  exact run_cons_eq_some.mpr ⟨w', hw', rfl⟩

/-- The events of `sampleCall` are those of a new call. -/
theorem reprocesses_sampleCall {w : World env} {n : Nat} {raw : Bytes} {t : DateTime}
    {T : Set DateTime} (hfree : w.calls n = none) (ht : t ∈ T) {steps : Nat} :
    ∀ e ∈ sampleCall n raw t steps, w.Reprocesses raw T e := by
  intro e he
  rw [sampleCall, List.mem_cons, List.mem_replicate] at he
  rcases he with rfl | ⟨-, rfl⟩
  · exact ⟨hfree, rfl, ht⟩
  · exact hfree

/-- Any runs of `process` on the raw bytes of an archived mail, at times
of `T`, leave the tables, the blobs and the index as they are: exactly
when its date can be read, or the times print as the date it has. -/
theorem reprocessing_idempotent_iff {w : World env} (hw : Reachable step (init env) w) {c : Nat}
    {call : Call env} {m : Message} (hcall : w.calls c = some call)
    (hcom : call.committed = some m.id) (hm : m ∈ w.db.messages)
    (hdoc : w.stores.index.docs (dailyIndex env.indexBase call.job.signedAt.isoformat) m.id
      = some (call.job.freshDoc m.id)) (T : Set DateTime) :
    (∀ es w', (∀ e ∈ es, w.Reprocesses call.job.mail.raw T e) → run step w es = some w' →
        w.Unchanged w')
      ↔ DateReadable env.email call.job.mail.raw
        ∨ ∀ t ∈ T, t.isoformat = call.job.mail.date.isoformat := by
  have hsound := reachable_sound hw
  have hsame := hsound.committed_row hcall hcom hm
  have hsigned : m.signedAt = call.job.signedAt := hsame.signedAt
  have hhash : m.archiveHash = call.job.archiveHash := hsame.archiveHash
  have hdup : w.db.findDedup call.job.archiveHash = some m.dedup := by
    rw [← hhash]
    exact hsound.findDedup hm
  rw [← hsigned] at hdoc
  constructor
  · intro hidem
    by_cases hread : DateReadable env.email call.job.mail.raw
    · exact .inl hread
    · right
      intro t ht
      obtain ⟨n, hn⟩ := exists_callsBelow hw
      have hfree : w.calls n = none := hn n (Nat.le_refl n)
      obtain ⟨job, hjob⟩ := call.job.prepare_again t t
      rw [← Job.archiveHash_again hjob] at hdup
      obtain ⟨w', hrun, hindex⟩ := run_again hfree hjob hdup
      have hunchanged := hidem _ _ (reprocesses_sampleCall hfree ht) hrun
      -- the document that was written is the one that was there
      have hwritten : w'.stores.index.docs (dailyIndex env.indexBase m.signedAt.isoformat) m.id
          = some (job.existingDoc m.id m.signedAt) := by
        rw [hindex, SearchIndex.docs_indexMessage]
        exact if_pos ⟨rfl, rfl⟩
      obtain ⟨date, hdate, hdoc'⟩ := Job.existingDoc_again hjob m.id
      rw [hunchanged.index, hdoc, hsigned, hdoc', mailDate_of_not_readable hread hdate] at hwritten
      exact (congrArg IndexDoc.date (Option.some.inj hwritten)).symm
  · intro hcond es w' hes hrun
    have hdate : ∀ now ∈ T, ∀ date,
        mailDate env.email now ((env.email.message call.job.mail.raw).header "Date") = .ok date →
          date.isoformat = call.job.mail.date.isoformat := by
      intro now hnow date hdate
      by_cases hread : DateReadable env.email call.job.mail.raw
      · obtain ⟨now₀, hparsed⟩ := call.job.parsed
        have hfirst := parse_date hparsed
        rw [mailDate_of_readable hread now₀ now, hdate] at hfirst
        rw [Except.ok.inj hfirst]
      · rw [mailDate_of_not_readable hread hdate]
        rcases hcond with hdated | htimes
        · exact absurd hdated hread
        · exact htimes now hnow
    have hstart : w.Repeats call.job m w :=
      ⟨⟨rfl, rfl, rfl⟩, fun c' call' hnone hcall' => by rw [hnone] at hcall'; cases hcall'⟩
    exact (run_invariant_of_meets
      (fun s e s' hs he hstep => hs.step hdate hsigned hdup hdoc he hstep) hrun
      (meets_of_forall hes) hstart).unchanged

/-- The world after `plainMail` was archived: what it holds of it. -/
theorem plainMail_archived : ∃ (w : World sampleEnv) (call : Call sampleEnv) (m : Message),
    sampleRun (sampleCall 0 plainMail sampleTime 7) = some w ∧ w.calls 0 = some call
      ∧ m ∈ w.db.messages ∧ call.committed = some m.id ∧ call.job.mail.raw = plainMail
      ∧ call.job.mail.date = sampleTime
      ∧ w.stores.index.docs (dailyIndex sampleEnv.indexBase call.job.signedAt.isoformat) m.id
        = some (call.job.freshDoc m.id) := by
  have hany : (sampleRun (sampleCall 0 plainMail sampleTime 7)).any (fun w =>
      (w.calls 0).any fun call => w.db.messages.any fun m =>
        decide (call.committed = some m.id) && decide (call.job.mail.raw = plainMail)
          && decide (call.job.mail.date = sampleTime)
          && decide (w.stores.index.docs
            (dailyIndex sampleEnv.indexBase call.job.signedAt.isoformat) m.id
              = some (call.job.freshDoc m.id))) = true := by
    decide +kernel
  obtain ⟨w, hrun, hw⟩ := (Option.any_eq_true _ _).mp hany
  obtain ⟨call, hcall, hw⟩ := (Option.any_eq_true _ _).mp hw
  obtain ⟨m, hm, hfacts⟩ := List.any_eq_true.mp hw
  simp only [Bool.and_eq_true, decide_eq_true_eq] at hfacts
  obtain ⟨⟨⟨hcom, hraw⟩, hdate⟩, hdoc⟩ := hfacts
  exact ⟨w, call, m, hrun, hcall, hm, hcom, hraw, hdate, hdoc⟩

/-- Processed again at the time of the first archive, it stays as it is. -/
theorem reprocessing_idempotent_sample : ∃ (w : World sampleEnv) (m : Message),
    sampleRun (sampleCall 0 plainMail sampleTime 7) = some w ∧ m ∈ w.db.messages
      ∧ ∀ es w', (∀ e ∈ es, w.Reprocesses plainMail {sampleTime} e) →
        run step w es = some w' → w.Unchanged w' := by
  obtain ⟨w, call, m, hrun, hcall, hm, hcom, hraw, hdate, hdoc⟩ := plainMail_archived
  have hidem := (reprocessing_idempotent_iff ⟨_, hrun⟩ hcall hcom hm hdoc {sampleTime}).mpr
    (.inr fun t ht => by rw [Set.mem_singleton_iff.mp ht, hdate])
  rw [hraw] at hidem
  exact ⟨w, m, hrun, hm, hidem⟩

/-- Processed again later, its document gets the date of that time: it has
no `Date` header. -/
theorem reprocessing_changes_date : ∃ (w w' : World sampleEnv) (call : Call sampleEnv)
    (m : Message), sampleRun (sampleCall 0 plainMail sampleTime 7) = some w
      ∧ w.calls 0 = some call ∧ m ∈ w.db.messages ∧ call.committed = some m.id
      ∧ w.stores.index.docs (dailyIndex sampleEnv.indexBase call.job.signedAt.isoformat) m.id
        = some (call.job.freshDoc m.id)
      ∧ run step w (sampleCall 1 plainMail sampleNow 2) = some w'
      ∧ w'.stores.index.docs (dailyIndex sampleEnv.indexBase call.job.signedAt.isoformat) m.id
        ≠ some (call.job.freshDoc m.id) := by
  have hany : (sampleRun (sampleCall 0 plainMail sampleTime 7)).any (fun w =>
      (w.calls 0).any fun call => w.db.messages.any fun m =>
        decide (call.committed = some m.id)
          && decide (w.stores.index.docs
            (dailyIndex sampleEnv.indexBase call.job.signedAt.isoformat) m.id
              = some (call.job.freshDoc m.id))
          && (run step w (sampleCall 1 plainMail sampleNow 2)).any fun w' =>
            decide (w'.stores.index.docs
              (dailyIndex sampleEnv.indexBase call.job.signedAt.isoformat) m.id
                ≠ some (call.job.freshDoc m.id))) = true := by
    decide +kernel
  obtain ⟨w, hrun, hw⟩ := (Option.any_eq_true _ _).mp hany
  obtain ⟨call, hcall, hw⟩ := (Option.any_eq_true _ _).mp hw
  obtain ⟨m, hm, hfacts⟩ := List.any_eq_true.mp hw
  simp only [Bool.and_eq_true, decide_eq_true_eq] at hfacts
  obtain ⟨⟨hcom, hdoc⟩, hagain⟩ := hfacts
  obtain ⟨w', hrun', hother⟩ := (Option.any_eq_true _ _).mp hagain
  exact ⟨w, w', call, m, hrun, hcall, hm, hcom, hdoc, hrun', of_decide_eq_true hother⟩

end World

end MailArchiver

import MailArchiver.System.RestoreJobs

/-!
# System — FinishedJobs

When a finished restoration is final. `_handle_restore_command` does not
look at the status of its job, so a command that comes back is executed
again whatever became of it. A job stays as it ended as long as its command
is delivered while it runs and nobody is at it (`final`): then no consumer
is at a job that is over (`Exclusive`).
-/

namespace MailArchiver

open Transition

namespace RestoreWorld

variable {lower : String → String} {w w' : RestoreWorld}

/-- A command is delivered while its job is running and no consumer is at
it; recording that a job is done does not raise once it is committed. -/
def final (w : RestoreWorld) : JobEvent → Bool
  | .deliver _ m =>
      match w.queue[m]? with
      | some (.command cmd) =>
          w.jobs.rows.all (fun job => decide (job.id = cmd.jobId → job.status = .running))
            && w.procs.all fun proc => decide (proc.consumer.jobId ≠ some cmd.jobId)
      | _ => true
  | .reply p (.raises _ true) =>
      match w.procs[p]?.bind (·.consumer.pc) with
      | some (.finishDone _) => false
      | _ => true
  | _ => true

theorem final_deliver {p m : Nat} {cmd : RestoreCommand} (h : w.final (.deliver p m) = true)
    (hm : w.queue[m]? = some (.command cmd)) :
    (∀ job ∈ w.jobs.rows, job.id = cmd.jobId → job.status = .running)
      ∧ ∀ proc ∈ w.procs, proc.consumer.jobId ≠ some cmd.jobId := by
  rw [final, hm] at h
  simpa [imp_iff_not_or] using h

/-- An execution that goes on has not ended its job. -/
theorem final_reply {p : Nat} {reply : RestoreReply} {proc : ApiProcess} {body : RestoreBody}
    {pc pc' : RestorePc} (h : w.final (.reply p reply) = true) (hproc : w.procs[p]? = some proc)
    (hpc : proc.consumer = .handling body pc) (hresume : pc.resume reply = some pc')
    (hgoes : pc.GoesOn pc') (happlied : reply.applied = true) : pc.recording = false := by
  cases pc with
  | refuse jobId error =>
      cases reply with
      | raises error' applied => cases hresume; exact absurd rfl hgoes.2
      | done => cases hresume; exact absurd rfl hgoes.2
      | _ => cases hresume
  | finishError t error =>
      cases reply with
      | raises error' applied => cases hresume; exact absurd rfl hgoes.2
      | done => cases hresume; exact absurd rfl hgoes.2
      | _ => cases hresume
  | finishDone t =>
      cases reply with
      | raises error applied =>
          obtain rfl : applied = true := happlied
          simp [final, hproc, hpc, RestoreConsumer.pc] at h
      | done => cases hresume; exact absurd rfl hgoes.2
      | _ => cases hresume
  | _ => rfl

/-! ## Who is at a job -/

/-- A job is executed by one consumer at a time, and while it is running. -/
structure Exclusive (w : RestoreWorld) : Prop where
  alone : ∀ {i j : Nat} {proc proc' : ApiProcess} {id : Nat}, w.procs[i]? = some proc →
    w.procs[j]? = some proc' → proc.consumer.jobId = some id → proc'.consumer.jobId = some id →
    i = j
  running : ∀ {i : Nat} {proc : ApiProcess} {job : TransferJob}, w.procs[i]? = some proc →
    job ∈ w.jobs.rows → proc.consumer.jobId = some job.id → job.status = .running

/-- One process goes on: nobody else is at its job, and the jobs that are
executed are running. -/
theorem Exclusive.of_set (h : Exclusive w) {p : Nat} {proc' : ApiProcess}
    (hprocs : w'.procs = w.procs.set p proc')
    (halone : ∀ {i proc id}, w.procs[i]? = some proc → proc.consumer.jobId = some id →
      proc'.consumer.jobId = some id → i = p)
    (hjob : ∀ job ∈ w'.jobs.rows, proc'.consumer.jobId = some job.id → job.status = .running)
    (hother : ∀ {i proc}, i ≠ p → w.procs[i]? = some proc → ∀ job ∈ w'.jobs.rows,
      proc.consumer.jobId = some job.id → job.status = .running) : Exclusive w' where
  alone hi hj hid hid' := by
    rw [hprocs] at hi hj
    rcases Slots.getElem?_set_or hi with ⟨hip, hi'⟩ | ⟨hip, hi'⟩
    · subst hi'
      rcases Slots.getElem?_set_or hj with ⟨hjp, -⟩ | ⟨hjp, hj'⟩
      · exact hip.symm.trans hjp
      · exact absurd (halone hj' hid' hid).symm hjp
    · rcases Slots.getElem?_set_or hj with ⟨hjp, hj'⟩ | ⟨-, hj'⟩
      · subst hj'
        exact (halone hi' hid hid').trans hjp
      · exact h.alone hi' hj' hid hid'
  running hi hmem hid := by
    rw [hprocs] at hi
    rcases Slots.getElem?_set_or hi with ⟨-, hi'⟩ | ⟨hip, hi'⟩
    · subst hi'
      exact hjob _ hmem hid
    · exact hother (Ne.symm hip) hi' _ hmem hid

/-- It takes up no job, and the status of the jobs stays. -/
theorem Exclusive.keeps (h : Exclusive w) {p : Nat} {proc proc' : ApiProcess}
    (hproc : w.procs[p]? = some proc) (hprocs : w'.procs = w.procs.set p proc')
    (hjobId : ∀ id, proc'.consumer.jobId = some id → proc.consumer.jobId = some id)
    (hrows : ∀ job' ∈ w'.jobs.rows, job'.status = .running
      ∨ ∃ job ∈ w.jobs.rows, job.id = job'.id ∧ job.status = job'.status) : Exclusive w' := by
  have hstill : ∀ {i : Nat} {q : ApiProcess}, w.procs[i]? = some q → ∀ job' ∈ w'.jobs.rows,
      q.consumer.jobId = some job'.id → job'.status = .running := by
    intro i q hq job' hjob' hid
    rcases hrows job' hjob' with hrunning | ⟨job, hjob, heq, hstatus⟩
    · exact hrunning
    · exact hstatus ▸ h.running hq hjob (heq ▸ hid)
  refine h.of_set hprocs (fun hi hid hid' => h.alone hi hproc hid (hjobId _ hid')) ?_ ?_
  · exact fun job' hjob' hid => hstill hproc job' hjob' (hjobId _ hid)
  · exact fun _ hi => hstill hi

theorem Exclusive.deliver (h : Exclusive w) {p m : Nat} (hfinal : w.final (.deliver p m) = true)
    (hs : w.step lower (.deliver p m) = some w') : Exclusive w' := by
  obtain ⟨proc, body, hproc, hbody, hidle, -, rfl⟩ := deliver_eq_some hs
  cases body with
  | unreadable error =>
      exact h.keeps hproc rfl nofun fun job hjob => .inr ⟨job, hjob, rfl, rfl⟩
  | command cmd =>
      obtain ⟨hrunning, hnobody⟩ := final_deliver hfinal hbody
      have hjobId : (RestoreConsumer.handling (.command cmd) (RestorePc.handle cmd)).jobId
          = some cmd.jobId := RestorePc.jobId_handle cmd
      refine h.of_set rfl ?_ ?_ ?_
      · intro i q id hq hid hid'
        obtain rfl : cmd.jobId = id := Option.some.inj (hjobId.symm.trans hid')
        exact absurd hid (hnobody q (List.mem_of_getElem? hq))
      · intro job hjob hid
        exact hrunning job hjob (Option.some.inj (hid.symm.trans hjobId))
      · exact fun _ hq job hjob hid => h.running hq hjob hid

/-- The job of the execution that is answered, and those of the others. -/
theorem Exclusive.other (h : Exclusive w) {p i : Nat} {proc q : ApiProcess}
    (hproc : w.procs[p]? = some proc) (hq : w.procs[i]? = some q) (hi : i ≠ p) {id : Nat}
    (hid : q.consumer.jobId = some id) : proc.consumer.jobId ≠ some id :=
  fun hid' => hi (h.alone hq hproc hid hid')

theorem Exclusive.reply (h : Exclusive w) {p : Nat} {reply : RestoreReply}
    (hfinal : w.final (.reply p reply) = true) (hs : w.step lower (.reply p reply) = some w') :
    Exclusive w' := by
  obtain ⟨proc, body, pc, pc', hproc, hpc, hresume, rfl⟩ := reply_eq_some hs
  have hjobId : proc.consumer.jobId = pc.jobId := by rw [hpc]; rfl
  have hends : pc'.jobId = none → Exclusive ((w.called reply pc).setProc p
      { proc with consumer := .handling body pc' }) := by
    intro hnone
    refine h.of_set rfl (fun _ _ hid' => ?_) (fun _ _ hid => ?_) ?_
    · exact absurd (hnone.symm.trans hid') nofun
    · exact absurd (hnone.symm.trans hid) nofun
    · intro i q hi hq job' hjob' hid
      obtain ⟨job, hjob, heq, hcases⟩ := called_rows hjob'
      have hrunning : job.status = .running := h.running hq hjob (heq ▸ hid)
      have hother : pc.jobId ≠ some job.id := hjobId ▸ h.other hproc hq hi (heq ▸ hid)
      rcases hcases with ⟨-, rfl⟩ | ⟨-, rfl⟩
      · exact hrunning
      · rwa [RestorePc.onJob_of_ne hother]
  rcases RestorePc.resume_cases hresume with ⟨hgoes, -⟩ | ⟨rfl, -⟩ | ⟨-, error, applied, -, rfl⟩
  · refine h.keeps hproc rfl (fun id hid => ?_) fun job' hjob' => ?_
    · rw [hjobId, ← hgoes.1]
      exact hid
    · obtain ⟨job, hjob, heq, hcases⟩ := called_rows hjob'
      refine .inr ⟨job, hjob, heq, ?_⟩
      rcases hcases with ⟨-, rfl⟩ | ⟨happlied, rfl⟩
      · rfl
      · exact (RestorePc.onJob_status (final_reply hfinal hproc hpc hresume hgoes happlied) _).symm
  · exact hends rfl
  · exact hends rfl

theorem Exclusive.step (h : Exclusive w) {e : JobEvent} (hfinal : w.final e = true)
    (hs : w.step lower e = some w') : Exclusive w' := by
  have hsame : ∀ job ∈ w.jobs.rows, job.status = .running
      ∨ ∃ job₀ ∈ w.jobs.rows, job₀.id = job.id ∧ job₀.status = job.status :=
    fun job hjob => .inr ⟨job, hjob, rfl, rfl⟩
  cases e with
  | request p userId method =>
      obtain ⟨proc, hproc, rfl⟩ := request_eq_some hs
      exact h.keeps hproc rfl (fun _ hid => hid) hsame
  | answer p r reply =>
      obtain ⟨proc, pc, pc', hproc, -, -, rfl⟩ := answer_eq_some hs
      refine h.keeps hproc (by rw [setProc_procs, written_procs]) (fun id hid => ?_)
        fun job hjob => ?_
      · exact hid
      · rcases written_rows hjob with hjob | ⟨-, -, -, hrunning⟩
        · exact hsame job hjob
        · exact .inl hrunning
  | deliver p m => exact h.deliver hfinal hs
  | reply p reply => exact h.reply hfinal hs
  | settle p =>
      obtain ⟨proc, body, pc, after, hproc, -, hcases, rfl⟩ := settle_eq_some hs
      refine h.keeps hproc (by rw [setProc_procs, settled_procs]) (fun id hid => ?_)
        (by simpa using hsame)
      rcases hcases with ⟨-, rfl⟩ | ⟨-, rfl⟩
      · cases hid
      · cases hid
  | lose p =>
      obtain ⟨proc, hproc, rfl⟩ := lose_eq_some hs
      exact h.keeps hproc rfl (fun _ hid => hid) hsame
  | crash p =>
      obtain ⟨proc, hproc, rfl⟩ := crash_eq_some hs
      exact h.keeps hproc rfl nofun hsame

/-! ## Finished jobs -/

/-- What is kept of a job that is over: its row, and the mails offered for
it. -/
def Keeps (job : TransferJob) (w w' : RestoreWorld) : Prop :=
  job ∈ w'.jobs.rows
    ∧ w'.offered.filter (fun o => o.1 = job.id) = w.offered.filter fun o => o.1 = job.id

/-- A step leaves the jobs that are over, since nobody is at them. -/
theorem Exclusive.keeps_finished (h : Exclusive w) {e : JobEvent}
    (hs : w.step lower e = some w') {job : TransferJob} (hjob : job ∈ w.jobs.rows)
    (hover : job.status ≠ .running) : Keeps job w w' := by
  cases e with
  | request p userId method =>
      obtain ⟨proc, -, rfl⟩ := request_eq_some hs
      exact ⟨hjob, rfl⟩
  | answer p r reply =>
      obtain ⟨proc, pc, pc', -, -, -, rfl⟩ := answer_eq_some hs
      exact ⟨mem_written hjob, by simp⟩
  | deliver p m =>
      obtain ⟨proc, body, -, -, -, -, rfl⟩ := deliver_eq_some hs
      exact ⟨hjob, rfl⟩
  | reply p reply =>
      obtain ⟨proc, body, pc, pc', hproc, hpc, -, rfl⟩ := reply_eq_some hs
      have hne : pc.jobId ≠ some job.id := by
        intro hid
        refine hover (h.running hproc hjob ?_)
        rw [hpc]
        exact hid
      refine ⟨mem_called hjob hne, ?_⟩
      simp [called, RestorePc.offers_of_ne hne]
  | settle p =>
      obtain ⟨proc, body, pc, after, -, -, -, rfl⟩ := settle_eq_some hs
      exact ⟨by simpa using hjob, by simp⟩
  | lose p =>
      obtain ⟨proc, -, rfl⟩ := lose_eq_some hs
      exact ⟨hjob, rfl⟩
  | crash p =>
      obtain ⟨proc, -, rfl⟩ := crash_eq_some hs
      exact ⟨hjob, rfl⟩

/-- No consumer is at a job. -/
def Idle (w : RestoreWorld) : Prop := ∀ proc ∈ w.procs, proc.consumer.jobId = none

theorem Idle.exclusive (h : Idle w) : Exclusive w where
  alone hi _ hid _ := by
    rw [h _ (List.mem_of_getElem? hi)] at hid
    cases hid
  running hi _ hid := by
    rw [h _ (List.mem_of_getElem? hi)] at hid
    cases hid

theorem init_idle (n : Nat) : (init n).Idle := by
  intro proc hproc
  rw [List.eq_of_mem_replicate hproc]
  rfl

/-- **A finished restoration is final when no command comes back to a job
that is over or that a consumer is at**: in every run whose steps all meet
`final`, with crashes, lost channels and redeliveries at any point, a job
that is done or in error at some state has the same row in every later
state, and no mail was offered for it in between. -/
theorem finished_restoration_final {w₀ : RestoreWorld} (hidle : w₀.Idle)
    {before after : List JobEvent} (hbefore : run (step lower) w₀ before = some w)
    (hafter : run (step lower) w after = some w')
    (hfinal : Meets (step lower) (fun w e => w.final e = true) w₀ (before ++ after))
    {job : TransferJob} (hjob : job ∈ w.jobs.rows) (hover : job.status ≠ .running) :
    job ∈ w'.jobs.rows
      ∧ w'.offered.filter (fun o => o.1 = job.id) = w.offered.filter fun o => o.1 = job.id := by
  obtain ⟨hfinal₁, hfinal₂⟩ := (meets_append hbefore).mp hfinal
  have hexclusive : Exclusive w :=
    run_invariant_of_meets (fun _ _ _ h hC hs => h.step hC hs) hbefore hfinal₁ hidle.exclusive
  refine (run_invariant_of_meets (I := fun u => Exclusive u ∧ Keeps job w u) ?_ hafter hfinal₂
    ⟨hexclusive, hjob, rfl⟩).2
  rintro u e u' ⟨hexclusive, hrow, hoffered⟩ hC hs
  obtain ⟨hrow', hoffered'⟩ := hexclusive.keeps_finished hs hrow hover
  exact ⟨hexclusive.step hC hs, hrow', hoffered'.trans hoffered⟩

/-! ### A command that comes back -/

/-- The process is gone before the message is acknowledged: the job that
was done is executed again, deposits its mail twice and ends in error. -/
theorem restoration_deposited_again :
    (run (step id) (init 1) restored).map (fun w => (w.jobs.rows, w.offered))
        = some ([bobsJob 1 .done none], [(1, 5)])
      ∧ (run (step id) (init 1) (restored ++ .crash 0 :: deposited
          ++ [.raises "timed out" false, .raises "timed out" false, .done].map (.reply 0))).map
            (fun w => (w.jobs.rows, w.offered))
        = some ([bobsJob 1 .error (some "timed out")], [(1, 5), (1, 5)]) := by
  constructor
  · decide +kernel
  · decide +kernel

/-- A second job, refused since the destination is gone, and a crash. -/
def refusedAfterwards : List JobEvent :=
  .settle 0 :: requested 1
    ++ [.deliver 0 0, .reply 0 (.restoreImap none), .reply 0 .done, .settle 0, .crash 0]

/-- The message is acknowledged before. -/
theorem restoration_final_plain : ∃ w w', run (step id) (init 1) restored = some w
    ∧ run (step id) w refusedAfterwards = some w' ∧ bobsJob 1 .done none ∈ w'.jobs.rows
    ∧ w'.offered.filter (fun o => o.1 = 1) = w.offered.filter fun o => o.1 = 1 := by
  have hrun : ((run (step id) (init 1) restored).bind fun w =>
      (run (step id) w refusedAfterwards).map fun _ => w.jobs.rows)
        = some [bobsJob 1 .done none] := by decide +kernel
  have hcheck : meetsAll (step id) (fun w e => w.final e) (init 1) (restored ++ refusedAfterwards)
      = true := by decide +kernel
  obtain ⟨w, hbefore, hrun⟩ := Option.bind_eq_some_iff.mp hrun
  obtain ⟨w', hafter, hrows⟩ := Option.map_eq_some_iff.mp hrun
  have hjob : bobsJob 1 .done none ∈ w.jobs.rows := by simp [hrows]
  have hfinal : Meets (step id) (fun w e => w.final e = true) (init 1)
      (restored ++ refusedAfterwards) :=
    meets_of_check (fun _ _ h => h) hcheck
  exact ⟨w, w', hbefore, hafter,
    finished_restoration_final (init_idle 1) hbefore hafter hfinal hjob nofun⟩

end RestoreWorld
end MailArchiver

import MailArchiver.System.RestoreJobs

/-!
# System — RunningJobs

Where the command of a running job is. `transfer_perimeter` commits the row
of the job, as running, and publishes its command afterwards; nothing takes
the row back if it does not get there. As long as each request gets from
the one to the other (`linked`), the command of a running job is in the
queue or delivered and not acknowledged, unless a request is about to
publish it (`Covered`).
-/

namespace MailArchiver

open Transition

namespace JobTable

/-- The job has ended, if there is such a job. -/
def Over (t : JobTable) (id : Nat) : Prop :=
  ∀ job ∈ t.rows, job.id = id → job.status ≠ .running

/-- What a step can make of the table: no row is put back to running, and a
new one has a new id. -/
structure Becomes (t t' : JobTable) : Prop where
  nextId : t.nextId ≤ t'.nextId
  rows : ∀ job' ∈ t'.rows, job'.status = .running →
    (∃ job ∈ t.rows, job.id = job'.id ∧ job.status = .running) ∨ t.nextId ≤ job'.id

theorem Becomes.refl (t : JobTable) : t.Becomes t where
  nextId := Nat.le_refl _
  rows job hjob hrunning := .inl ⟨job, hjob, rfl, hrunning⟩

theorem Becomes.over {t t' : JobTable} (h : t.Becomes t') {id : Nat} (hid : id < t.nextId)
    (hover : t.Over id) : t'.Over id := by
  rintro job' hjob' rfl hrunning
  rcases h.rows job' hjob' hrunning with ⟨job, hjob, heq, hstatus⟩ | hnew
  · exact hover job hjob heq hstatus
  · omega

end JobTable

namespace RestoreWorld

variable {lower : String → String} {w w' : RestoreWorld}

/-- No request fails after the row of its job is committed and before its
command is stored: its process is not gone in between, and neither of the
two calls raises there. -/
def linked (w : RestoreWorld) : JobEvent → Bool
  | .answer p r (.raises _ applied) =>
      match w.procs[p]?.bind (·.requests[r]?) with
      | some (.create ..) => !applied
      | some (.publish ..) => applied
      | _ => true
  | .crash p =>
      match w.procs[p]? with
      | some proc => proc.requests.all fun pc => !pc.publishing
      | none => true
  | _ => true

/-! ## Where a command is -/

/-- The command of a job is ready, or delivered and not acknowledged. -/
def Queued (w : RestoreWorld) (id : Nat) : Prop :=
  ∃ cmd : RestoreCommand, cmd.jobId = id
    ∧ (.command cmd ∈ w.queue ∨ ∃ proc ∈ w.procs, proc.unacked = some (.command cmd))

/-- A request has created the job and is about to publish its command. -/
def Owed (w : RestoreWorld) (id : Nat) : Prop :=
  ∃ proc ∈ w.procs, ∃ pc ∈ proc.requests, pc.owes id = true

/-- An execution of a command is about its job, or left it with an
exception, or has ended it. -/
structure Executes (t : JobTable) (cmd : RestoreCommand) (pc : RestorePc) : Prop where
  known : cmd.jobId < t.nextId
  atJob : pc.jobId = some cmd.jobId ∨ (∃ error, pc = .raised error)
    ∨ pc = .returned ∧ t.Over cmd.jobId

/-- What the protocol maintains of one process. -/
structure Sound (t : JobTable) (proc : ApiProcess) : Prop where
  /-- A message that is out is being handled. -/
  held : ∀ body, proc.unacked = some body → ∃ pc, proc.consumer = .handling body pc
  executes : ∀ cmd pc, proc.consumer = .handling (.command cmd) pc → Executes t cmd pc
  publishes : ∀ plan id, .publish plan id ∈ proc.requests → id < t.nextId

structure Covered (w : RestoreWorld) : Prop where
  known : ∀ cmd, .command cmd ∈ w.queue → cmd.jobId < w.jobs.nextId
  sound : ∀ proc ∈ w.procs, Sound w.jobs proc
  covered : ∀ job ∈ w.jobs.rows, job.status = .running → w.Queued job.id ∨ w.Owed job.id

theorem fresh_sound (t : JobTable) : Sound t .fresh where
  held _ h := by cases h
  executes _ _ h := by cases h
  publishes _ _ h := by cases h

theorem init_covered (n : Nat) : (init n).Covered where
  known _ h := by cases h
  sound proc h := List.eq_of_mem_replicate h ▸ fresh_sound _
  covered _ h := by cases h

theorem Executes.mono {t t' : JobTable} (ht : t.Becomes t') {cmd : RestoreCommand} {pc : RestorePc}
    (h : Executes t cmd pc) : Executes t' cmd pc where
  known := h.known.trans_le ht.nextId
  atJob := h.atJob.imp_right (Or.imp_right (And.imp_right (ht.over h.known)))

theorem Sound.mono {t t' : JobTable} (ht : t.Becomes t') {proc : ApiProcess} (h : Sound t proc) :
    Sound t' proc where
  held := h.held
  executes cmd pc hpc := (h.executes cmd pc hpc).mono ht
  publishes plan id hmem := (h.publishes plan id hmem).trans_le ht.nextId

/-- One process goes on: what becomes of the queue, of its message, of its
requests and of a new row. -/
theorem Covered.of_set (h : w.Covered) {p : Nat} {proc proc' : ApiProcess}
    (hproc : w.procs[p]? = some proc) (hprocs : w'.procs = w.procs.set p proc')
    (hjobs : w.jobs.Becomes w'.jobs) (hsound : Sound w'.jobs proc')
    (hknown : ∀ cmd, .command cmd ∈ w'.queue → .command cmd ∈ w.queue ∨ cmd.jobId < w'.jobs.nextId)
    (hqueue : ∀ cmd, .command cmd ∈ w.queue → w'.Queued cmd.jobId)
    (hmessage : ∀ cmd, proc.unacked = some (.command cmd) →
      proc'.unacked = some (.command cmd) ∨ w'.Queued cmd.jobId ∨ w'.jobs.Over cmd.jobId)
    (howes : ∀ pc ∈ proc.requests, ∀ id, pc.owes id = true →
      pc ∈ proc'.requests ∨ w'.Queued id)
    (hnew : ∀ job ∈ w'.jobs.rows, w.jobs.nextId ≤ job.id → w'.Owed job.id) : w'.Covered where
  known cmd hcmd := by
    rcases hknown cmd hcmd with hcmd | hlt
    · exact (h.known cmd hcmd).trans_le hjobs.nextId
    · exact hlt
  sound := by
    intro q hq
    rcases List.mem_or_eq_of_mem_set (hprocs ▸ hq) with hold | rfl
    · exact (h.sound q hold).mono hjobs
    · exact hsound
  covered := by
    intro job' hjob' hrunning
    have hself : proc' ∈ w'.procs := hprocs ▸ Slots.mem_set_self hproc proc'
    rcases hjobs.rows job' hjob' hrunning with ⟨job, hjob, heq, hstatus⟩ | hnextId
    · rw [← heq]
      rcases h.covered job hjob hstatus with
        ⟨cmd, hid, hready | ⟨q, hq, hout⟩⟩ | ⟨q, hq, pc, hpc, ho⟩
      · exact .inl (hid ▸ hqueue cmd hready)
      · rcases Slots.mem_set_or hq p proc' with hq' | hq'
        · exact .inl ⟨cmd, hid, .inr ⟨q, hprocs ▸ hq', hout⟩⟩
        · obtain rfl := Option.some.inj (hproc.symm.trans hq')
          rcases hmessage cmd hout with hstill | hqueued | hover
          · exact .inl ⟨cmd, hid, .inr ⟨proc', hself, hstill⟩⟩
          · exact .inl (hid ▸ hqueued)
          · exact absurd hrunning (hover job' hjob' (heq.symm.trans hid.symm))
      · rcases Slots.mem_set_or hq p proc' with hq' | hq'
        · exact .inr ⟨q, hprocs ▸ hq', pc, hpc, ho⟩
        · obtain rfl := Option.some.inj (hproc.symm.trans hq')
          rcases howes pc hpc job.id ho with hstill | hqueued
          · exact .inr ⟨proc', hself, pc, hstill, ho⟩
          · exact .inl hqueued
    · exact .inr (hnew job' hjob' hnextId)

/-! ## One step -/

/-- A message that is ready is queued. -/
theorem queued_of_mem {cmd : RestoreCommand} (h : .command cmd ∈ w.queue) : w.Queued cmd.jobId :=
  ⟨cmd, rfl, .inl h⟩

/-- No row is new in the table there was. -/
theorem no_new {t : JobTable} {job : TransferJob} (hjob : job ∈ t.rows) (hnew : t.nextId ≤ job.id) :
    False := by
  have hlt := t.fresh job hjob
  omega

theorem Covered.request (h : w.Covered) {p userId : Nat} {method : String}
    (hs : w.step lower (.request p userId method) = some w') : w'.Covered := by
  obtain ⟨proc, hproc, rfl⟩ := request_eq_some hs
  have hsound := h.sound proc (List.mem_of_getElem? hproc)
  refine h.of_set hproc rfl (.refl _) ⟨hsound.held, hsound.executes, fun plan id hmem => ?_⟩
    (fun _ hcmd => .inl hcmd) (fun _ hcmd => queued_of_mem hcmd) (fun _ hout => .inl hout)
    (fun _ hpc _ _ => .inl (List.mem_append_left _ hpc)) fun _ hjob hnew => (no_new hjob hnew).elim
  rcases List.mem_append.mp hmem with hmem | hmem
  · exact hsound.publishes plan id hmem
  · cases List.mem_singleton.mp hmem

theorem Covered.deliver (h : w.Covered) {p m : Nat} (hs : w.step lower (.deliver p m) = some w') :
    w'.Covered := by
  obtain ⟨proc, body, hproc, hbody, -, hnone, rfl⟩ := deliver_eq_some hs
  have hsound := h.sound proc (List.mem_of_getElem? hproc)
  refine h.of_set hproc rfl (.refl _) ⟨?_, ?_, hsound.publishes⟩
    (fun _ hcmd => .inl (List.mem_of_mem_eraseIdx hcmd)) (fun cmd hcmd => ?_)
    (fun _ hout => absurd (hnone.symm.trans hout) nofun) (fun _ hpc _ _ => .inl hpc)
    fun _ hjob hnew => (no_new hjob hnew).elim
  · rintro body' ⟨⟩
    exact ⟨_, rfl⟩
  · rintro cmd pc ⟨⟩
    exact ⟨h.known cmd (List.mem_of_getElem? hbody), .inl (RestorePc.jobId_handle cmd)⟩
  · rcases Slots.mem_eraseIdx_or hcmd m with hready | hm
    · exact queued_of_mem hready
    · obtain rfl := Option.some.inj (hbody.symm.trans hm)
      exact ⟨cmd, rfl, .inr ⟨_, Slots.mem_set_self hproc _, rfl⟩⟩

/-- A message is ready again: its process does not have it any more. -/
theorem Covered.returned (h : w.Covered) {p : Nat} {proc proc' : ApiProcess}
    (hproc : w.procs[p]? = some proc) (hsound : Sound w.jobs proc')
    (howes : ∀ pc ∈ proc.requests, ∀ id, pc.owes id = true → pc ∈ proc'.requests) :
    ((w.returned proc.unacked).setProc p proc').Covered := by
  have hback : ∀ cmd, proc.unacked = some (.command cmd) →
      .command cmd ∈ (w.returned proc.unacked).queue := by
    intro cmd hout
    exact List.mem_append_right _ (by simp [hout])
  refine h.of_set hproc rfl (.refl _) hsound (fun cmd hcmd => ?_)
    (fun _ hcmd => queued_of_mem (List.mem_append_left _ hcmd))
    (fun cmd hout => .inr (.inl (queued_of_mem (hback cmd hout))))
    (fun pc hpc id ho => .inl (howes pc hpc id ho)) fun _ hjob hnew => (no_new hjob hnew).elim
  rcases List.mem_append.mp hcmd with hcmd | hcmd
  · exact .inl hcmd
  · obtain ⟨pc, hpc⟩ := (h.sound proc (List.mem_of_getElem? hproc)).held _ (by simpa using hcmd)
    exact .inr ((h.sound proc (List.mem_of_getElem? hproc)).executes cmd pc hpc).known

theorem Covered.lose (h : w.Covered) {p : Nat} (hs : w.step lower (.lose p) = some w') :
    w'.Covered := by
  obtain ⟨proc, hproc, rfl⟩ := lose_eq_some hs
  have hsound := h.sound proc (List.mem_of_getElem? hproc)
  exact h.returned hproc ⟨nofun, hsound.executes, hsound.publishes⟩ fun _ hpc _ _ => hpc

theorem Covered.crash (h : w.Covered) {p : Nat} (hlinked : w.linked (.crash p) = true)
    (hs : w.step lower (.crash p) = some w') : w'.Covered := by
  obtain ⟨proc, hproc, rfl⟩ := crash_eq_some hs
  rw [linked, hproc] at hlinked
  refine h.returned hproc (fresh_sound _) fun pc hpc id ho => ?_
  have hnot : pc.publishing = false := by simpa using List.all_eq_true.mp hlinked pc hpc
  cases pc with
  | publish plan jobId => cases hnot
  | _ => cases ho

/-- A consumer that has settled its message. -/
theorem Sound.settled {t : JobTable} {proc : ApiProcess} (h : Sound t proc)
    {after : RestoreConsumer} (hafter : after.pc = none) :
    Sound t { proc with consumer := after, unacked := none } where
  held _ hout := by cases hout
  executes cmd pc hpc := by
    obtain rfl : after = .handling (.command cmd) pc := hpc
    cases hafter
  publishes := h.publishes

theorem Covered.settle (h : w.Covered) {p : Nat} (hs : w.step lower (.settle p) = some w') :
    w'.Covered := by
  obtain ⟨proc, body, pc, after, hproc, hpc, hcases, rfl⟩ := settle_eq_some hs
  have hsound := h.sound proc (List.mem_of_getElem? hproc)
  rcases hcases with ⟨rfl, rfl⟩ | ⟨-, rfl⟩
  · -- acknowledged: the job has ended
    refine h.of_set hproc rfl (.refl _) (hsound.settled rfl) (fun _ hcmd => .inl hcmd)
      (fun _ hcmd => queued_of_mem hcmd) (fun cmd hout => .inr (.inr ?_))
      (fun _ hpc _ _ => .inl hpc) fun _ hjob hnew => (no_new hjob hnew).elim
    obtain ⟨pc', hpc'⟩ := hsound.held _ hout
    obtain ⟨rfl, rfl⟩ : body = .command cmd ∧ .returned = pc' := by
      simpa using hpc.symm.trans hpc'
    rcases (hsound.executes cmd _ hpc').atJob with hid | ⟨error, herror⟩ | ⟨-, hover⟩
    · cases hid
    · cases herror
    · exact hover
  · exact h.returned hproc (hsound.settled rfl) fun _ hpc _ _ => hpc

/-- An execution writes to its job only, and ends it at most. -/
theorem called_becomes (reply : RestoreReply) (pc : RestorePc) :
    w.jobs.Becomes (w.called reply pc).jobs where
  nextId := by
    unfold called
    dsimp only
    split
    · exact Nat.le_refl _
    · exact Nat.le_refl _
  rows job' hjob' hrunning := by
    obtain ⟨job, hjob, heq, ⟨-, rfl⟩ | ⟨-, rfl⟩⟩ := called_rows hjob'
    · exact .inl ⟨_, hjob, rfl, hrunning⟩
    · exact .inl ⟨job, hjob, heq, RestorePc.running_of_onJob hrunning⟩

/-- An answer to an execution keeps it at its job, or ends both. -/
theorem Executes.resume {cmd : RestoreCommand} {pc pc' : RestorePc} {reply : RestoreReply}
    (h : Executes w.jobs cmd pc) (hresume : pc.resume reply = some pc') :
    Executes (w.called reply pc).jobs cmd pc' where
  known := h.known.trans_le (called_becomes reply pc).nextId
  atJob := by
    have hid : pc.jobId = some cmd.jobId := by
      rcases h.atJob with hid | ⟨error, rfl⟩ | ⟨rfl, -⟩
      · exact hid
      · cases hresume
      · cases hresume
    rcases RestorePc.resume_cases hresume with ⟨hgoes, -⟩ | hfinishes | ⟨-, error, applied, -, rfl⟩
    · exact .inl (hgoes.1.trans hid)
    · refine .inr (.inr ⟨hfinishes.1, fun job' hjob' heq => ?_⟩)
      obtain ⟨job, -, hold, ⟨hnot, -⟩ | ⟨-, rfl⟩⟩ := called_rows hjob'
      · rw [hfinishes.2.1] at hnot
        cases hnot
      · exact hfinishes.over (hid.trans (by rw [hold, heq]))
    · exact .inr (.inl ⟨error, rfl⟩)

theorem Covered.reply (h : w.Covered) {p : Nat} {reply : RestoreReply}
    (hs : w.step lower (.reply p reply) = some w') : w'.Covered := by
  obtain ⟨proc, body, pc, pc', hproc, hpc, hresume, rfl⟩ := reply_eq_some hs
  have hsound := h.sound proc (List.mem_of_getElem? hproc)
  have hbecomes : w.jobs.Becomes (w.called reply pc).jobs := called_becomes reply pc
  refine h.of_set hproc rfl hbecomes ⟨fun body' hout => ?_, fun cmd pc₁ hpc₁ => ?_, ?_⟩
    (fun _ hcmd => .inl hcmd) (fun _ hcmd => queued_of_mem hcmd) (fun _ hout => .inl hout)
    (fun _ hpc _ _ => .inl hpc) fun job hjob hnew => ?_
  · obtain ⟨pc₀, hpc₀⟩ := hsound.held body' hout
    obtain ⟨rfl, -⟩ : body = body' ∧ pc = pc₀ := by simpa using hpc.symm.trans hpc₀
    exact ⟨pc', rfl⟩
  · obtain ⟨rfl, rfl⟩ : body = .command cmd ∧ pc' = pc₁ := by simpa using hpc₁
    exact (hsound.executes cmd pc hpc).resume hresume
  · exact (hsound.mono hbecomes).publishes
  · obtain ⟨old, hold, heq, -⟩ := called_rows hjob
    exact (no_new hold (heq ▸ hnew)).elim

/-! ### A request goes on -/

theorem checked_publishing (userId : Nat) (method : String) (users : List User) :
    (TransferPc.checked lower userId method users).publishing = false := by
  unfold TransferPc.checked
  repeat' split
  all_goals rfl

theorem destined_publishing (method : String) (target : User) (email : String)
    (restrict : List String) (cfg : Option RestoreImap) :
    (TransferPc.destined method target email restrict cfg).publishing = false := by
  unfold TransferPc.destined
  repeat' split
  all_goals rfl

/-- A request publishes the command of the row it has created. -/
theorem resume_publish {created : Nat} {pc : TransferPc} {reply : RestoreReply}
    {plan : TransferPlan} {id : Nat} (h : pc.resume lower created reply = some (.publish plan id)) :
    (∃ total, pc = .create plan total) ∧ reply = .done ∧ id = created := by
  cases pc with
  | listUsers userId method =>
      cases reply with
      | users rows =>
          have hnot := @checked_publishing lower userId method rows
          rw [Option.some.inj h] at hnot
          cases hnot
      | _ => cases h
  | getRestoreImap method target email restrict =>
      cases reply with
      | restoreImap cfg =>
          have hnot := destined_publishing method target email restrict cfg
          rw [Option.some.inj h] at hnot
          cases hnot
      | _ => cases h
  | getSmtp target email restrict =>
      cases reply with
      | smtp cfg => cases cfg <;> cases h
      | _ => cases h
  | create plan' total =>
      cases reply with
      | done => cases h; exact ⟨⟨total, rfl⟩, rfl, rfl⟩
      | _ => cases h
  | _ => cases reply <;> cases h

/-- The row of a job is committed without an exception. -/
theorem linked_create {p r : Nat} {reply : RestoreReply} {proc : ApiProcess} {plan : TransferPlan}
    {total : Nat} {pc' : TransferPc} (h : w.linked (.answer p r reply) = true)
    (hproc : w.procs[p]? = some proc) (hpc : proc.requests[r]? = some (.create plan total))
    (hresume : TransferPc.resume lower w.jobs.nextId (.create plan total) reply = some pc')
    (happlied : reply.applied = true) : pc' = .publish plan w.jobs.nextId := by
  cases reply with
  | raises error applied =>
      obtain rfl : applied = true := happlied
      simp [linked, hproc, hpc] at h
  | done => cases hresume; rfl
  | _ => cases hresume

/-- The command of a job is stored. -/
theorem linked_publish {p r : Nat} {reply : RestoreReply} {proc : ApiProcess} {plan : TransferPlan}
    {id : Nat} {pc' : TransferPc} (h : w.linked (.answer p r reply) = true)
    (hproc : w.procs[p]? = some proc) (hpc : proc.requests[r]? = some (.publish plan id))
    (hresume : TransferPc.resume lower w.jobs.nextId (.publish plan id) reply = some pc') :
    reply.applied = true := by
  cases reply with
  | raises error applied =>
      have happlied : applied = true := by simpa [linked, hproc, hpc] using h
      exact happlied
  | done => rfl
  | _ => cases hresume

theorem written_becomes (reply : RestoreReply) (pc : TransferPc) :
    w.jobs.Becomes (w.written reply pc).jobs where
  nextId := by
    unfold written
    split
    · split
      · exact Nat.le_succ _
      · exact Nat.le_refl _
    · split
      · exact Nat.le_refl _
      · exact Nat.le_refl _
    · exact Nat.le_refl _
  rows job hjob hrunning := by
    rcases written_rows hjob with hjob | ⟨-, -, hid, -⟩
    · exact .inl ⟨job, hjob, rfl, hrunning⟩
    · exact .inr hid.ge

theorem mem_written_queue {reply : RestoreReply} {pc : TransferPc} {body : RestoreBody}
    (h : body ∈ w.queue) : body ∈ (w.written reply pc).queue := by
  unfold written
  split
  · split
    · exact h
    · exact h
  · split
    · exact List.mem_append_left _ h
    · exact h
  · exact h

/-- The messages after an answer to a request: the old ones and the command
of a new job. -/
theorem written_queue {reply : RestoreReply} {pc : TransferPc} {body : RestoreBody}
    (h : body ∈ (w.written reply pc).queue) : body ∈ w.queue
      ∨ ∃ plan id, pc = .publish plan id ∧ body = .command (plan.command id) := by
  cases pc with
  | create plan total =>
      rw [written] at h
      split at h
      · exact .inl h
      · exact .inl h
  | publish plan id =>
      rw [written] at h
      split at h
      · rcases List.mem_append.mp h with hbody | hbody
        · exact .inl hbody
        · exact .inr ⟨plan, id, rfl, List.mem_singleton.mp hbody⟩
      · exact .inl h
  | _ => exact .inl h

theorem Covered.answer (h : w.Covered) {p r : Nat} {reply : RestoreReply}
    (hlinked : w.linked (.answer p r reply) = true)
    (hs : w.step lower (.answer p r reply) = some w') : w'.Covered := by
  obtain ⟨proc, pc, pc', hproc, hpc, hresume, rfl⟩ := answer_eq_some hs
  have hsound := h.sound proc (List.mem_of_getElem? hproc)
  have hbecomes : w.jobs.Becomes (w.written reply pc).jobs := written_becomes reply pc
  have hstill := hsound.mono hbecomes
  have hprocs := congrArg (List.set · p { proc with requests := proc.requests.set r pc' })
    (@written_procs w reply pc)
  refine h.of_set hproc hprocs hbecomes
    ⟨hstill.held, hstill.executes, fun plan id hmem => ?_⟩ (fun cmd hcmd => ?_)
    (fun _ hcmd => queued_of_mem (mem_written_queue hcmd)) (fun _ hout => .inl hout)
    (fun pc₀ hpc₀ id howes => ?_) fun job hjob hnew => ?_
  · rcases List.mem_or_eq_of_mem_set hmem with hmem | rfl
    · exact hstill.publishes plan id hmem
    · -- the row it has just created
      obtain ⟨⟨total, rfl⟩, rfl, rfl⟩ := resume_publish hresume
      exact Nat.lt_succ_self _
  · rcases written_queue hcmd with hold | ⟨plan, id, rfl, hcommand⟩
    · exact .inl hold
    · obtain rfl : cmd = plan.command id := by simpa using hcommand
      exact .inr (hstill.publishes plan id (List.mem_of_getElem? hpc))
  · rcases Slots.mem_set_or hpc₀ r pc' with hmem | hr
    · exact .inl hmem
    · obtain rfl := Option.some.inj (hpc.symm.trans hr)
      cases pc with
      | publish plan jobId =>
          obtain rfl : jobId = id := of_decide_eq_true howes
          have happlied := linked_publish hlinked hproc hpc hresume
          refine .inr (@queued_of_mem _ (plan.command jobId) ?_)
          simp [written, happlied]
      | _ => cases howes
  · rcases written_rows hjob with hold | ⟨⟨plan, total, rfl⟩, happlied, hid, -⟩
    · exact (no_new hold hnew).elim
    · obtain rfl := linked_create hlinked hproc hpc hresume happlied
      exact ⟨_, Slots.mem_set_self (by simpa using hproc) _, _, Slots.mem_set_self hpc _,
        by simp [TransferPc.owes, hid]⟩

theorem Covered.step (h : w.Covered) {e : JobEvent} (hlinked : w.linked e = true)
    (hs : w.step lower e = some w') : w'.Covered := by
  cases e with
  | request p userId method => exact h.request hs
  | answer p r reply => exact h.answer hlinked hs
  | deliver p m => exact h.deliver hs
  | reply p reply => exact h.reply hs
  | settle p => exact h.settle hs
  | lose p => exact h.lose hs
  | crash p => exact h.crash hlinked hs

/-- **No restoration job is stuck when its request gets from the row to
the message**: in every state of a run whose requests do not fail between
the commit of a job and the publication of its command, with failures and
crashes anywhere else, a running job that no request is about to publish
has its command in the queue, ready or delivered and not acknowledged. -/
theorem running_job_queued {n : Nat} {events : List JobEvent}
    (hrun : run (step lower) (init n) events = some w)
    (hlinked : Meets (step lower) (fun w e => w.linked e = true) (init n) events)
    {job : TransferJob} (hjob : job ∈ w.jobs.rows) (hrunning : job.status = .running)
    (hout : ∀ proc ∈ w.procs, ∀ pc ∈ proc.requests, pc.owes job.id = false) :
    ∃ cmd : RestoreCommand, cmd.jobId = job.id
      ∧ (.command cmd ∈ w.queue ∨ ∃ proc ∈ w.procs, proc.unacked = some (.command cmd)) := by
  have hcovered : w.Covered :=
    run_invariant_of_meets (fun _ _ _ h hC hs => h.step hC hs) hrun hlinked (init_covered n)
  rcases hcovered.covered job hjob hrunning with hqueued | ⟨proc, hproc, pc, hpc, howes⟩
  · exact hqueued
  · rw [hout proc hproc pc hpc] at howes
    cases howes

/-! ### A row without its command -/

/-- The process is gone between the commit of the row and the publication:
the job is running, there is no message and no request. -/
theorem restoration_job_stuck :
    (run (step id) (init 1) ((requested 0).take 5 ++ [.crash 0])).map
        (fun w => (w.jobs.rows, w.queue, w.procs))
      = some ([bobsJob 0 .running none], [], [.fresh]) := by
  decide +kernel

/-- The process is gone while it executes the job. -/
def executionCrashed : List JobEvent :=
  requested 0 ++ [.deliver 0 0, .reply 0 (.restoreImap (some bobImap)), .crash 0]

theorem running_job_queued_crashed : ∃ w, run (step id) (init 1) executionCrashed = some w
    ∧ bobsJob 0 .running none ∈ w.jobs.rows ∧ ∃ cmd : RestoreCommand, cmd.jobId = 1
      ∧ (.command cmd ∈ w.queue ∨ ∃ proc ∈ w.procs, proc.unacked = some (.command cmd)) := by
  have hend : (run (step id) (init 1) executionCrashed).map (fun w => (w.jobs.rows, w.procs))
      = some ([bobsJob 0 .running none], [.fresh]) := by decide +kernel
  have hcheck : meetsAll (step id) (fun w e => w.linked e) (init 1) executionCrashed = true := by
    decide +kernel
  obtain ⟨w, hrun, hw⟩ := Option.map_eq_some_iff.mp hend
  obtain ⟨hrows, hprocs⟩ := Prod.mk.inj hw
  have hjob : bobsJob 0 .running none ∈ w.jobs.rows := by simp [hrows]
  have hlinked : Meets (step id) (fun w e => w.linked e = true) (init 1) executionCrashed :=
    meets_of_check (fun _ _ h => h) hcheck
  refine ⟨w, hrun, hjob, running_job_queued hrun hlinked hjob rfl ?_⟩
  simp [hprocs, ApiProcess.fresh]

end RestoreWorld
end MailArchiver

import MailArchiver.Api.PerimeterTransfer
import MailArchiver.Api.RestoreConsumer
import MailArchiver.Lib.Slots
import MailArchiver.Lib.Table

/-!
# System — RestoreJobs

The restoration jobs over the processes of the API, their table and the
queue `restore_jobs`. A process answers transfer requests and consumes
one message at a time (`prefetch=1`); the broker keeps a message until it
is acknowledged, and has it ready again when the consumer rejects it, when
the process is gone or when the broker gives its channel up, which may be
while the handler still runs.

`offered` keeps, for each job, the mails that were handed to the
destination.
-/

namespace MailArchiver

open Transition

/-- The table `transfer_jobs`, with the next value of its sequence. -/
structure JobTable where
  rows : List TransferJob
  nextId : Nat
  unique : (rows.map TransferJob.id).Nodup
  fresh : ∀ job ∈ rows, job.id < nextId

namespace JobTable

def empty (nextId : Nat) : JobTable := ⟨[], nextId, List.nodup_nil, nofun⟩

/-- An `INSERT`; the sequence gives the id. -/
def insert (t : JobTable) (row : Nat → TransferJob) (hrow : ∀ id, (row id).id = id) : JobTable where
  rows := t.rows ++ [row t.nextId]
  nextId := t.nextId + 1
  unique := Table.nodup_insert t.unique t.fresh (hrow t.nextId)
  fresh := Table.fresh_insert t.fresh (hrow t.nextId)

/-- An `UPDATE` that leaves the ids. -/
def update (t : JobTable) (f : TransferJob → TransferJob) (hf : ∀ job, (f job).id = job.id) :
    JobTable where
  rows := t.rows.map f
  nextId := t.nextId
  unique := (Table.map_key_update hf).symm ▸ t.unique
  fresh := Table.fresh_update hf t.fresh

end JobTable

/-! ## What an execution does to the jobs -/

namespace RestorePc

/-- The row of a job after the call of an execution. -/
def onJob (pc : RestorePc) (job : TransferJob) : TransferJob :=
  match pc.call with
  | some call => call.onJob job
  | none => job

/-- The mail the call hands over, under the id of its job. -/
def offers (pc : RestorePc) : List (Nat × Nat) :=
  match pc.jobId, pc.call.bind RestoreCall.offers with
  | some jobId, some raw => [(jobId, raw.uid)]
  | _, _ => []

/-- The execution of a command starts at its job. -/
theorem jobId_handle (cmd : RestoreCommand) : (handle cmd).jobId = some cmd.jobId := by
  rw [handle]
  split
  · rfl
  · rfl

theorem onJob_id (pc : RestorePc) (job : TransferJob) : (pc.onJob job).id = job.id := by
  rw [onJob]
  split
  · exact Restoration.onJob_id job _
  · rfl

/-- An execution writes to the row of its job only. -/
theorem onJob_of_ne {pc : RestorePc} {job : TransferJob} (h : pc.jobId ≠ some job.id) :
    pc.onJob job = job := by
  have hne : ∀ {id : Nat}, pc.jobId = some id → job.id ≠ id := fun hid heq => h (heq ▸ hid)
  cases pc with
  | refuse jobId error => exact if_neg (hne rfl)
  | setProgress p => exact if_neg (hne rfl)
  | finishDone t => exact if_neg (hne rfl)
  | finishError t error => exact if_neg (hne rfl)
  | _ => rfl

theorem offers_of_ne {pc : RestorePc} {id : Nat} (h : pc.jobId ≠ some id) :
    pc.offers.filter (fun o => o.1 = id) = [] := by
  rw [offers]
  split
  · rename_i jobId raw hjobId _
    have hne : jobId ≠ id := fun heq => h (heq ▸ hjobId)
    simp [hne]
  · rfl

/-- No call puts a job back to running. -/
theorem running_of_onJob {pc : RestorePc} {job : TransferJob}
    (h : (pc.onJob job).status = .running) : job.status = .running := by
  have hfinish : ∀ {id : Nat} {status : JobStatus} {error : Option String},
      (RestoreCall.onJob job (.finish id status error)).status = .running →
        status ≠ .running → job.status = .running := by
    intro id status error hrunning hstatus
    rw [RestoreCall.onJob] at hrunning
    split at hrunning
    · exact absurd hrunning hstatus
    · exact hrunning
  cases pc with
  | refuse jobId error => exact hfinish h (by decide)
  | finishDone t => exact hfinish h (by decide)
  | finishError t error => exact hfinish h (by decide)
  | setProgress p =>
      simp only [onJob, call, RestoreCall.onJob] at h
      split at h
      · exact h
      · exact h
  | _ => exact h

/-- The end that an execution records. -/
theorem Finishes.over {pc pc' : RestorePc} {reply : RestoreReply} (h : Finishes pc reply pc')
    {job : TransferJob} (hjob : pc.jobId = some job.id) : (pc.onJob job).status ≠ .running := by
  obtain ⟨-, -, jobId, status, error, hjobId, hcall, hstatus⟩ := h
  obtain rfl : job.id = jobId := Option.some.inj (hjob.symm.trans hjobId)
  rw [onJob, hcall]
  simpa [RestoreCall.onJob] using hstatus

/-- Where recording the end of a job is being answered. -/
def recording : RestorePc → Bool
  | refuse .. => true
  | finishDone _ => true
  | finishError .. => true
  | _ => false

theorem onJob_status {pc : RestorePc} (h : pc.recording = false) (job : TransferJob) :
    (pc.onJob job).status = job.status := by
  cases pc with
  | refuse jobId error => cases h
  | finishDone t => cases h
  | finishError t error => cases h
  | setProgress p =>
      simp only [onJob, call, RestoreCall.onJob]
      split
      · rfl
      · rfl
  | _ => rfl

end RestorePc

namespace RestoreConsumer

/-- Where the handler of a message is. -/
def pc : RestoreConsumer → Option RestorePc
  | handling _ pc => some pc
  | _ => none

/-- The job a consumer executes. -/
def jobId (c : RestoreConsumer) : Option Nat := c.pc.bind RestorePc.jobId

theorem pc_eq_some {c : RestoreConsumer} {pc : RestorePc} (h : c.pc = some pc) :
    ∃ body, c = handling body pc := by
  cases c with
  | handling body pc' => cases h; exact ⟨body, rfl⟩
  | _ => cases h

theorem deliver_eq_some {c c' : RestoreConsumer} {body : RestoreBody}
    (h : c.step (.deliver body) = some c') : c = consuming ∧ c' = handling body body.handle := by
  cases c with
  | consuming => cases h; exact ⟨rfl, rfl⟩
  | handling body' pc => cases pc <;> cases h
  | ended => cases h

theorem leave_eq_some {c c' : RestoreConsumer} (h : c.step .leave = some c') :
    ∃ body pc, c = handling body pc
      ∧ (pc = .returned ∧ c' = consuming ∨ (∃ error, pc = .raised error) ∧ c' = ended) := by
  cases c with
  | consuming => cases h
  | handling body pc =>
      cases pc with
      | returned => cases h; exact ⟨body, _, rfl, .inl ⟨rfl, rfl⟩⟩
      | raised error => cases h; exact ⟨body, _, rfl, .inr ⟨⟨error, rfl⟩, rfl⟩⟩
      | _ => cases h
  | ended => cases h

end RestoreConsumer

/-! ## The processes, the table and the queue -/

/-- A process of the API. -/
structure ApiProcess where
  consumer : RestoreConsumer
  /-- The message delivered to it and not settled. -/
  unacked : Option RestoreBody
  requests : List TransferPc
  deriving DecidableEq, Repr

/-- After a start: the consumer is up and nothing is going on. -/
def ApiProcess.fresh : ApiProcess := ⟨.consuming, none, []⟩

structure RestoreWorld where
  jobs : JobTable
  /-- The messages that are ready. -/
  queue : List RestoreBody
  procs : List ApiProcess
  offered : List (Nat × Nat)

inductive JobEvent where
  | request (p : Nat) (userId : Nat) (method : String)
  /-- An answer to request `r` of process `p`. -/
  | answer (p r : Nat) (reply : RestoreReply)
  /-- Message `m` of the queue goes to process `p`. -/
  | deliver (p m : Nat)
  | reply (p : Nat) (reply : RestoreReply)
  /-- The handler has ended: the message is settled. -/
  | settle (p : Nat)
  /-- The broker gives up the channel of the consumer. -/
  | lose (p : Nat)
  /-- The process is gone, and started again. -/
  | crash (p : Nat)
  deriving DecidableEq, Repr

namespace RestoreWorld

/-- `n` processes, no job and no message. -/
def init (n : Nat) : RestoreWorld := ⟨.empty 1, [], List.replicate n .fresh, []⟩

variable (lower : String → String)

def setProc (w : RestoreWorld) (p : Nat) (proc : ApiProcess) : RestoreWorld :=
  { w with procs := w.procs.set p proc }

/-- What an answer to a request has done: the row of the job is inserted,
its command is stored by the broker. -/
def written (w : RestoreWorld) (reply : RestoreReply) : TransferPc → RestoreWorld
  | .create plan total =>
      if reply.applied then { w with jobs := w.jobs.insert (plan.job total) fun _ => rfl } else w
  | .publish plan jobId =>
      if reply.applied then { w with queue := w.queue ++ [.command (plan.command jobId)] } else w
  | _ => w

/-- What an answer to an execution has done. -/
def called (w : RestoreWorld) (reply : RestoreReply) (pc : RestorePc) : RestoreWorld :=
  { w with
    jobs := if reply.applied then w.jobs.update pc.onJob pc.onJob_id else w.jobs
    offered := w.offered ++ pc.offers }

/-- A message that is ready again. -/
def returned (w : RestoreWorld) (message : Option RestoreBody) : RestoreWorld :=
  { w with queue := w.queue ++ message.toList }

/-- A message the consumer is done with: acknowledged if it goes on,
rejected if not. -/
def settled (w : RestoreWorld) (message : Option RestoreBody) (after : RestoreConsumer) :
    RestoreWorld :=
  if after = .consuming then w else w.returned message

def step (w : RestoreWorld) : JobEvent → Option RestoreWorld
  | .request p userId method => do
      let proc ← w.procs[p]?
      return w.setProc p { proc with requests := proc.requests ++ [.listUsers userId method] }
  | .answer p r reply => do
      let proc ← w.procs[p]?
      let pc ← proc.requests[r]?
      let pc' ← pc.resume lower w.jobs.nextId reply
      return (w.written reply pc).setProc p { proc with requests := proc.requests.set r pc' }
  | .deliver p m => do
      let proc ← w.procs[p]?
      let body ← w.queue[m]?
      let consumer ← proc.consumer.step (.deliver body)
      guard (proc.unacked = none)
      return { w with queue := w.queue.eraseIdx m }.setProc p
        { proc with consumer := consumer, unacked := some body }
  | .reply p reply => do
      let proc ← w.procs[p]?
      let pc ← proc.consumer.pc
      let consumer ← proc.consumer.step (.reply reply)
      return (w.called reply pc).setProc p { proc with consumer := consumer }
  | .settle p => do
      let proc ← w.procs[p]?
      let consumer ← proc.consumer.step .leave
      return (w.settled proc.unacked consumer).setProc p
        { proc with consumer := consumer, unacked := none }
  | .lose p => do
      let proc ← w.procs[p]?
      return (w.returned proc.unacked).setProc p { proc with unacked := none }
  | .crash p => do
      let proc ← w.procs[p]?
      return (w.returned proc.unacked).setProc p .fresh

/-! ## What a step does -/

variable {lower} {w w' : RestoreWorld} {p : Nat}

@[simp] theorem setProc_jobs (proc : ApiProcess) : (w.setProc p proc).jobs = w.jobs := rfl
@[simp] theorem setProc_queue (proc : ApiProcess) : (w.setProc p proc).queue = w.queue := rfl
@[simp] theorem setProc_offered (proc : ApiProcess) : (w.setProc p proc).offered = w.offered := rfl
@[simp] theorem setProc_procs (proc : ApiProcess) :
    (w.setProc p proc).procs = w.procs.set p proc := rfl

@[simp] theorem written_procs (reply : RestoreReply) (pc : TransferPc) :
    (w.written reply pc).procs = w.procs := by
  unfold written
  split <;> first | rfl | (split <;> rfl)

@[simp] theorem written_offered (reply : RestoreReply) (pc : TransferPc) :
    (w.written reply pc).offered = w.offered := by
  unfold written
  split <;> first | rfl | (split <;> rfl)

@[simp] theorem called_procs (reply : RestoreReply) (pc : RestorePc) :
    (w.called reply pc).procs = w.procs := rfl
@[simp] theorem called_queue (reply : RestoreReply) (pc : RestorePc) :
    (w.called reply pc).queue = w.queue := rfl

@[simp] theorem settled_jobs (message : Option RestoreBody) (after : RestoreConsumer) :
    (w.settled message after).jobs = w.jobs := by
  unfold settled
  split <;> rfl

@[simp] theorem settled_procs (message : Option RestoreBody) (after : RestoreConsumer) :
    (w.settled message after).procs = w.procs := by
  unfold settled
  split <;> rfl

@[simp] theorem settled_offered (message : Option RestoreBody) (after : RestoreConsumer) :
    (w.settled message after).offered = w.offered := by
  unfold settled
  split <;> rfl

/-- The rows after an answer to a request: the old ones and that of a new
job. -/
theorem written_rows {reply : RestoreReply} {pc : TransferPc} {job : TransferJob}
    (h : job ∈ (w.written reply pc).jobs.rows) : job ∈ w.jobs.rows
      ∨ (∃ plan total, pc = .create plan total) ∧ reply.applied = true
        ∧ job.id = w.jobs.nextId ∧ job.status = .running := by
  cases pc with
  | create plan total =>
      rw [written] at h
      split at h
      · rename_i happlied
        rcases List.mem_append.mp h with hjob | hjob
        · exact .inl hjob
        · obtain rfl := List.mem_singleton.mp hjob
          exact .inr ⟨⟨plan, total, rfl⟩, happlied, rfl, rfl⟩
      · exact .inl h
  | publish plan jobId =>
      rw [written] at h
      split at h
      · exact .inl h
      · exact .inl h
  | _ => exact .inl h

/-- After an answer to an execution: its job is written to or not. -/
theorem called_rows {reply : RestoreReply} {pc : RestorePc} {job' : TransferJob}
    (h : job' ∈ (w.called reply pc).jobs.rows) : ∃ job ∈ w.jobs.rows, job.id = job'.id
      ∧ (reply.applied = false ∧ job' = job ∨ reply.applied = true ∧ job' = pc.onJob job) := by
  cases happlied : reply.applied with
  | false =>
      simp only [called, happlied, Bool.false_eq_true, if_false] at h
      exact ⟨job', h, rfl, .inl ⟨rfl, rfl⟩⟩
  | true =>
      simp only [called, happlied, if_true, JobTable.update] at h
      obtain ⟨job, hjob, rfl⟩ := List.mem_map.mp h
      exact ⟨job, hjob, (pc.onJob_id job).symm, .inr ⟨rfl, rfl⟩⟩

/-- An answer to a request leaves the rows there are. -/
theorem mem_written {reply : RestoreReply} {pc : TransferPc} {job : TransferJob}
    (h : job ∈ w.jobs.rows) : job ∈ (w.written reply pc).jobs.rows := by
  unfold written
  split
  · split
    · exact List.mem_append_left _ h
    · exact h
  · split
    · exact h
    · exact h
  · exact h

/-- An answer to an execution leaves the rows of the other jobs. -/
theorem mem_called {reply : RestoreReply} {pc : RestorePc} {job : TransferJob}
    (h : job ∈ w.jobs.rows) (hne : pc.jobId ≠ some job.id) :
    job ∈ (w.called reply pc).jobs.rows := by
  unfold called
  dsimp only
  split
  · exact List.mem_map.mpr ⟨job, h, RestorePc.onJob_of_ne hne⟩
  · exact h

theorem request_eq_some {userId : Nat} {method : String}
    (h : w.step lower (.request p userId method) = some w') : ∃ proc, w.procs[p]? = some proc
      ∧ w' = w.setProc p { proc with requests := proc.requests ++ [.listUsers userId method] } := by
  obtain ⟨proc, hproc, hw⟩ := Option.bind_eq_some_iff.mp h
  exact ⟨proc, hproc, (Option.some.inj hw).symm⟩

theorem answer_eq_some {r : Nat} {reply : RestoreReply}
    (h : w.step lower (.answer p r reply) = some w') : ∃ proc pc pc', w.procs[p]? = some proc
      ∧ proc.requests[r]? = some pc ∧ pc.resume lower w.jobs.nextId reply = some pc'
      ∧ w' = (w.written reply pc).setProc p { proc with requests := proc.requests.set r pc' } := by
  obtain ⟨proc, hproc, h⟩ := Option.bind_eq_some_iff.mp h
  obtain ⟨pc, hpc, h⟩ := Option.bind_eq_some_iff.mp h
  obtain ⟨pc', hresume, hw⟩ := Option.bind_eq_some_iff.mp h
  exact ⟨proc, pc, pc', hproc, hpc, hresume, (Option.some.inj hw).symm⟩

theorem deliver_eq_some {m : Nat} (h : w.step lower (.deliver p m) = some w') :
    ∃ proc body, w.procs[p]? = some proc ∧ w.queue[m]? = some body
      ∧ proc.consumer = .consuming ∧ proc.unacked = none
      ∧ w' = { w with queue := w.queue.eraseIdx m }.setProc p
        { proc with consumer := .handling body body.handle, unacked := some body } := by
  obtain ⟨proc, hproc, h⟩ := Option.bind_eq_some_iff.mp h
  obtain ⟨body, hbody, h⟩ := Option.bind_eq_some_iff.mp h
  obtain ⟨consumer, hconsumer, h⟩ := Option.bind_eq_some_iff.mp h
  obtain ⟨_, hguard, hw⟩ := Option.bind_eq_some_iff.mp h
  obtain ⟨hidle, rfl⟩ := RestoreConsumer.deliver_eq_some hconsumer
  exact ⟨proc, body, hproc, hbody, hidle, by simpa [guard] using hguard, (Option.some.inj hw).symm⟩

theorem reply_eq_some {reply : RestoreReply} (h : w.step lower (.reply p reply) = some w') :
    ∃ proc body pc pc', w.procs[p]? = some proc ∧ proc.consumer = .handling body pc
      ∧ pc.resume reply = some pc'
      ∧ w' = (w.called reply pc).setProc p { proc with consumer := .handling body pc' } := by
  obtain ⟨proc, hproc, h⟩ := Option.bind_eq_some_iff.mp h
  obtain ⟨pc, hpc, h⟩ := Option.bind_eq_some_iff.mp h
  obtain ⟨consumer, hconsumer, hw⟩ := Option.bind_eq_some_iff.mp h
  obtain ⟨body, hhandling⟩ := RestoreConsumer.pc_eq_some hpc
  rw [hhandling] at hconsumer
  obtain ⟨pc', hresume, rfl⟩ := Option.map_eq_some_iff.mp hconsumer
  exact ⟨proc, body, pc, pc', hproc, hhandling, hresume, (Option.some.inj hw).symm⟩

theorem settle_eq_some (h : w.step lower (.settle p) = some w') :
    ∃ proc body pc after, w.procs[p]? = some proc ∧ proc.consumer = .handling body pc
      ∧ (pc = .returned ∧ after = .consuming ∨ (∃ error, pc = .raised error) ∧ after = .ended)
      ∧ w' = (w.settled proc.unacked after).setProc p
        { proc with consumer := after, unacked := none } := by
  obtain ⟨proc, hproc, h⟩ := Option.bind_eq_some_iff.mp h
  obtain ⟨after, hafter, hw⟩ := Option.bind_eq_some_iff.mp h
  obtain ⟨body, pc, hhandling, hcases⟩ := RestoreConsumer.leave_eq_some hafter
  exact ⟨proc, body, pc, after, hproc, hhandling, hcases, (Option.some.inj hw).symm⟩

theorem lose_eq_some (h : w.step lower (.lose p) = some w') : ∃ proc, w.procs[p]? = some proc
      ∧ w' = (w.returned proc.unacked).setProc p { proc with unacked := none } := by
  obtain ⟨proc, hproc, hw⟩ := Option.bind_eq_some_iff.mp h
  exact ⟨proc, hproc, (Option.some.inj hw).symm⟩

theorem crash_eq_some (h : w.step lower (.crash p) = some w') : ∃ proc, w.procs[p]? = some proc
      ∧ w' = (w.returned proc.unacked).setProc p .fresh := by
  obtain ⟨proc, hproc, hw⟩ := Option.bind_eq_some_iff.mp h
  exact ⟨proc, hproc, (Option.some.inj hw).symm⟩

/-! ### A transfer of one mail -/

def bob : User where
  id := 1
  username := "bob"
  passwordHash := ""
  role := "user"
  email := some "bob@x.fr"
  auditedEmails := []
  displayName := "Bob"
  isActive := true
  failedLogins := 0
  lockedUntil := none

def bobImap : RestoreImap := ⟨"imap.x.fr", 0, "bob", "secret", true, "INBOX"⟩

/-- A page of one mail, the last one. -/
def pageOfOne : SearchResult where
  total := 1
  totalEstimated := false
  results := [Restoration.sampleRow 5]
  nextSearchAfter := none

/-- The transfer of Bob's mail is requested from process 0. -/
def requested (r : Nat) : List JobEvent :=
  .request 0 1 "auto" :: [RestoreReply.users [bob], .restoreImap (some bobImap), .page pageOfOne,
    .done, .done, .done].map (.answer 0 r)

/-- Its command is executed, to the deposit of the one mail. -/
def deposited : List JobEvent :=
  .deliver 0 0 :: [RestoreReply.restoreImap (some bobImap), .page pageOfOne, .eml [50], .done,
    .done, .done, .append true].map (.reply 0)

/-- The job ends as done. -/
def restored : List JobEvent :=
  requested 0 ++ deposited ++ [RestoreReply.done, .done, .done].map (.reply 0)

def bobsJob (sent : Nat) (status : JobStatus) (error : Option String) : TransferJob where
  id := 1
  auditorUsername := "bob"
  recipient := "IMAP imap.x.fr/INBOX"
  total := 1
  sent := sent
  status := status
  error := error

end RestoreWorld
end MailArchiver

import MailArchiver.Api.SearchService
import MailArchiver.Api.Users
import MailArchiver.Common.Fetch
import MailArchiver.Lib.Transition

/-!
# Api — Restore

Executing a restoration job: `_handle_restore_command` and
`_run_perimeter_transfer` of `api/main.py`, `imap_append` of
`mailarchiver_common/fetch.py` and `send_raw` of `api/smtp_relay.py`, from
one external call to the next. A state (`RestorePc`) is where the
execution waits for an answer and the local variables it has there;
`call` is what it has asked and `resume` where an answer takes it.

A call that raises may have taken effect (`RestoreReply.raises`). A mail in
transit keeps the id it was fetched by.
-/

namespace MailArchiver

open Transition

/-- The configuration `get_restore_imap` returns. -/
structure RestoreImap where
  host : String
  port : Nat
  username : String
  password : String
  ssl : Bool
  folder : String
  deriving DecidableEq, Repr

/-- `int(cfg.get("port") or (993 if cfg.get("ssl", True) else 143))`. -/
def RestoreImap.portOrDefault (cfg : RestoreImap) : Nat :=
  if cfg.port ≠ 0 then cfg.port else if cfg.ssl then 993 else 143

/-- `cfg.get("folder") or "INBOX"`. -/
def RestoreImap.folderOrDefault (cfg : RestoreImap) : String :=
  if cfg.folder = "" then "INBOX" else cfg.folder

/-- The configuration `get_smtp` returns. -/
structure SmtpConfig where
  host : String
  port : Int
  username : String
  password : String
  starttls : Bool
  sender : String
  deriving DecidableEq, Repr

/-- `dest`. -/
inductive Destination where
  | imap (cfg : RestoreImap)
  | smtp (cfg : SmtpConfig) (recipient : String)
  deriving DecidableEq, Repr

/-- The command in a message of the queue `restore_jobs`. -/
structure RestoreCommand where
  jobId : Nat
  userId : Nat
  method : String
  restrict : List String
  deriving DecidableEq, Repr

inductive JobStatus where
  | running
  | done
  | error
  deriving DecidableEq, Repr

/-- A row of `transfer_jobs`. -/
structure TransferJob where
  id : Nat
  auditorUsername : String
  recipient : String
  total : Nat
  sent : Nat
  status : JobStatus
  error : Option String
  deriving DecidableEq, Repr

/-! ## The calls and their answers -/

inductive RestoreCall where
  | getRestoreImap (userId : Nat)
  | getSmtp
  | listUsers
  /-- `_search.advanced({}, size=page, ...)`. -/
  | search (restrict : List String) (searchAfter : Option (List Scalar))
  | getEml (id : Nat)
  | imapConnect (host : String) (port : Nat) (ssl : Bool)
  | imapLogin (username password : String)
  | imapCreate (folder : String)
  | imapAppend (folder : String) (raw : Fetched)
  | imapLogout
  | sendRaw (cfg : SmtpConfig) (raw : Fetched) (recipient : String)
  | setProgress (jobId sent : Nat)
  | finish (jobId : Nat) (status : JobStatus) (error : Option String)
  deriving DecidableEq, Repr

inductive RestoreReply where
  /-- An exception with this text, after the call has taken effect or
  before. -/
  | raises (error : String) (applied : Bool)
  | restoreImap (cfg : Option RestoreImap)
  | smtp (cfg : Option SmtpConfig)
  | users (rows : List User)
  | page (data : SearchResult)
  | eml (raw : Bytes)
  /-- `APPEND` is answered `OK` or `NO`. -/
  | append (accepted : Bool)
  | done
  deriving DecidableEq, Repr

/-! ## The execution -/

/-- The locals of `_run_perimeter_transfer` between two pages. -/
structure Transfer where
  jobId : Nat
  restrict : List String
  dest : Destination
  sent : Nat
  cursor : Option (List Scalar)
  deriving DecidableEq, Repr

/-- And within a page. -/
structure TransferPage where
  transfer : Transfer
  data : SearchResult
  raws : List Fetched
  deriving DecidableEq, Repr

inductive RestorePc where
  | getRestoreImap (cmd : RestoreCommand)
  | getSmtp (cmd : RestoreCommand)
  | listUsers (cmd : RestoreCommand) (smtp : Option SmtpConfig)
  /-- `finish(job_id, "error", ...)` before the transfer. -/
  | refuse (jobId : Nat) (error : String)
  | search (t : Transfer)
  | getEml (p : TransferPage) (r : ResultRow) (rest : List ResultRow)
  | imapConnect (p : TransferPage) (cfg : RestoreImap)
  | imapLogin (p : TransferPage) (cfg : RestoreImap)
  | imapCreate (p : TransferPage) (cfg : RestoreImap)
  | imapAppend (p : TransferPage) (cfg : RestoreImap) (n : Nat) (raw : Fetched)
      (rest : List Fetched)
  /-- The `finally` of `imap_append`, with what it will return or raise. -/
  | imapLogout (p : TransferPage) (result : Except String Nat)
  | sendRaw (p : TransferPage) (cfg : SmtpConfig) (recipient : String) (raw : Fetched)
      (rest : List Fetched)
  | setProgress (p : TransferPage)
  | finishDone (t : Transfer)
  /-- In the `except` of `_run_perimeter_transfer`. -/
  | finishError (t : Transfer) (error : String)
  | returned
  | raised (error : String)
  deriving DecidableEq, Repr

/-- `sent` after the page. -/
def TransferPage.sent (p : TransferPage) : Nat := p.transfer.sent + p.raws.length

/-- The locals after the page. -/
def TransferPage.next (p : TransferPage) : Transfer :=
  { p.transfer with sent := p.sent, cursor := p.data.nextSearchAfter }

namespace RestorePc

/-- `_handle_restore_command(body)`, once the body is read. -/
def handle (cmd : RestoreCommand) : RestorePc :=
  if cmd.method = "imap" then getRestoreImap cmd else getSmtp cmd

/-- `_run_perimeter_transfer(job_id, restrict, dest)`. -/
def runPerimeterTransfer (jobId : Nat) (restrict : List String) (dest : Destination) : RestorePc :=
  search ⟨jobId, restrict, dest, 0, none⟩

/-- `page` of `_run_perimeter_transfer`. -/
def pageSize : Nat := 200

def call : RestorePc → Option RestoreCall
  | getRestoreImap cmd => some (.getRestoreImap cmd.userId)
  | getSmtp _ => some .getSmtp
  | listUsers .. => some .listUsers
  | refuse jobId error => some (.finish jobId .error (some error))
  | search t => some (.search t.restrict t.cursor)
  | getEml _ r _ => some (.getEml r.id)
  | imapConnect _ cfg => some (.imapConnect cfg.host cfg.portOrDefault cfg.ssl)
  | imapLogin _ cfg => some (.imapLogin cfg.username cfg.password)
  | imapCreate _ cfg => some (.imapCreate cfg.folderOrDefault)
  | imapAppend _ cfg _ raw _ => some (.imapAppend cfg.folderOrDefault raw)
  | imapLogout .. => some .imapLogout
  | sendRaw _ cfg recipient raw _ => some (.sendRaw cfg raw recipient)
  | setProgress p => some (.setProgress p.transfer.jobId p.sent)
  | finishDone t => some (.finish t.jobId .done none)
  | finishError t error => some (.finish t.jobId .error (some error))
  | returned => none
  | raised _ => none

/-- The next round of `for raw in raw_messages`. -/
def appendNext (p : TransferPage) (cfg : RestoreImap) (n : Nat) : List Fetched → RestorePc
  | [] => imapLogout p (.ok n)
  | raw :: rest => imapAppend p cfg n raw rest

/-- The next round of `for raw in raws`. -/
def sendNext (p : TransferPage) (cfg : SmtpConfig) (recipient : String) : List Fetched → RestorePc
  | [] => setProgress p
  | raw :: rest => sendRaw p cfg recipient raw rest

/-- The next round of `for r in results`; after the last, the deposit. -/
def getNext (p : TransferPage) : List ResultRow → RestorePc
  | r :: rest => getEml p r rest
  | [] =>
      match p.transfer.dest with
      | .imap cfg => imapConnect p cfg
      | .smtp cfg recipient => sendNext p cfg recipient p.raws

/-- `imap_append` ends; its count is not read. -/
def afterLogout (p : TransferPage) : Except String Nat → RestorePc
  | .ok _ => setProgress p
  | .error error => finishError p.transfer error

/-- The end of a round of `while True`. -/
def nextPage (p : TransferPage) : RestorePc :=
  if p.data.nextSearchAfter = none ∨ p.data.results.length < pageSize then finishDone p.next
  else search p.next

/-- `dest` of an SMTP job, or its refusal. -/
def withRelay (cmd : RestoreCommand) (smtp : Option SmtpConfig) (users : List User) : RestorePc :=
  match smtp, (users.find? (·.id = cmd.userId)).bind fun u => u.email.filter (· ≠ "") with
  | some cfg, some email => runPerimeterTransfer cmd.jobId cmd.restrict (.smtp cfg email)
  | _, _ => refuse cmd.jobId "relais SMTP ou adresse indisponible"

/-- Where an exception of the call goes. -/
def except (error : String) : RestorePc → RestorePc
  | getRestoreImap _ => raised error
  | getSmtp _ => raised error
  | listUsers .. => raised error
  | refuse .. => raised error
  | search t => finishError t error
  | getEml p _ _ => finishError p.transfer error
  | imapConnect p _ => finishError p.transfer error
  | imapLogin p _ => imapLogout p (.error error)
  -- the folder may exist already
  | imapCreate p cfg => appendNext p cfg 0 p.raws
  | imapAppend p _ _ _ _ => imapLogout p (.error error)
  | imapLogout p result => afterLogout p result
  | sendRaw p _ _ _ _ => finishError p.transfer error
  | setProgress p => finishError p.transfer error
  | finishDone t => finishError t error
  | finishError .. => raised error
  | returned => returned
  | raised error' => raised error'

/-- Where an answer takes the execution; `none` is no answer to its call. -/
def resume (pc : RestorePc) (reply : RestoreReply) : Option RestorePc :=
  match pc, reply with
  | returned, _ => none
  | raised _, _ => none
  | pc, .raises error _ => some (pc.except error)
  | getRestoreImap cmd, .restoreImap none => some (refuse cmd.jobId "destination IMAP supprimée")
  | getRestoreImap cmd, .restoreImap (some cfg) =>
      some (runPerimeterTransfer cmd.jobId cmd.restrict (.imap cfg))
  | getSmtp cmd, .smtp smtp => some (listUsers cmd smtp)
  | listUsers cmd smtp, .users rows => some (withRelay cmd smtp rows)
  | refuse .., .done => some returned
  | search t, .page data =>
      some (if data.results = [] then finishDone t else getNext ⟨t, data, []⟩ data.results)
  | getEml p r rest, .eml raw =>
      some (getNext { p with raws := p.raws ++ [⟨r.id, raw⟩] } rest)
  | imapConnect p cfg, .done => some (imapLogin p cfg)
  | imapLogin p cfg, .done => some (imapCreate p cfg)
  | imapCreate p cfg, .done => some (appendNext p cfg 0 p.raws)
  -- the answer is not looked at
  | imapAppend p cfg n _ rest, .append _ => some (appendNext p cfg (n + 1) rest)
  | imapLogout p result, .done => some (afterLogout p result)
  | sendRaw p cfg recipient _ rest, .done => some (sendNext p cfg recipient rest)
  | setProgress p, .done => some (nextPage p)
  | finishDone _, .done => some returned
  | finishError .., .done => some returned
  | _, _ => none

end RestorePc

/-! ## What the calls do -/

/-- The call has taken effect. -/
def RestoreReply.applied : RestoreReply → Bool
  | .raises _ applied => applied
  | _ => true

/-- `set_progress` and `finish`, where the job is the one named. -/
def RestoreCall.onJob (job : TransferJob) : RestoreCall → TransferJob
  | .setProgress jobId sent => if job.id = jobId then { job with sent := sent } else job
  | .finish jobId status error =>
      if job.id = jobId then { job with status := status, error := error } else job
  | _ => job

/-- The mail a call hands to the destination. -/
def RestoreCall.offers : RestoreCall → Option Fetched
  | .imapAppend _ raw => some raw
  | .sendRaw _ raw _ => some raw
  | _ => none

/-- The destination takes what it is offered. -/
def RestoreReply.accepts (reply : RestoreReply) : Bool := reply.applied && reply ≠ .append false

/-- The ids of the mails a page returns. -/
def RestoreReply.found : RestoreReply → List Nat
  | .page data => data.results.map (·.id)
  | _ => []

/-- One execution with the row of its job; `found`, `visited` and
`accepted` list the mails the search has returned, the execution has
fetched and the destination has taken, `refused` counts the refusals that
raise nothing. -/
structure Restoration where
  pc : RestorePc
  job : TransferJob
  found : List Nat
  visited : List Nat
  accepted : List Nat
  refused : Nat
  deriving DecidableEq, Repr

namespace Restoration

/-- What a call adds to the mails it is about, if it succeeds. -/
def visits (call : RestoreCall) (reply : RestoreReply) : List Nat :=
  match call, reply with
  | .getEml id, .eml _ => [id]
  | _, _ => []

def accepts (call : RestoreCall) (reply : RestoreReply) : List Nat :=
  match call.offers with
  | some raw => if reply.accepts then [raw.uid] else []
  | none => []

/-- The answer to the call of the execution. -/
def step (s : Restoration) (reply : RestoreReply) : Option Restoration :=
  match s.pc.call, s.pc.resume reply with
  | some call, some pc =>
      some {
        pc := pc
        job := if reply.applied then call.onJob s.job else s.job
        found := s.found ++ reply.found
        visited := s.visited ++ visits call reply
        accepted := s.accepted ++ accepts call reply
        refused := s.refused + if reply = .append false then 1 else 0 }
  | _, _ => none

/-- `_run_perimeter_transfer` is called for a job. -/
def start (job : TransferJob) (restrict : List String) (dest : Destination) : Restoration :=
  ⟨.runPerimeterTransfer job.id restrict dest, job, [], [], [], 0⟩

end Restoration

/-! ## What a finished restoration has done -/

namespace RestorePc

/-- The transfer an execution is in. -/
def transfer : RestorePc → Option Transfer
  | search t => some t
  | getEml p _ _ => some p.transfer
  | imapConnect p _ => some p.transfer
  | imapLogin p _ => some p.transfer
  | imapCreate p _ => some p.transfer
  | imapAppend p _ _ _ _ => some p.transfer
  | imapLogout p _ => some p.transfer
  | sendRaw p _ _ _ _ => some p.transfer
  | setProgress p => some p.transfer
  | finishDone t => some t
  | finishError t _ => some t
  | _ => none

/-- The mails of the current page, where no exception is on its way. -/
def pageCount : RestorePc → Option Nat
  | search _ => some 0
  | getEml p _ rest => some (p.raws.length + (rest.length + 1))
  | imapConnect p _ => some p.raws.length
  | imapLogin p _ => some p.raws.length
  | imapCreate p _ => some p.raws.length
  | imapAppend p _ _ _ _ => some p.raws.length
  | imapLogout p (.ok _) => some p.raws.length
  | sendRaw p _ _ _ _ => some p.raws.length
  | setProgress p => some p.raws.length
  | finishDone _ => some 0
  | _ => none

/-- Between two pages. -/
def between : RestorePc → Bool
  | search _ => true
  | finishDone _ => true
  | _ => false

/-- The mails of the current page that are still to be deposited. -/
def owed : RestorePc → List Nat
  | getEml p r rest => p.raws.map (·.uid) ++ r.id :: rest.map (·.id)
  | imapConnect p _ => p.raws.map (·.uid)
  | imapLogin p _ => p.raws.map (·.uid)
  | imapCreate p _ => p.raws.map (·.uid)
  | imapAppend _ _ _ raw rest => raw.uid :: rest.map (·.uid)
  | sendRaw _ _ _ raw rest => raw.uid :: rest.map (·.uid)
  | _ => []

variable (p : TransferPage)

@[simp] theorem transfer_appendNext (cfg : RestoreImap) (n : Nat) (raws : List Fetched) :
    (appendNext p cfg n raws).transfer = some p.transfer := by
  cases raws <;> rfl

@[simp] theorem pageCount_appendNext (cfg : RestoreImap) (n : Nat) (raws : List Fetched) :
    (appendNext p cfg n raws).pageCount = some p.raws.length := by
  cases raws <;> rfl

@[simp] theorem owed_appendNext (cfg : RestoreImap) (n : Nat) (raws : List Fetched) :
    (appendNext p cfg n raws).owed = raws.map (·.uid) := by
  cases raws <;> rfl

@[simp] theorem transfer_sendNext (cfg : SmtpConfig) (recipient : String) (raws : List Fetched) :
    (sendNext p cfg recipient raws).transfer = some p.transfer := by
  cases raws <;> rfl

@[simp] theorem pageCount_sendNext (cfg : SmtpConfig) (recipient : String) (raws : List Fetched) :
    (sendNext p cfg recipient raws).pageCount = some p.raws.length := by
  cases raws <;> rfl

@[simp] theorem owed_sendNext (cfg : SmtpConfig) (recipient : String) (raws : List Fetched) :
    (sendNext p cfg recipient raws).owed = raws.map (·.uid) := by
  cases raws <;> rfl

@[simp] theorem transfer_getNext (rest : List ResultRow) :
    (getNext p rest).transfer = some p.transfer := by
  cases rest with
  | cons r rest => rfl
  | nil =>
      cases h : p.transfer.dest with
      | imap cfg => simp [getNext, h, transfer]
      | smtp cfg recipient => simp [getNext, h]

@[simp] theorem pageCount_getNext (rest : List ResultRow) :
    (getNext p rest).pageCount = some (p.raws.length + rest.length) := by
  cases rest with
  | cons r rest => rfl
  | nil =>
      cases h : p.transfer.dest with
      | imap cfg => simp [getNext, h, pageCount]
      | smtp cfg recipient => simp [getNext, h]

@[simp] theorem owed_getNext (rest : List ResultRow) :
    (getNext p rest).owed = p.raws.map (·.uid) ++ rest.map (·.id) := by
  cases rest with
  | cons r rest => rfl
  | nil =>
      cases h : p.transfer.dest with
      | imap cfg => simp [getNext, h, owed]
      | smtp cfg recipient => simp [getNext, h]

/-- After a page comes another search, or the end. -/
theorem nextPage_cases : nextPage p = finishDone p.next ∨ nextPage p = search p.next := by
  rw [nextPage]
  split
  · exact .inl rfl
  · exact .inr rfl

variable {p} {pc pc' : RestorePc}

theorem resume_page {data : SearchResult} (h : pc.resume (.page data) = some pc') :
    ∃ t, pc = search t
      ∧ pc' = if data.results = [] then finishDone t else getNext ⟨t, data, []⟩ data.results := by
  cases pc <;> first | exact ⟨_, rfl, (Option.some.inj h).symm⟩ | cases h

theorem resume_eml {raw : Bytes} (h : pc.resume (.eml raw) = some pc') :
    ∃ p r rest, pc = getEml p r rest
      ∧ pc' = getNext { p with raws := p.raws ++ [⟨r.id, raw⟩] } rest := by
  cases pc <;> first | exact ⟨_, _, _, rfl, (Option.some.inj h).symm⟩ | cases h

theorem resume_append {accepted : Bool} (h : pc.resume (.append accepted) = some pc') :
    ∃ p cfg n raw rest, pc = imapAppend p cfg n raw rest
      ∧ pc' = appendNext p cfg (n + 1) rest := by
  cases pc <;> first | exact ⟨_, _, _, _, _, rfl, (Option.some.inj h).symm⟩ | cases h

end RestorePc

namespace Restoration

/-- What the execution has counted agrees with what happened. -/
structure Tally (initial sent page jobSent refused : Nat) (found accepted owed : List Nat) :
    Prop where
  length : found.length = sent + page
  progress : jobSent = if sent = 0 then initial else sent
  answered : accepted.length + refused + owed.length = found.length
  whole : refused = 0 → accepted ++ owed = found

section

variable {initial sent page jobSent refused id : Nat} {found accepted owed : List Nat}

/-- The destination takes the next mail. -/
theorem Tally.accept (h : Tally initial sent page jobSent refused found accepted (id :: owed)) :
    Tally initial sent page jobSent refused found (accepted ++ [id]) owed where
  length := h.length
  progress := h.progress
  answered := by
    have := h.answered
    rw [List.length_cons] at this
    rw [List.length_append, List.length_singleton]
    omega
  whole := by
    intro hrefused
    rw [List.append_assoc, List.singleton_append]
    exact h.whole hrefused

/-- The destination refuses the next mail. -/
theorem Tally.refuse (h : Tally initial sent page jobSent refused found accepted (id :: owed)) :
    Tally initial sent page jobSent (refused + 1) found accepted owed where
  length := h.length
  progress := h.progress
  answered := by
    have := h.answered
    rw [List.length_cons] at this
    omega
  whole := nofun

end

/-- The invariant of the execution for a job. -/
structure Counted (job : TransferJob) (s : Restoration) : Prop where
  jobId : s.job.id = job.id
  transfer : ∀ t, s.pc.transfer = some t → t.jobId = job.id
  inside : s.pc.transfer = none → s.pc.call = none
  page : s.pc.between = false → ∀ n, s.pc.pageCount = some n → 0 < n
  tally : ∀ t n, s.pc.transfer = some t → s.pc.pageCount = some n →
    Tally job.sent t.sent n s.job.sent s.refused s.found s.accepted s.pc.owed
  returned : s.pc = .returned → s.job.status = .done →
    Tally job.sent s.found.length 0 s.job.sent s.refused s.found s.accepted []

variable {job : TransferJob} {s s' : Restoration}

theorem Counted.of_transfer {t : Transfer} (ht : s.pc.transfer = some t) (hid : s.job.id = job.id)
    (htid : t.jobId = job.id) (hpage : s.pc.between = false → ∀ n, s.pc.pageCount = some n → 0 < n)
    (htally : ∀ n, s.pc.pageCount = some n →
      Tally job.sent t.sent n s.job.sent s.refused s.found s.accepted s.pc.owed) :
    Counted job s where
  jobId := hid
  transfer := by
    intro t' ht'
    rw [ht] at ht'
    exact Option.some.inj ht' ▸ htid
  inside := by
    intro hnone
    rw [ht] at hnone
    cases hnone
  page := hpage
  tally := by
    intro t' n ht' hn
    rw [ht] at ht'
    exact Option.some.inj ht' ▸ htally n hn
  returned := by
    intro hpc
    rw [hpc] at ht
    cases ht

/-- An exception is on its way. -/
theorem Counted.of_failing {t : Transfer} (ht : s.pc.transfer = some t) (hid : s.job.id = job.id)
    (htid : t.jobId = job.id) (hfailing : s.pc.pageCount = none) : Counted job s := by
  refine .of_transfer ht hid htid (fun _ n hn => ?_) (fun n hn => ?_)
  · rw [hfailing] at hn
    cases hn
  · rw [hfailing] at hn
    cases hn

theorem onJob_id (job : TransferJob) (call : RestoreCall) : (call.onJob job).id = job.id := by
  cases call with
  | setProgress jobId sent => by_cases h : job.id = jobId <;> simp [RestoreCall.onJob, h]
  | finish jobId status error => by_cases h : job.id = jobId <;> simp [RestoreCall.onJob, h]
  | _ => rfl

/-- A step is an answer to the call. -/
theorem step_eq_some {reply : RestoreReply} (hs : s.step reply = some s') :
    ∃ call pc, s.pc.call = some call ∧ s.pc.resume reply = some pc ∧ s' = {
      pc := pc
      job := if reply.applied then call.onJob s.job else s.job
      found := s.found ++ reply.found
      visited := s.visited ++ visits call reply
      accepted := s.accepted ++ accepts call reply
      refused := s.refused + if reply = .append false then 1 else 0 } := by
  unfold step at hs
  split at hs
  · exact ⟨_, _, ‹_›, ‹_›, (Option.some.inj hs).symm⟩
  · cases hs

/-- A step within a page that deposits nothing. -/
theorem Counted.keeps (h : Counted job s) {t : Transfer} (ht : s.pc.transfer = some t)
    (hin : s.pc.between = false) (ht' : s'.pc.transfer = some t)
    (hpage : s'.pc.pageCount = s.pc.pageCount) (howed : s'.pc.owed = s.pc.owed)
    (hjob : s'.job = s.job) (hfound : s'.found = s.found) (haccepted : s'.accepted = s.accepted)
    (hrefused : s'.refused = s.refused) : Counted job s' := by
  refine .of_transfer ht' (hjob ▸ h.jobId) (h.transfer t ht) (fun _ n hn => ?_) (fun n hn => ?_)
  · exact h.page hin n (hpage ▸ hn)
  · rw [hjob, hfound, haccepted, hrefused, howed]
    exact h.tally t n ht (hpage ▸ hn)

/-- A call within a page that writes nothing and hands over nothing. -/
theorem Counted.quiet (h : Counted job s) {t : Transfer} {call : RestoreCall}
    {reply : RestoreReply} {pc : RestorePc} (hwrites : ∀ x, call.onJob x = x)
    (hoffers : call.offers = none) (hfound : reply.found = []) (hrefuses : reply ≠ .append false)
    (ht : s.pc.transfer = some t) (hin : s.pc.between = false) (ht' : pc.transfer = some t)
    (hpage : pc.pageCount = s.pc.pageCount) (howed : pc.owed = s.pc.owed) :
    Counted job {
      pc := pc
      job := if reply.applied then call.onJob s.job else s.job
      found := s.found ++ reply.found
      visited := s.visited ++ visits call reply
      accepted := s.accepted ++ accepts call reply
      refused := s.refused + if reply = .append false then 1 else 0 } := by
  refine h.keeps ht hin ht' hpage howed ?_ ?_ ?_ ?_
  · simp [hwrites]
  · simp [hfound]
  · simp [accepts, hoffers]
  · simp [hrefuses]

/-- A call that hands a mail over, and its answer. -/
theorem Counted.offered (h : Counted job s) {t : Transfer} {call : RestoreCall}
    {reply : RestoreReply} {pc : RestorePc} {raw : Fetched} (hwrites : ∀ x, call.onJob x = x)
    (hoffers : call.offers = some raw) (hfound : reply.found = []) (happlied : reply.applied = true)
    (ht : s.pc.transfer = some t) (hin : s.pc.between = false) (ht' : pc.transfer = some t)
    (hpage : pc.pageCount = s.pc.pageCount) (howed : s.pc.owed = raw.uid :: pc.owed) :
    Counted job {
      pc := pc
      job := if reply.applied then call.onJob s.job else s.job
      found := s.found ++ reply.found
      visited := s.visited ++ visits call reply
      accepted := s.accepted ++ accepts call reply
      refused := s.refused + if reply = .append false then 1 else 0 } := by
  have hjob : (if reply.applied then call.onJob s.job else s.job) = s.job := by simp [hwrites]
  rw [hjob, hfound, List.append_nil]
  refine .of_transfer ht' h.jobId (h.transfer t ht) (fun _ n hn => ?_) (fun n hn => ?_)
  · exact h.page hin n (hpage ▸ hn)
  · have htally := h.tally t n ht (hpage ▸ hn)
    rw [howed] at htally
    by_cases hrefused : reply = .append false
    · have hnone : accepts call reply = [] := by
        simp [accepts, hoffers, RestoreReply.accepts, hrefused]
      rw [hnone, List.append_nil, if_pos hrefused]
      exact htally.refuse
    · have hone : accepts call reply = [raw.uid] := by
        simp [accepts, hoffers, RestoreReply.accepts, happlied, hrefused]
      rw [hone, if_neg hrefused]
      exact htally.accept

/-- A call raises. -/
theorem Counted.raises (h : Counted job s) {error : String} {applied : Bool}
    (hs : s.step (.raises error applied) = some s') : Counted job s' := by
  obtain ⟨call, pc, hcall, hresume, rfl⟩ := step_eq_some hs
  obtain ⟨pc₀, j, found, visited, accepted, refused⟩ := s
  have hjob : ∀ x : TransferJob, x.id = job.id →
      (if (RestoreReply.raises error applied).applied then call.onJob x else x).id = job.id := by
    intro x hx
    split
    · rw [onJob_id, hx]
    · exact hx
  cases pc₀ with
  | getRestoreImap cmd => exact absurd (h.inside rfl) nofun
  | getSmtp cmd => exact absurd (h.inside rfl) nofun
  | listUsers cmd smtp => exact absurd (h.inside rfl) nofun
  | refuse jobId error' => exact absurd (h.inside rfl) nofun
  | search t => cases hresume; exact .of_failing rfl (hjob _ h.jobId) (h.transfer _ rfl) rfl
  | getEml p r rest => cases hresume; exact .of_failing rfl (hjob _ h.jobId) (h.transfer _ rfl) rfl
  | imapConnect p cfg =>
      cases hresume; exact .of_failing rfl (hjob _ h.jobId) (h.transfer _ rfl) rfl
  | imapLogin p cfg => cases hresume; exact .of_failing rfl (hjob _ h.jobId) (h.transfer _ rfl) rfl
  | imapCreate p cfg =>
      cases hresume
      cases hcall
      exact h.quiet (fun _ => rfl) rfl rfl nofun rfl rfl (RestorePc.transfer_appendNext ..)
        (RestorePc.pageCount_appendNext ..) (RestorePc.owed_appendNext ..)
  | imapAppend p cfg n raw rest =>
      cases hresume; exact .of_failing rfl (hjob _ h.jobId) (h.transfer _ rfl) rfl
  | imapLogout p result =>
      cases hresume
      cases hcall
      cases result with
      | ok n =>
          exact h.quiet (fun _ => rfl) rfl rfl nofun rfl rfl rfl rfl rfl
      | error error' => exact .of_failing rfl (hjob _ h.jobId) (h.transfer _ rfl) rfl
  | sendRaw p cfg recipient raw rest =>
      cases hresume; exact .of_failing rfl (hjob _ h.jobId) (h.transfer _ rfl) rfl
  | setProgress p => cases hresume; exact .of_failing rfl (hjob _ h.jobId) (h.transfer _ rfl) rfl
  | finishDone t => cases hresume; exact .of_failing rfl (hjob _ h.jobId) (h.transfer _ rfl) rfl
  | finishError t error' =>
      cases hresume
      exact ⟨hjob _ h.jobId, nofun, fun _ => rfl, nofun, nofun, nofun⟩
  | returned => cases hresume
  | raised error' => cases hresume

theorem Counted.page_step (h : Counted job s) {data : SearchResult}
    (hs : s.step (.page data) = some s') : Counted job s' := by
  obtain ⟨call, pc, hcall, hresume, rfl⟩ := step_eq_some hs
  obtain ⟨t, hpc, rfl⟩ := RestorePc.resume_page hresume
  obtain ⟨pc₀, j, found, visited, accepted, refused⟩ := s
  obtain rfl : pc₀ = .search t := hpc
  cases hcall
  have htally := h.tally t 0 rfl rfl
  by_cases hempty : data.results = []
  · rw [if_pos hempty]
    refine .of_transfer rfl h.jobId (h.transfer t rfl) nofun fun n hn => ?_
    cases hn
    simpa [accepts, RestoreCall.offers, RestoreCall.onJob, RestoreReply.found, hempty,
      RestorePc.owed] using htally
  · rw [if_neg hempty]
    refine .of_transfer (RestorePc.transfer_getNext ..) h.jobId (h.transfer t rfl)
      (fun _ n hn => ?_) (fun n hn => ?_)
    · rw [RestorePc.pageCount_getNext, Option.some.injEq] at hn
      have := List.length_pos_iff.mpr hempty
      omega
    · rw [RestorePc.pageCount_getNext, Option.some.injEq] at hn
      subst hn
      obtain ⟨hlength, hprogress, hanswered, hwhole⟩ := htally
      simp only [RestorePc.owed, List.length_nil, Nat.add_zero, List.append_nil]
        at hlength hanswered hwhole
      refine ⟨?_, by simpa [RestoreCall.onJob, RestoreReply.applied] using hprogress, ?_,
        fun hr => ?_⟩
      · simp [RestoreReply.found, hlength]
      · simp [RestoreReply.found, accepts, RestoreCall.offers]
        omega
      · simp at hr
        simp [RestoreReply.found, accepts, RestoreCall.offers, hwhole hr]

theorem Counted.eml_step (h : Counted job s) {raw : Bytes} (hs : s.step (.eml raw) = some s') :
    Counted job s' := by
  obtain ⟨call, pc, hcall, hresume, rfl⟩ := step_eq_some hs
  obtain ⟨p, r, rest, hpc, rfl⟩ := RestorePc.resume_eml hresume
  obtain ⟨pc₀, j, found, visited, accepted, refused⟩ := s
  obtain rfl : pc₀ = .getEml p r rest := hpc
  cases hcall
  refine h.quiet (fun _ => rfl) rfl rfl nofun rfl rfl (RestorePc.transfer_getNext ..) ?_ ?_
  · rw [RestorePc.pageCount_getNext, List.length_append, List.length_singleton, Nat.add_assoc,
      Nat.add_comm 1]
    rfl
  · rw [RestorePc.owed_getNext]
    simp [RestorePc.owed]

theorem Counted.append_step (h : Counted job s) {answer : Bool}
    (hs : s.step (.append answer) = some s') : Counted job s' := by
  obtain ⟨call, pc, hcall, hresume, rfl⟩ := step_eq_some hs
  obtain ⟨p, cfg, n, raw, rest, hpc, rfl⟩ := RestorePc.resume_append hresume
  obtain ⟨pc₀, j, found, visited, accepted, refused⟩ := s
  obtain rfl : pc₀ = .imapAppend p cfg n raw rest := hpc
  cases hcall
  refine h.offered (fun _ => rfl) rfl rfl rfl rfl rfl (RestorePc.transfer_appendNext ..)
    (RestorePc.pageCount_appendNext ..) ?_
  rw [RestorePc.owed_appendNext]
  rfl

/-- The end of a round: the progress is what was found. -/
theorem Counted.nextPage (h : Counted job s) {p : TransferPage} (hpc : s.pc = .setProgress p)
    (hpc' : s'.pc = RestorePc.nextPage p) (hjob : s'.job = { s.job with sent := p.sent })
    (hfound : s'.found = s.found) (haccepted : s'.accepted = s.accepted)
    (hrefused : s'.refused = s.refused) : Counted job s' := by
  have htransfer : s.pc.transfer = some p.transfer := by rw [hpc]; rfl
  have hpos : 0 < p.raws.length := h.page (by rw [hpc]; rfl) _ (by rw [hpc]; rfl)
  obtain ⟨hlength, -, hanswered, hwhole⟩ := h.tally _ p.raws.length htransfer (by rw [hpc]; rfl)
  have howed : s.pc.owed = [] := by rw [hpc]; rfl
  have htally : Tally job.sent p.sent 0 p.sent s.refused s.found s.accepted [] := by
    refine ⟨hlength, ?_, by simpa [howed] using hanswered, by simpa [howed] using hwhole⟩
    rw [if_neg (by rw [TransferPage.sent]; omega)]
  have hid : s'.job.id = job.id := by rw [hjob]; exact h.jobId
  have htid : p.next.jobId = job.id := h.transfer p.transfer htransfer
  rcases RestorePc.nextPage_cases p with hnext | hnext
  · rw [hnext] at hpc'
    refine .of_transfer (t := p.next) (by rw [hpc']; rfl) hid htid (by rw [hpc']; nofun) ?_
    rw [hpc', hjob, hfound, haccepted, hrefused]
    rintro n ⟨⟩
    exact htally
  · rw [hnext] at hpc'
    refine .of_transfer (t := p.next) (by rw [hpc']; rfl) hid htid (by rw [hpc']; nofun) ?_
    rw [hpc', hjob, hfound, haccepted, hrefused]
    rintro n ⟨⟩
    exact htally

/-- A call returns that answers nothing. -/
theorem Counted.done_step (h : Counted job s) (hs : s.step .done = some s') : Counted job s' := by
  obtain ⟨call, pc, hcall, hresume, rfl⟩ := step_eq_some hs
  obtain ⟨pc₀, j, found, visited, accepted, refused⟩ := s
  have hjobId : j.id = job.id := h.jobId
  cases pc₀ with
  | refuse jobId error => exact absurd (h.inside rfl) nofun
  | imapConnect p cfg =>
      cases hresume
      cases hcall
      exact h.quiet (fun _ => rfl) rfl rfl nofun rfl rfl rfl rfl rfl
  | imapLogin p cfg =>
      cases hresume
      cases hcall
      exact h.quiet (fun _ => rfl) rfl rfl nofun rfl rfl rfl rfl rfl
  | imapCreate p cfg =>
      cases hresume
      cases hcall
      exact h.quiet (fun _ => rfl) rfl rfl nofun rfl rfl (RestorePc.transfer_appendNext ..)
        (RestorePc.pageCount_appendNext ..) (RestorePc.owed_appendNext ..)
  | imapLogout p result =>
      cases hresume
      cases hcall
      cases result with
      | ok n =>
          exact h.quiet (fun _ => rfl) rfl rfl nofun rfl rfl rfl rfl rfl
      | error error =>
          exact .of_failing rfl (by simpa [RestoreCall.onJob] using hjobId) (h.transfer _ rfl) rfl
  | sendRaw p cfg recipient raw rest =>
      cases hresume
      cases hcall
      refine h.offered (fun _ => rfl) rfl rfl rfl rfl rfl (RestorePc.transfer_sendNext ..)
        (RestorePc.pageCount_sendNext ..) ?_
      rw [RestorePc.owed_sendNext]
      rfl
  | setProgress p =>
      cases hresume
      cases hcall
      have htid : p.transfer.jobId = job.id := h.transfer _ rfl
      refine h.nextPage rfl rfl ?_ (by simp [RestoreReply.found])
        (by simp [accepts, RestoreCall.offers]) rfl
      simp [RestoreCall.onJob, RestoreReply.applied, hjobId, htid]
  | finishDone t =>
      cases hresume
      cases hcall
      have htid : t.jobId = job.id := h.transfer _ rfl
      -- nothing is owed any more: the counts of the job are those of the answers
      obtain ⟨hlength, hprogress, hanswered, hwhole⟩ := h.tally _ 0 rfl rfl
      have hjob : RestoreCall.onJob j (.finish t.jobId .done none)
          = { j with status := .done, error := none } := by
        simp [RestoreCall.onJob, hjobId, htid]
      refine ⟨?_, nofun, fun _ => rfl, nofun, nofun, fun _ _ => ?_⟩
      · simpa [hjob, RestoreReply.applied] using hjobId
      · simp only [RestorePc.owed] at hanswered hwhole
        refine ⟨rfl, ?_, by simpa [accepts, RestoreCall.offers, RestoreReply.found] using hanswered,
          by simpa [accepts, RestoreCall.offers, RestoreReply.found] using hwhole⟩
        simpa [hjob, RestoreReply.applied, RestoreReply.found, hlength] using hprogress
  | finishError t error =>
      cases hresume
      cases hcall
      have htid : t.jobId = job.id := h.transfer _ rfl
      refine ⟨?_, nofun, fun _ => rfl, nofun, nofun, fun _ hdone => ?_⟩
      · simpa [RestoreReply.applied, onJob_id] using hjobId
      · -- the job has ended in error
        simp [RestoreReply.applied, RestoreCall.onJob, hjobId, htid] at hdone
  | _ => cases hresume

/-- The answers of the lookups come before the transfer. -/
theorem Counted.no_lookup (h : Counted job s) {reply : RestoreReply}
    (hreply : (∃ cfg, reply = .restoreImap cfg) ∨ (∃ cfg, reply = .smtp cfg)
      ∨ ∃ rows, reply = .users rows) : s.step reply = none := by
  obtain ⟨pc, j, found, visited, accepted, refused⟩ := s
  cases pc with
  | getRestoreImap cmd => exact absurd (h.inside rfl) nofun
  | getSmtp cmd => exact absurd (h.inside rfl) nofun
  | listUsers cmd smtp => exact absurd (h.inside rfl) nofun
  | _ => rcases hreply with ⟨cfg, rfl⟩ | ⟨cfg, rfl⟩ | ⟨rows, rfl⟩ <;> rfl

theorem Counted.step (h : Counted job s) {reply : RestoreReply} (hs : s.step reply = some s') :
    Counted job s' := by
  cases reply with
  | raises error applied => exact h.raises hs
  | page data => exact h.page_step hs
  | eml raw => exact h.eml_step hs
  | append accepted => exact h.append_step hs
  | done => exact h.done_step hs
  | restoreImap cfg => rw [h.no_lookup (.inl ⟨cfg, rfl⟩)] at hs; cases hs
  | smtp cfg => rw [h.no_lookup (.inr (.inl ⟨cfg, rfl⟩))] at hs; cases hs
  | users rows => rw [h.no_lookup (.inr (.inr ⟨rows, rfl⟩))] at hs; cases hs

theorem counted_start (job : TransferJob) (restrict : List String) (dest : Destination) :
    Counted job (start job restrict dest) := by
  refine .of_transfer rfl rfl rfl nofun fun n hn => ?_
  cases hn
  exact ⟨rfl, rfl, rfl, fun _ => rfl⟩

/-- The mails found are those of the pages, and the refusals the `NO`
answers. -/
theorem run_found {replies : List RestoreReply} (hrun : run step s replies = some s') :
    s'.found = s.found ++ replies.flatMap RestoreReply.found
      ∧ s'.refused = s.refused + replies.count (.append false) := by
  induction replies generalizing s with
  | nil => simp [← Option.some.inj hrun]
  | cons reply replies ih =>
      obtain ⟨s₁, hs₁, hrun₁⟩ := run_cons_eq_some.mp hrun
      obtain ⟨hfound, hrefused⟩ := ih hrun₁
      obtain ⟨call, pc, -, -, rfl⟩ := step_eq_some hs₁
      rw [hfound, hrefused, List.flatMap_cons, List.append_assoc, List.count_cons]
      refine ⟨rfl, ?_⟩
      by_cases hreply : reply = .append false
      · simp [hreply]
        omega
      · simp [hreply]

/-- **A restoration reported as done restored everything exactly when no
`APPEND` was answered `NO`** and its counter was not left over from an
earlier execution: for every perimeter, destination and sequence of
answers after which `_run_perimeter_transfer` has marked its job done,
every mail returned by the search was accepted and the counter is the
number of those, iff no deposit was refused without an exception and the
counter was zero or a page had results. -/
theorem restore_done_iff {restrict : List String} {dest : Destination}
    {replies : List RestoreReply} (hrun : run step (start job restrict dest) replies = some s)
    (hreturned : s.pc = .returned) (hdone : s.job.status = .done) :
    ((∀ id ∈ s.found, id ∈ s.accepted) ∧ s.job.sent = s.accepted.length) ↔
      .append false ∉ replies
        ∧ (job.sent = 0 ∨ ∃ data, .page data ∈ replies ∧ data.results ≠ []) := by
  have hcounted : Counted job s :=
    run_invariant (fun _ _ _ h hs => h.step hs) hrun (counted_start job restrict dest)
  obtain ⟨-, hprogress, hanswered, hwhole⟩ := hcounted.returned hreturned hdone
  obtain ⟨hfound, hrefused⟩ := run_found hrun
  have hnone : s.refused = 0 ↔ .append false ∉ replies := by
    rw [hrefused, ← List.count_eq_zero]
    simp [start]
  have hsome : s.found ≠ [] ↔ ∃ data, .page data ∈ replies ∧ data.results ≠ [] := by
    rw [hfound]
    simp only [start, List.nil_append, ne_eq, List.flatMap_eq_nil_iff, not_forall]
    constructor
    · rintro ⟨reply, hmem, hne⟩
      cases reply with
      | page data => exact ⟨data, hmem, by simpa [RestoreReply.found] using hne⟩
      | _ => exact absurd rfl hne
    · rintro ⟨data, hmem, hne⟩
      exact ⟨_, hmem, by simpa [RestoreReply.found] using hne⟩
  rw [← hnone, ← hsome]
  have hzero : s.found.length = 0 ↔ s.found = [] := List.length_eq_zero_iff
  constructor
  · rintro ⟨-, hsent⟩
    rw [hprogress] at hsent
    simp only [List.length_nil, Nat.add_zero] at hanswered
    by_cases hempty : s.found = []
    · rw [if_pos (hzero.mpr hempty)] at hsent
      rw [hzero.mpr hempty] at hanswered
      exact ⟨by omega, .inl (by omega)⟩
    · rw [if_neg fun h => hempty (hzero.mp h)] at hsent
      exact ⟨by omega, .inr hempty⟩
  · rintro ⟨hrefused, hsent⟩
    have hall := hwhole hrefused
    rw [List.append_nil] at hall
    refine ⟨fun id hid => hall ▸ hid, ?_⟩
    rw [hprogress, ← hall]
    rcases hsent with hsent | hne
    · split <;> omega
    · rw [if_neg]
      rw [hall, hzero]
      exact hne

/-! ### Two mails for an IMAP folder -/

def sampleRow (id : Nat) : ResultRow := (sampleHit id "bob@x.fr").resultRow

/-- A page of two, the last one. -/
def pageOfTwo : SearchResult where
  total := 2
  totalEstimated := false
  results := [sampleRow 2, sampleRow 1]
  nextSearchAfter := some [.int 0, .int 1]

def bobMailbox : Destination :=
  .imap ⟨"imap.x.fr", 0, "bob", "secret", true, ""⟩

def bobJob : TransferJob where
  id := 7
  auditorUsername := "bob"
  recipient := "IMAP imap.x.fr/INBOX"
  total := 2
  sent := 0
  status := .running
  error := none

/-- The answers to the restoration, with those of the two `APPEND`s. -/
def answersOf (first second : Bool) : List RestoreReply :=
  [.page pageOfTwo, .eml [50], .eml [49], .done, .done, .done, .append first, .append second,
    .done, .done, .done]

/-- A full mailbox refuses the second mail; the job is done, with two mails
sent. -/
theorem restore_done_misses_mail :
    (run step (start bobJob ["bob@x.fr"] bobMailbox) (answersOf true false)).map (fun s =>
      (decide (s.pc = .returned), s.job.status, s.job.sent, s.found, s.accepted))
      = some (true, .done, 2, [2, 1], [2]) := by
  decide +kernel

/-- Both are accepted. -/
theorem restore_done_plain : ∃ s,
    run step (start bobJob ["bob@x.fr"] bobMailbox) (answersOf true true) = some s
      ∧ s.job.status = .done ∧ (∀ id ∈ s.found, id ∈ s.accepted)
      ∧ s.job.sent = s.accepted.length := by
  have hend : ∃ s, run step (start bobJob ["bob@x.fr"] bobMailbox) (answersOf true true) = some s
      ∧ s.pc = .returned ∧ s.job.status = .done := ⟨_, rfl, rfl, by decide +kernel⟩
  obtain ⟨s, hrun, hreturned, hdone⟩ := hend
  exact ⟨s, hrun, hdone, (restore_done_iff hrun hreturned hdone).mpr
    ⟨by decide +kernel, .inl rfl⟩⟩

end Restoration
end MailArchiver

import MailArchiver.Api.Admins
import MailArchiver.Api.Restore

/-!
# Api — PerimeterTransfer

`POST /users/{user_id}/transfer-perimeter` of `api/main.py`, from one
external call to the next: the checks on the account, the destination, the
size of the perimeter, then the row of the job, its command in the queue
and the audit entry.
-/

namespace MailArchiver

/-- What a request has settled before it creates the job. -/
structure TransferPlan where
  userId : Nat
  username : String
  recipient : String
  method : String
  restrict : List String
  deriving DecidableEq, Repr

/-- The command of the job. -/
def TransferPlan.command (plan : TransferPlan) (jobId : Nat) : RestoreCommand :=
  ⟨jobId, plan.userId, plan.method, plan.restrict⟩

/-- The row of the job: `TransferJobRepo.create`. -/
def TransferPlan.job (plan : TransferPlan) (total jobId : Nat) : TransferJob where
  id := jobId
  auditorUsername := plan.username
  recipient := plan.recipient
  total := total
  sent := 0
  status := .running
  error := none

/-- Where a request waits for an answer. -/
inductive TransferPc where
  | listUsers (userId : Nat) (method : String)
  | getRestoreImap (method : String) (target : User) (email : String) (restrict : List String)
  | getSmtp (target : User) (email : String) (restrict : List String)
  | search (plan : TransferPlan)
  | create (plan : TransferPlan) (total : Nat)
  | publish (plan : TransferPlan) (jobId : Nat)
  | audit (jobId : Nat)
  | answered (answer : HttpAnswer)
  /-- An exception that is not caught. -/
  | failed (error : String)
  deriving DecidableEq, Repr

namespace TransferPc

variable (lower : String → String)

/-- The perimeter to restore: an auditor's audited addresses, a user's
own. -/
def perimeterOf (target : User) (email : String) : List String :=
  if target.role = "auditor" then target.auditedEmails.map lower else [lower email]

/-- The checks on the account. -/
def checked (userId : Nat) (method : String) (users : List User) : TransferPc :=
  match users.find? (·.id = userId) with
  | none => answered (.error 404 "utilisateur introuvable")
  | some target =>
      if target.role ≠ "auditor" ∧ target.role ≠ "user" then
        answered (.error 400 "la restauration n'est pas disponible pour ce type de compte")
      else
        match target.email.filter (· ≠ "") with
        | none => answered (.error 400 "le compte n'a pas d'adresse e-mail")
        | some email =>
            if perimeterOf lower target email = [] then answered (.error 400 "périmètre vide")
            else getRestoreImap method target email (perimeterOf lower target email)

/-- The choice of the destination. -/
def destined (method : String) (target : User) (email : String) (restrict : List String) :
    Option RestoreImap → TransferPc
  | some cfg =>
      if method = "imap" ∨ method = "auto" then
        search ⟨target.id, target.username, "IMAP " ++ cfg.host ++ "/" ++ cfg.folder, "imap",
          restrict⟩
      else getSmtp target email restrict
  | none =>
      if method = "imap" then
        answered (.error 400 "aucune destination IMAP configurée sur ce compte")
      else getSmtp target email restrict

/-- Where an answer takes the request; `created` is the id of a row that
was inserted. -/
def resume (created : Nat) (pc : TransferPc) (reply : RestoreReply) : Option TransferPc :=
  match pc, reply with
  | answered _, _ => none
  | failed _, _ => none
  | _, .raises error _ => some (failed error)
  | listUsers userId method, .users rows => some (checked lower userId method rows)
  | getRestoreImap method target email restrict, .restoreImap cfg =>
      some (destined method target email restrict cfg)
  | getSmtp .., .smtp none =>
      some (answered (.error 400 "relais SMTP non configuré (voir Paramètres)"))
  | getSmtp target email restrict, .smtp (some _) =>
      some (search ⟨target.id, target.username, email, "smtp", restrict⟩)
  | search plan, .page data => some (create plan data.total)
  | create plan _, .done => some (publish plan created)
  | publish _ jobId, .done => some (audit jobId)
  | audit _, .done => some (answered .ok)
  | _, _ => none

/-- The request has created the job, and not published its command. -/
def owes (jobId : Nat) : TransferPc → Bool
  | publish _ id => id = jobId
  | _ => false

/-- Between the two. -/
def publishing : TransferPc → Bool
  | publish .. => true
  | _ => false

end TransferPc
end MailArchiver

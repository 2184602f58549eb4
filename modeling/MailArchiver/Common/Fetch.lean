import MailArchiver.Common.Bytes
import MailArchiver.Lib.Faults

/-!
# Common — Fetch

`mailarchiver_common/fetch.py`: collecting mails from an IMAP or a POP3
account and publishing them. Both collectors mark or delete at the source
inside their own loop; `run_and_publish` publishes in a second loop, once
the first has ended.

A message of the source that is no longer there as it was has been
touched by the run. IMAP's `FETCH (RFC822)` sets `\Seen` by itself, and
`EXPUNGE` removes every message flagged `\Deleted`, whoever flagged it.
-/

namespace MailArchiver

open Faults

/-- A mail handed over by a source: which message it was, and its bytes. -/
structure Fetched where
  uid : Nat
  raw : Bytes
  deriving DecidableEq, Repr

/-! ## IMAP -/

/-- A message of the selected folder. -/
structure ImapMessage where
  uid : Nat
  /-- What `FETCH (RFC822)` answers; nothing once another client has
  expunged the message. -/
  body : Option Bytes
  seen : Bool
  deleted : Bool
  deriving DecidableEq, Repr

/-- The commands of `fetch_imap` after the connection. -/
inductive ImapCommand where
  | login
  | select
  | search
  | fetch (m : ImapMessage)
  | store (m : ImapMessage) (deleteAfter : Bool)
  | expunge
  deriving DecidableEq, Repr

/-- What a command does to the folder. -/
def ImapCommand.effect : ImapCommand → List ImapMessage → List ImapMessage
  | .login, box => box
  | .select, box => box
  | .search, box => box
  | .fetch m, box =>
      if m.body = none then box
      else box.map fun x => if x.uid = m.uid then { x with seen := true } else x
  | .store m deleteAfter, box =>
      box.map fun x =>
        if x.uid = m.uid then
          if deleteAfter then { x with deleted := true } else { x with seen := true }
        else x
  | .expunge, box => box.filter fun x => !x.deleted

/-- `search(None, "UNSEEN")`. -/
def unseen (box : List ImapMessage) : List ImapMessage := box.filter fun m => !m.seen

/-- The loop of `fetch_imap` over the ids found. -/
def imapLoop (deleteAfter : Bool) :
    List ImapMessage → List Fetched → Client (List ImapMessage) (List Fetched)
  | [], msgs, x => .ok (msgs, x)
  | m :: ids, msgs, x => do
      let ((), x) ← command (ImapCommand.fetch m).effect x
      match m.body with
      | none => imapLoop deleteAfter ids msgs x
      | some raw => do
          let ((), x) ← command (ImapCommand.store m deleteAfter).effect x
          imapLoop deleteAfter ids (msgs ++ [⟨m.uid, raw⟩]) x

/-- The `try` block of `fetch_imap`. -/
def imapBody (deleteAfter : Bool) : Client (List ImapMessage) (List Fetched) := fun x => do
  let ((), x) ← command ImapCommand.login.effect x
  let ((), x) ← command ImapCommand.select.effect x
  let ((), x) ← command ImapCommand.search.effect x
  let (msgs, x) ← imapLoop deleteAfter (unseen x.1) [] x
  if deleteAfter then do
    let ((), x) ← command ImapCommand.expunge.effect x
    return (msgs, x)
  else return (msgs, x)

/-- The outcomes of a run: of the connection, the commands, the logout or
quit, and the publications. -/
structure Schedule where
  connect : Outcome
  session : List Outcome
  cleanup : Outcome
  publish : List Outcome
  deriving DecidableEq, Repr

/-- `fetch_imap`; `logout` leaves the folder as it is. -/
def fetchImap (deleteAfter : Bool) (plan : Schedule) (box : List ImapMessage) :
    Except Stop (List Fetched) × List ImapMessage :=
  match plan.connect.stop with
  | some stop => (.error stop, box)
  | none => withCleanup (imapBody deleteAfter) (fun b => b) plan.cleanup box plan.session

/-! ## POP3 -/

/-- A message of the maildrop, by the lines `RETR` answers. -/
structure PopMessage where
  uid : Nat
  lines : List Bytes
  deriving DecidableEq, Repr

/-- The maildrop of a session and the messages marked for deletion. -/
structure PopSession where
  maildrop : List PopMessage
  marked : List PopMessage
  deriving DecidableEq, Repr

/-- The commands of `fetch_pop3` after the connection. -/
inductive PopCommand where
  | user
  | pass
  | list
  | retr (m : PopMessage)
  | dele (m : PopMessage)
  deriving DecidableEq, Repr

def PopCommand.effect : PopCommand → PopSession → PopSession
  | .dele m, s => { s with marked := s.marked ++ [m] }
  | _, s => s

/-- `QUIT`: the marked messages are removed. -/
def PopSession.quit (s : PopSession) : PopSession :=
  { maildrop := s.maildrop.filter (· ∉ s.marked), marked := [] }

/-- `b"\r\n".join(lines)`. -/
def PopMessage.raw (m : PopMessage) : Bytes := [13, 10].intercalate m.lines

/-- The loop of `fetch_pop3`. -/
def popLoop (deleteAfter : Bool) :
    List PopMessage → List Fetched → Client PopSession (List Fetched)
  | [], msgs, x => .ok (msgs, x)
  | m :: rest, msgs, x => do
      let ((), x) ← command (PopCommand.retr m).effect x
      let msgs := msgs ++ [⟨m.uid, m.raw⟩]
      if deleteAfter then do
        let ((), x) ← command (PopCommand.dele m).effect x
        popLoop deleteAfter rest msgs x
      else popLoop deleteAfter rest msgs x

/-- The `try` block of `fetch_pop3`. -/
def popBody (deleteAfter : Bool) : Client PopSession (List Fetched) := fun x => do
  let ((), x) ← command PopCommand.user.effect x
  let ((), x) ← command PopCommand.pass.effect x
  let ((), x) ← command PopCommand.list.effect x
  popLoop deleteAfter x.1.maildrop [] x

/-- `fetch_pop3`; a session that ends without its `QUIT` forgets its marks. -/
def fetchPop3 (deleteAfter : Bool) (plan : Schedule) (maildrop : List PopMessage) :
    Except Stop (List Fetched) × List PopMessage :=
  match plan.connect.stop with
  | some stop => (.error stop, maildrop)
  | none =>
      let (res, s) := withCleanup (popBody deleteAfter) PopSession.quit plan.cleanup
        ⟨maildrop, []⟩ plan.session
      (res, s.maildrop)

/-! ## `run_and_publish` -/

/-- A source to collect, by its protocol, and what its server holds. -/
inductive Source where
  | imap (box : List ImapMessage)
  | pop3 (maildrop : List PopMessage)
  | unsupported (protocol : String)

inductive FetchError where
  | stopped (stop : Stop)
  | raised (e : PyError)
  deriving DecidableEq, Repr

/-- `fetch_source`: the mails, and the source as the run leaves it. -/
def fetchSource (deleteAfter : Bool) (plan : Schedule) :
    Source → Except FetchError (List Fetched) × Source
  | .imap box =>
      let (res, box) := fetchImap deleteAfter plan box
      (res.mapError .stopped, .imap box)
  | .pop3 maildrop =>
      let (res, maildrop) := fetchPop3 deleteAfter plan maildrop
      (res.mapError .stopped, .pop3 maildrop)
  | .unsupported protocol =>
      (.error (.raised (.valueError ("protocole non supporté : " ++ protocol))),
        .unsupported protocol)

/-- The effect of `publish_raw_mail(channel, raw)` on the queue. -/
def publishRaw (m : Fetched) (queue : List Fetched) : List Fetched := queue ++ [m]

/-- How a collection ends: the number of mails, the source, the queue. -/
structure Collection where
  count : Except FetchError Nat
  source : Source
  published : List Fetched

/-- `run_and_publish`. -/
def runAndPublish (deleteAfter : Bool) (plan : Schedule) (src : Source) : Collection :=
  match fetchSource deleteAfter plan src with
  | (.error e, src) => ⟨.error e, src, []⟩
  | (.ok msgs, src) =>
      match script (msgs.map publishRaw) ([], plan.publish) with
      | .error (stop, queue) => ⟨.error (.stopped stop), src, queue⟩
      | .ok ((), queue, _) => ⟨.ok msgs.length, src, queue⟩

end MailArchiver

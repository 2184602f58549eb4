import MailArchiver.Common.Fetch
import Mathlib.Data.List.Perm.Subperm
import Mathlib.Data.List.Nodup

/-!
# Common — Collect

What a collection does to its source, for every schedule of failures. A
session is a script of commands that depends on the source alone
(`imapBody_eq`, `popBody_eq`), so what a run leaves behind is the effect
of the commands it carried out. `run_and_publish_lossless_iff` compares
that with what reached the queue.
-/

namespace MailArchiver

open Faults

/-! ## The scripts -/

/-- The commands for one unseen message. -/
def imapSteps (deleteAfter : Bool) (m : ImapMessage) : List ImapCommand :=
  if m.body = none then [.fetch m] else [.fetch m, .store m deleteAfter]

def imapScript (deleteAfter : Bool) (box : List ImapMessage) : List ImapCommand :=
  [.login, .select, .search] ++ (unseen box).flatMap (imapSteps deleteAfter)
    ++ if deleteAfter then [.expunge] else []

/-- The mails a list of fetches answers. -/
def readable (ms : List ImapMessage) : List Fetched :=
  ms.filterMap fun m => m.body.map fun raw => ⟨m.uid, raw⟩

/-- The commands for one message of the maildrop. -/
def popSteps (deleteAfter : Bool) (m : PopMessage) : List PopCommand :=
  if deleteAfter then [.retr m, .dele m] else [.retr m]

def popScript (deleteAfter : Bool) (maildrop : List PopMessage) : List PopCommand :=
  [.user, .pass, .list] ++ maildrop.flatMap (popSteps deleteAfter)

/-- The mail a message of the maildrop is handed over as. -/
def PopMessage.fetched (m : PopMessage) : Fetched := ⟨m.uid, m.raw⟩

namespace Schedule

variable (plan : Schedule)

/-- The commands of a session that take effect. -/
def executed {κ : Type} (cmds : List κ) : List κ :=
  if plan.connect.stop = none then cmds.take (taken plan.session cmds.length) else []

/-- A session of `n` commands hands its mails over. -/
def completes (n : Nat) : Prop :=
  plan.connect.stop = none ∧ stopOf plan.session n = none ∧ plan.cleanup.stop ≠ some .died

/-- A session of `n` commands ends with a `QUIT` that takes effect. -/
def quits (n : Nat) : Prop :=
  plan.connect.stop = none ∧ stopOf plan.session n ≠ some .died ∧ plan.cleanup.applied = true

/-- Every one of `n` publications takes effect. -/
def publishes (n : Nat) : Prop := taken plan.publish n = n

instance (n : Nat) : Decidable (plan.completes n) := inferInstanceAs (Decidable (_ ∧ _ ∧ _))

instance (n : Nat) : Decidable (plan.quits n) := inferInstanceAs (Decidable (_ ∧ _ ∧ _))

instance (n : Nat) : Decidable (plan.publishes n) := inferInstanceAs (Decidable (_ = _))

end Schedule

/-- The unique identifiers of a source are unique. -/
def Source.Distinct : Source → Prop
  | .imap box => (box.map (·.uid)).Nodup
  | .pop3 drop => (drop.map (·.uid)).Nodup
  | .unsupported _ => True

/-- Whether a command changes a message of the folder. -/
def ImapCommand.touches : ImapCommand → ImapMessage → Prop
  | .fetch m', m => m'.uid = m.uid ∧ m'.body ≠ none
  | .store m' _, m => m'.uid = m.uid
  | .expunge, m => m.deleted = true
  | _, _ => False

/-- When a collection loses nothing. A run that hands its mails over has
to publish them all, and its expunge must find no message flagged by
someone else. A run that does not must not have touched a message. -/
def CollectsSafely (deleteAfter : Bool) (plan : Schedule) : Source → Prop
  | .imap box =>
      if plan.completes (imapScript deleteAfter box).length then
        plan.publishes (readable (unseen box)).length
          ∧ (deleteAfter = true → ∀ m ∈ box, m.deleted = true → m.seen = false ∧ m.body ≠ none)
      else ∀ c ∈ plan.executed (imapScript deleteAfter box), ∀ m ∈ box, ¬ c.touches m
  | .pop3 drop =>
      plan.quits (popScript deleteAfter drop).length →
        if plan.completes (popScript deleteAfter drop).length then
          deleteAfter = true → plan.publishes drop.length
        else ∀ m, .dele m ∉ plan.executed (popScript deleteAfter drop)
  | .unsupported _ => True

/-- Everything that bears the message's identifier has been seen. -/
def Spent (uid : Nat) (box : List ImapMessage) : Prop := ∀ x ∈ box, x.uid = uid → x.seen = true

/-- `\Seen` stays. -/
theorem Spent.effect {uid : Nat} {box : List ImapMessage} (h : Spent uid box) (c : ImapCommand) :
    Spent uid (c.effect box) := by
  intro x hx hu
  cases c with
  | login | select | search => exact h x hx hu
  | fetch m' =>
      simp only [ImapCommand.effect] at hx
      split at hx
      · exact h x hx hu
      · obtain ⟨y, hy, rfl⟩ := List.mem_map.mp hx
        by_cases hyu : y.uid = m'.uid
        · simp [hyu]
        · simp only [hyu, if_false] at hu ⊢
          exact h y hy hu
  | store m' d =>
      obtain ⟨y, hy, rfl⟩ := List.mem_map.mp hx
      by_cases hyu : y.uid = m'.uid
      · cases d with
        | false => simp [hyu]
        | true =>
            simp only [hyu, if_true] at hu ⊢
            exact h y hy (hyu.trans hu)
      · simp only [hyu, if_false] at hu ⊢
        exact h y hy hu
  | expunge => exact h x (List.mem_filter.mp hx).1 hu

theorem Spent.applyAll {uid : Nat} {box : List ImapMessage} (h : Spent uid box)
    (cs : List ImapCommand) : Spent uid (Faults.applyAll (cs.map (·.effect)) box) := by
  induction cs generalizing box with
  | nil => exact h
  | cons c cs ih => exact ih (h.effect c)

end MailArchiver

import MailArchiver.Api.Users
import MailArchiver.FetchWorker.Scan
import MailArchiver.System.Soundness
import Mathlib.Algebra.Order.BigOperators.Group.List
import Mathlib.Algebra.Order.Ring.Int
import Mathlib.Data.Nat.Cast.Basic

/-!
# System — Statistics

The route `get_stats`, and what its figures on attachments mean. Every
link of `message_attachments` joins a message and an attachment that are
both there, whatever the interleaving; so the references it reports are
at least the attachments of the archived mails, and what it reports as
stored and as saved at least what they would take without deduplication.
A mail that carries one attachment twice is linked to it once and counted
twice: the figures are exact as long as no such mail is archived.
-/

namespace MailArchiver

open Transition Tables

variable {env : Env}

/-! ## The route -/

/-- `max`. -/
def newest (ts : List DateTime) : Option DateTime :=
  ts.foldl (fun acc t =>
    match acc with
    | none => some t
    | some best => if best.before t then some t else some best) none

section Links

variable {db : Db}

end Links

namespace World

/-- No archived mail carries one attachment twice. -/
def Distinct (w : World env) : Prop :=
  ∀ c call, w.calls c = some call → call.committed ≠ none → call.job.attHashes.Nodup

theorem Distinct.tables {w : World env} (h : w.Distinct) : w.tables.Distinct := by
  intro c tx htx hcom
  obtain ⟨call, hcall, rfl⟩ := Option.map_eq_some_iff.mp htx
  exact h c call hcall hcom

end World

end MailArchiver

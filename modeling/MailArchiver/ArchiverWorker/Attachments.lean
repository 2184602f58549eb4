import MailArchiver.ArchiverWorker.Coverage
import Mathlib.Data.List.Forall2

/-!
# ArchiverWorker — Attachments

Which parts of a mail `parse` records, and which texts make its body.
The loop over `msg.walk()` passes over every container before it looks
at the disposition. An attached message is a container, so it is not
recorded, and the walk goes on inside it: its text ends up in the body of
the outer mail.
-/

namespace MailArchiver

/-! ## What the walk owes -/

/-- The parts to be recorded: those of disposition `attachment`, and those
with a file name that are not inline, an attached message among them but
no other container. -/
def Part.owed (p : Part) : Bool :=
  p.contentDisposition = some "attachment"
    || ((!p.isMultipart || p.contentType = "message/rfc822")
      && p.filename.any (· ≠ "") && p.contentDisposition ≠ some "inline")

/-- A message attached to another one. -/
def Part.isAttachedMessage (p : Part) : Bool :=
  p.isMultipart && p.contentType = "message/rfc822" && p.owed

mutual
/-- The walk that does not enter the attached messages. -/
def Part.outerWalk : Part → List Part
  | .leaf i => [.leaf i]
  | .container i ps =>
      .container i ps ::
        if (Part.container i ps).isAttachedMessage then [] else Part.outerWalkAll ps

def Part.outerWalkAll : List Part → List Part
  | [] => []
  | p :: ps => p.outerWalk ++ Part.outerWalkAll ps
end

/-- The leaves outside the attached messages. -/
def Part.outerLeaves (p : Part) : List Part := p.outerWalk.filter (!·.isMultipart)

mutual
theorem Part.outerWalk_eq_walk : (p : Part) → (∀ q ∈ p.walk, q.isAttachedMessage = false) →
    p.outerWalk = p.walk
  | .leaf i, _ => by rw [outerWalk, walk]
  | .container i ps, h => by
      rw [walk] at h ⊢
      obtain ⟨hp, hps⟩ := List.forall_mem_cons.mp h
      rw [outerWalk, hp, Part.outerWalkAll_eq_walkAll ps hps]
      rfl

theorem Part.outerWalkAll_eq_walkAll : (ps : List Part) →
    (∀ q ∈ Part.walkAll ps, q.isAttachedMessage = false) →
    Part.outerWalkAll ps = Part.walkAll ps
  | [], _ => by rw [outerWalkAll, walkAll]
  | p :: ps, h => by
      rw [walkAll, List.forall_mem_append] at h
      rw [outerWalkAll, walkAll, Part.outerWalk_eq_walk p h.1, Part.outerWalkAll_eq_walkAll ps h.2]
end

/-! ## Accounting for the attachments -/

/-- An entry of `attachments` is one of a part. What `content` would be for
an attached message is left open. -/
structure ParsedAttachment.Records (a : ParsedAttachment) (p : Part) : Prop where
  filename : a.filename = attachmentName p
  contentType : a.contentType = p.contentType
  content : p.isMultipart = false → a.content = p.bytes

variable {env : Env}

/-- A job that accounts for the attachments of its mail `msg`: one entry
for each part owed, in order, under the hash its row is looked up by; the
flag and the names of the search document; and a body that leaves the
attached messages aside. -/
structure Job.Accounts (job : Job env) (msg : Part) : Prop where
  recorded : List.Forall₂ ParsedAttachment.Records job.mail.attachments (msg.walk.filter Part.owed)
  hashed : List.Forall₂
    (fun sha p => p.isMultipart = false → sha = contentHash env.prims p.bytes)
    job.attHashes (msg.walk.filter Part.owed)
  hasAttachment : job.indexDoc.hasAttachment = msg.walk.any Part.owed
  attachmentNames :
    job.indexDoc.attachmentNames = (msg.walk.filter Part.owed).map attachmentName
  readable : ∀ p ∈ Part.bodyLeaves false msg.outerLeaves, p.content.isOk = true
  body : job.mail.textBody =
    "\n".intercalate ((Part.bodyLeaves false msg.outerLeaves).map Part.text)

end MailArchiver

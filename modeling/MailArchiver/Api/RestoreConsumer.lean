import MailArchiver.Api.Restore

/-!
# Api — RestoreConsumer

`consume_restore_jobs` of `mailarchiver_common/queue.py` around
`_handle_restore_command`: one message after the other, each in a
`message.process(requeue=True)`. An exception of the handler rejects the
message and is raised again, out of the loop and of its task, which
nothing restarts.
-/

namespace MailArchiver

open Transition

/-- The body of a message: a command, or what reading it raises. -/
inductive RestoreBody where
  | command (cmd : RestoreCommand)
  | unreadable (error : String)
  deriving DecidableEq, Repr

/-- `_handle_restore_command(body)`. -/
def RestoreBody.handle : RestoreBody → RestorePc
  | .command cmd => .handle cmd
  | .unreadable error => .raised error

/-- The task of the consumer. -/
inductive RestoreConsumer where
  | consuming
  | handling (body : RestoreBody) (pc : RestorePc)
  /-- The task is over, with an exception. -/
  | ended
  deriving DecidableEq, Repr

inductive ConsumerEvent where
  | deliver (body : RestoreBody)
  | reply (reply : RestoreReply)
  /-- The handler has returned or raised. -/
  | leave
  deriving DecidableEq, Repr

namespace RestoreConsumer

def step : RestoreConsumer → ConsumerEvent → Option RestoreConsumer
  | consuming, .deliver body => some (handling body body.handle)
  | handling body pc, .reply reply => (pc.resume reply).map (handling body)
  | handling _ .returned, .leave => some consuming
  | handling _ (.raised _), .leave => some ended
  | _, _ => none

end RestoreConsumer

/-! ## Where an answer can take an execution -/

namespace RestorePc

/-- The job an execution is about. -/
def jobId : RestorePc → Option Nat
  | getRestoreImap cmd => some cmd.jobId
  | getSmtp cmd => some cmd.jobId
  | listUsers cmd _ => some cmd.jobId
  | refuse jobId _ => some jobId
  | pc => pc.transfer.map (·.jobId)

/-- Calls outside the `try` of `_run_perimeter_transfer`: the lookups, the
refusal of a job and the recording of an error. -/
def unguarded : RestorePc → Bool
  | getRestoreImap _ => true
  | getSmtp _ => true
  | listUsers .. => true
  | refuse .. => true
  | finishError .. => true
  | _ => false

/-- The execution goes on with its job. -/
def GoesOn (pc pc' : RestorePc) : Prop := pc'.jobId = pc.jobId ∧ pc'.jobId ≠ none

/-- It ends with the end of the job recorded. -/
def Finishes (pc : RestorePc) (reply : RestoreReply) (pc' : RestorePc) : Prop :=
  pc' = returned ∧ reply = .done ∧ ∃ jobId status error, pc.jobId = some jobId
    ∧ pc.call = some (.finish jobId status error) ∧ status ≠ .running

/-- It ends with an exception. -/
def Escapes (pc : RestorePc) (reply : RestoreReply) (pc' : RestorePc) : Prop :=
  pc.unguarded = true ∧ ∃ error applied, reply = .raises error applied ∧ pc' = raised error

theorem jobId_of_transfer {pc : RestorePc} {t : Transfer} (h : pc.transfer = some t) :
    pc.jobId = some t.jobId := by
  cases pc <;> first | cases h; rfl | cases h

theorem goesOn_of_transfer {pc pc' : RestorePc} {t t' : Transfer} (h : pc.transfer = some t)
    (h' : pc'.transfer = some t') (hjob : t'.jobId = t.jobId) : GoesOn pc pc' := by
  rw [GoesOn, jobId_of_transfer h, jobId_of_transfer h', hjob]
  exact ⟨rfl, nofun⟩

theorem withRelay_goesOn (cmd : RestoreCommand) (smtp : Option SmtpConfig) (users : List User) :
    GoesOn (listUsers cmd smtp) (withRelay cmd smtp users) := by
  unfold withRelay
  split
  · exact ⟨rfl, nofun⟩
  · exact ⟨rfl, nofun⟩

theorem resume_raises {pc pc' : RestorePc} {error : String} {applied : Bool}
    (h : pc.resume (.raises error applied) = some pc') :
    GoesOn pc pc' ∧ pc.unguarded = false ∨ Escapes pc (.raises error applied) pc' := by
  cases pc with
  | getRestoreImap cmd => cases h; exact .inr ⟨rfl, _, _, rfl, rfl⟩
  | getSmtp cmd => cases h; exact .inr ⟨rfl, _, _, rfl, rfl⟩
  | listUsers cmd smtp => cases h; exact .inr ⟨rfl, _, _, rfl, rfl⟩
  | refuse jobId error' => cases h; exact .inr ⟨rfl, _, _, rfl, rfl⟩
  | finishError t error' => cases h; exact .inr ⟨rfl, _, _, rfl, rfl⟩
  | imapCreate p cfg =>
      cases h
      exact .inl ⟨goesOn_of_transfer rfl (transfer_appendNext ..) rfl, rfl⟩
  | imapLogout p result =>
      cases h
      cases result with
      | ok n => exact .inl ⟨goesOn_of_transfer rfl rfl rfl, rfl⟩
      | error error' => exact .inl ⟨goesOn_of_transfer rfl rfl rfl, rfl⟩
  | returned => cases h
  | raised error' => cases h
  | _ => cases h; exact .inl ⟨goesOn_of_transfer rfl rfl rfl, rfl⟩

theorem resume_done {pc pc' : RestorePc} (h : pc.resume .done = some pc') :
    GoesOn pc pc' ∨ Finishes pc .done pc' := by
  cases pc with
  | refuse jobId error => cases h; exact .inr ⟨rfl, rfl, _, _, _, rfl, rfl, nofun⟩
  | imapConnect p cfg => cases h; exact .inl (goesOn_of_transfer rfl rfl rfl)
  | imapLogin p cfg => cases h; exact .inl (goesOn_of_transfer rfl rfl rfl)
  | imapCreate p cfg => cases h; exact .inl (goesOn_of_transfer rfl (transfer_appendNext ..) rfl)
  | imapLogout p result =>
      cases h
      cases result with
      | ok n => exact .inl (goesOn_of_transfer rfl rfl rfl)
      | error error => exact .inl (goesOn_of_transfer rfl rfl rfl)
  | sendRaw p cfg recipient raw rest =>
      cases h
      exact .inl (goesOn_of_transfer rfl (transfer_sendNext ..) rfl)
  | setProgress p =>
      cases h
      rcases nextPage_cases p with hnext | hnext
      · rw [hnext]
        exact .inl (goesOn_of_transfer rfl rfl rfl)
      · rw [hnext]
        exact .inl (goesOn_of_transfer rfl rfl rfl)
  | finishDone t => cases h; exact .inr ⟨rfl, rfl, _, _, _, rfl, rfl, nofun⟩
  | finishError t error => cases h; exact .inr ⟨rfl, rfl, _, _, _, rfl, rfl, nofun⟩
  | _ => cases h

/-- **The three things an answer can do**: the execution goes on, has
recorded the end of its job, or is left by an exception; the last exactly
when an unguarded call raises. -/
theorem resume_cases {pc pc' : RestorePc} {reply : RestoreReply}
    (h : pc.resume reply = some pc') :
    (GoesOn pc pc' ∧ ∀ error applied, reply = .raises error applied → pc.unguarded = false)
      ∨ Finishes pc reply pc' ∨ Escapes pc reply pc' := by
  cases reply with
  | raises error applied =>
      rcases resume_raises h with ⟨hgoes, hguarded⟩ | hescapes
      · exact .inl ⟨hgoes, fun _ _ _ => hguarded⟩
      · exact .inr (.inr hescapes)
  | done =>
      rcases resume_done h with hgoes | hfinishes
      · exact .inl ⟨hgoes, nofun⟩
      · exact .inr (.inl hfinishes)
  | page data =>
      obtain ⟨t, rfl, rfl⟩ := resume_page h
      refine .inl ⟨?_, nofun⟩
      split
      · exact goesOn_of_transfer rfl rfl rfl
      · exact goesOn_of_transfer rfl (transfer_getNext ..) rfl
  | eml raw =>
      obtain ⟨p, r, rest, rfl, rfl⟩ := resume_eml h
      exact .inl ⟨goesOn_of_transfer rfl (transfer_getNext ..) rfl, nofun⟩
  | append accepted =>
      obtain ⟨p, cfg, n, raw, rest, rfl, rfl⟩ := resume_append h
      exact .inl ⟨goesOn_of_transfer rfl (transfer_appendNext ..) rfl, nofun⟩
  | restoreImap cfg =>
      cases pc with
      | getRestoreImap cmd =>
          cases cfg with
          | none => cases h; exact .inl ⟨⟨rfl, nofun⟩, nofun⟩
          | some cfg => cases h; exact .inl ⟨⟨rfl, nofun⟩, nofun⟩
      | _ => cases h
  | smtp cfg =>
      cases pc with
      | getSmtp cmd => cases h; exact .inl ⟨⟨rfl, nofun⟩, nofun⟩
      | _ => cases h
  | users rows =>
      cases pc with
      | listUsers cmd smtp => cases h; exact .inl ⟨withRelay_goesOn cmd smtp rows, nofun⟩
      | _ => cases h

end RestorePc

/-! ## What the consumer survives -/

namespace RestoreConsumer

/-- The handler is going to raise: the body cannot be read, or an
unguarded call raises. -/
def escapes : RestoreConsumer → ConsumerEvent → Bool
  | _, .deliver (.unreadable _) => true
  | handling _ pc, .reply (.raises _ _) => pc.unguarded
  | _, _ => false

/-- The consumer will go on after this message. -/
def Sound : RestoreConsumer → Prop
  | consuming => True
  | handling _ pc => ∀ error, pc ≠ .raised error
  | ended => False

theorem sound_step {c c' : RestoreConsumer} {e : ConsumerEvent} (h : c.Sound)
    (hs : c.step e = some c') : c'.Sound ↔ c.escapes e = false := by
  cases c with
  | consuming =>
      cases e with
      | deliver body =>
          cases hs
          cases body with
          | command cmd =>
              simp only [Sound, escapes, iff_true]
              rw [RestoreBody.handle, RestorePc.handle]
              split <;> nofun
          | unreadable error => simp [Sound, escapes, RestoreBody.handle]
      | reply reply => cases hs
      | leave => cases hs
  | handling body pc =>
      cases e with
      | deliver body' => cases pc <;> cases hs
      | reply reply =>
          obtain ⟨pc', hresume, rfl⟩ := Option.map_eq_some_iff.mp hs
          rcases RestorePc.resume_cases hresume with
            ⟨hgoes, hguarded⟩ | ⟨rfl, rfl, -⟩ | ⟨hunguarded, error, applied, rfl, rfl⟩
          · refine iff_of_true ?_ ?_
            · rintro error rfl
              exact hgoes.2 rfl
            · cases reply with
              | raises error applied => exact hguarded error applied rfl
              | _ => rfl
          · exact iff_of_true nofun rfl
          · exact iff_of_false (fun hsound => hsound error rfl) (by simp [escapes, hunguarded])
      | leave =>
          cases pc with
          | returned =>
              cases hs
              exact iff_of_true trivial rfl
          | raised error => exact absurd rfl (h error)
          | _ => cases hs
  | ended => exact h.elim

/-- The loop is over with the message whose handler raises. -/
theorem not_sound_step {c c' : RestoreConsumer} {e : ConsumerEvent} (h : ¬c.Sound)
    (hs : c.step e = some c') : c' = ended := by
  cases c with
  | consuming => exact absurd trivial h
  | handling body pc =>
      obtain ⟨error, rfl⟩ : ∃ error, pc = .raised error := by
        simpa [Sound] using h
      cases e with
      | leave =>
          cases hs
          rfl
      | deliver body' => cases hs
      | reply reply => cases hs
  | ended => cases e <;> cases hs

/-- **The consumer survives its messages exactly when no handler raises**:
for every sequence of messages and outcomes after which no message is
being handled, the loop has not ended at any point iff each body could be
read and no call outside the `try` of `_run_perimeter_transfer` raised. -/
theorem restore_consumer_survives_iff {events : List ConsumerEvent} {c : RestoreConsumer}
    (hrun : run step consuming events = some c) (hidle : ∀ body pc, c ≠ handling body pc) :
    (∀ front back c', events = front ++ back → run step consuming front = some c' → c' ≠ ended)
      ↔ Meets step (fun c e => c.escapes e = false) consuming events := by
  rw [← always_iff_meets (I := Sound) (fun _ _ _ h hs => sound_step h hs) hrun trivial]
  constructor
  · intro halways front back c' hsplit hfront
    by_contra hnot
    obtain ⟨c'', hc'', hback⟩ := run_append.mp (hsplit ▸ hrun)
    obtain rfl : c' = c'' := Option.some.inj (hfront.symm.trans hc'')
    cases back with
    | nil =>
        obtain rfl : c' = c := Option.some.inj hback
        cases c' with
        | consuming => exact hnot trivial
        | handling body pc => exact hidle body pc rfl
        | ended => exact halways front [] _ hsplit hfront rfl
    | cons e back =>
        obtain ⟨d, hd, -⟩ := run_cons_eq_some.mp hback
        refine halways (front ++ [e]) back d ?_ ?_ (not_sound_step hnot hd)
        · rw [hsplit, List.append_assoc, List.singleton_append]
        · exact run_append.mpr ⟨c', hfront, run_cons_eq_some.mpr ⟨d, hd, rfl⟩⟩
  · rintro hsound front back c' hsplit hfront rfl
    exact hsound front back _ hsplit hfront

/-! ### A relay whose password cannot be read -/

def smtpCommand : RestoreBody := .command ⟨7, 1, "smtp", ["bob@x.fr"]⟩

/-- `get_smtp` raises, and the loop is over. -/
theorem restore_consumer_dies :
    run step consuming
        [.deliver smtpCommand, .reply (.raises "InvalidTag" false), .leave] = some ended := by
  decide +kernel

/-- A job that is refused and one whose search fails: both end in error,
and the loop goes on. -/
def twoFailedJobs : List ConsumerEvent :=
  [.deliver smtpCommand, .reply (.smtp none), .reply (.users []), .reply .done, .leave,
    .deliver (.command ⟨8, 1, "imap", ["bob@x.fr"]⟩),
    .reply (.restoreImap (some ⟨"imap.x.fr", 0, "bob", "secret", true, ""⟩)),
    .reply (.raises "ConnectionError" false), .reply .done, .leave]

theorem restore_consumer_survives_two : run step consuming twoFailedJobs = some consuming
    ∧ ∀ front back c', twoFailedJobs = front ++ back → run step consuming front = some c' →
      c' ≠ ended := by
  have hrun : run step consuming twoFailedJobs = some consuming := by decide +kernel
  have hcheck : meetsAll step (fun c e => !c.escapes e) consuming twoFailedJobs = true := by
    decide +kernel
  have hidle : ∀ body pc, consuming ≠ handling body pc := by simp
  refine ⟨hrun, (restore_consumer_survives_iff hrun hidle).mpr ?_⟩
  exact meets_of_check (fun _ _ h => by simpa using h) hcheck

end RestoreConsumer
end MailArchiver

import MailArchiver.Common.Bytes
import Mathlib.Data.List.Induction

/-!
# Common — Queue

`mailarchiver_common/queue.py`: the messages of the RabbitMQ queues and
what a consumer answers the broker after a delivery.

A mail is a publication: `tag` tells two publications of one payload
apart and is seen by no program.
-/

namespace MailArchiver

structure Mail where
  tag : Nat
  payload : Bytes
  deriving DecidableEq, Repr

/-- A message in a queue. -/
structure Queued where
  mail : Mail
  /-- Set once the message has been delivered and has come back. -/
  redelivered : Bool
  deriving DecidableEq, Repr

/-- How a handler call ends: it returns, raises an `OperationalError` or
an `InterfaceError`, or raises anything else. -/
inductive HandlerEnd where
  | returns
  | raisesTransient
  | raises
  deriving DecidableEq, Repr

/-- What the consumer answers the broker. -/
inductive Settlement where
  | ack
  | rejectRequeue
  | rejectDead
  deriving DecidableEq, Repr

/-- The branches of `consume_raw_mail` around one handler call. -/
def settle (redelivered : Bool) : HandlerEnd → Settlement
  | .returns => .ack
  | .raisesTransient => .rejectRequeue
  | .raises => if redelivered then .rejectDead else .rejectRequeue

/-- `prefetch` of the archiver worker. -/
def prefetch : Nat := 16

/-! ## One message over its deliveries

The broker sets `redelivered` on every delivery after the first one,
whatever brought the message back. `consume_raw_mail` reads the flag as a
count of failures. -/

/-- How a delivery ends: the handler call ends and is answered, or the
consumer is gone before it has answered. -/
inductive DeliveryEnd where
  | handled (e : HandlerEnd)
  | lost
  deriving DecidableEq, Repr

/-- A non-transient error of the handler. -/
abbrev DeliveryEnd.failed : DeliveryEnd := .handled .raises

/-- Where a message is. -/
inductive Place where
  | queued (redelivered : Bool)
  | acked
  | dead
  deriving DecidableEq, Repr

/-- One delivery; a message that has left the queue is not delivered. -/
def Place.deliver : Place → DeliveryEnd → Place
  | .queued _, .lost => .queued true
  | .queued redelivered, .handled e =>
      match settle redelivered e with
      | .ack => .acked
      | .rejectRequeue => .queued true
      | .rejectDead => .dead
  | p, _ => p

/-- Where a message is that was published and delivered so often. -/
def placeAfter (ends : List DeliveryEnd) : Place := ends.foldl Place.deliver (.queued false)

theorem placeAfter_snoc (ends : List DeliveryEnd) (e : DeliveryEnd) :
    placeAfter (ends ++ [e]) = (placeAfter ends).deliver e := by
  rw [placeAfter, List.foldl_append]
  rfl

/-- The one way to the dead-letter queue. -/
theorem deliver_eq_dead {redelivered : Bool} {e : DeliveryEnd} :
    (Place.queued redelivered).deliver e = .dead ↔ e = .failed ∧ redelivered = true := by
  cases e with
  | lost => simp [Place.deliver]
  | handled e => cases e <;> cases redelivered <;> simp [Place.deliver, settle]

theorem deliver_eq_queued {p : Place} {e : DeliveryEnd} {redelivered : Bool} :
    p.deliver e = .queued redelivered ↔ redelivered = true ∧
      ∃ before, p = .queued before ∧ e ≠ .handled .returns ∧ (e = .failed → before = false) := by
  cases p with
  | acked => simp [Place.deliver]
  | dead => simp [Place.deliver]
  | queued before =>
      cases e with
      | lost => simp [Place.deliver, eq_comm]
      | handled e => cases e <;> cases before <;> simp [Place.deliver, settle, eq_comm]

/-- What a message still in the queue has been through: its flag tells
whether it was delivered at all, and at most one delivery failed. -/
theorem of_queued {ends : List DeliveryEnd} {redelivered : Bool}
    (h : placeAfter ends = .queued redelivered) :
    (redelivered = true ↔ ends ≠ []) ∧ .handled .returns ∉ ends
      ∧ ends.count .failed ≤ 1 := by
  induction ends using List.reverseRecOn generalizing redelivered with
  | nil =>
      obtain rfl : false = redelivered := by simpa [placeAfter] using h
      simp
  | append_singleton front e ih =>
      rw [placeAfter_snoc, deliver_eq_queued] at h
      obtain ⟨rfl, before, hfront, hreturns, hfailed⟩ := h
      obtain ⟨hflag, hnone, hcount⟩ := ih hfront
      refine ⟨by simp, by simp [hnone, Ne.symm hreturns], ?_⟩
      rw [List.count_append, List.count_singleton]
      by_cases he : e = .failed
      · -- a failure that did not bury the message was its first delivery
        have hnil : front = [] := by simpa [hfailed he] using hflag
        simp [he, hnil]
      · simpa [he] using hcount

/-- A message is buried by the delivery that fails for the second time,
and by no other. -/
def BuriedOnSecondFailure (ends : List DeliveryEnd) : Prop :=
  ∀ front e back, ends = front ++ e :: back → (∃ redelivered, placeAfter front = .queued redelivered) →
    (placeAfter (front ++ [e]) = .dead ↔ e = .failed ∧ (front ++ [e]).count .failed = 2)

/-- Nothing but a failure comes before a failure: a delivery that fails is
the first one, or an earlier one has failed or succeeded. -/
def FailsFirst (ends : List DeliveryEnd) : Prop :=
  ∀ front back, ends = front ++ .failed :: back →
    front = [] ∨ .failed ∈ front ∨ .handled .returns ∈ front

/-- **The flag counts failures exactly when nothing but a failure comes
before a failure**: over any sequence of deliveries, a message is buried
on its second non-transient failure and no other time iff no transient
error and no lost delivery comes before the first one. -/
theorem buried_on_second_failure_iff (ends : List DeliveryEnd) :
    BuriedOnSecondFailure ends ↔ FailsFirst ends := by
  constructor
  · intro h front back hends
    by_contra hnot
    rw [not_or, not_or] at hnot
    obtain ⟨hne, hfailed, hreturns⟩ := hnot
    -- such a front leaves the message in the queue, redelivered
    have hqueued : placeAfter front = .queued true := by
      clear h hends
      induction front using List.reverseRecOn with
      | nil => exact absurd rfl hne
      | append_singleton front e ih =>
          rw [List.mem_append, not_or, List.mem_singleton] at hfailed hreturns
          rw [placeAfter_snoc, deliver_eq_queued]
          by_cases hfront : front = []
          · exact ⟨rfl, false, by simp [hfront, placeAfter], Ne.symm hreturns.2, fun _ => rfl⟩
          · exact ⟨rfl, true, ih hfront hfailed.1 hreturns.1, Ne.symm hreturns.2,
              fun he => absurd he.symm hfailed.2⟩
    have hdead : placeAfter (front ++ [.failed]) = .dead := by
      rw [placeAfter_snoc, hqueued, deliver_eq_dead]
      exact ⟨rfl, rfl⟩
    have hcount := ((h front .failed back hends ⟨true, hqueued⟩).mp hdead).2
    rw [List.count_append, List.count_eq_zero_of_not_mem hfailed] at hcount
    simp at hcount
  · intro h front e back hends hq
    obtain ⟨redelivered, hqueued⟩ := hq
    obtain ⟨hflag, hnone, hle⟩ := of_queued hqueued
    rw [placeAfter_snoc, hqueued, deliver_eq_dead]
    refine and_congr_right fun he => ?_
    subst he
    rw [hflag, List.count_append, List.count_singleton_self]
    constructor
    · intro hne
      rcases h front back hends with hnil | hfailed | hreturns
      · exact absurd hnil hne
      · have hpos := List.count_pos_iff.mpr hfailed
        omega
      · exact absurd hreturns hnone
    · intro hcount hnil
      simp [hnil] at hcount

/-- The database is away for a moment, then the mail fails once: it is
buried without a retry. -/
theorem buried_on_first_failure :
    placeAfter [.handled .raisesTransient, .failed] = .dead
      ∧ ¬BuriedOnSecondFailure [.handled .raisesTransient, .failed] := by
  refine ⟨rfl, fun h => ?_⟩
  have hlaw := h [.handled .raisesTransient] .failed [] rfl ⟨true, rfl⟩
  exact absurd (hlaw.mp rfl).2 (by decide)

end MailArchiver

import MailArchiver.System.MailFlow

/-!
# System — SingleCopy

How many copies of a mail the queue protocol makes. It never loses one it
accepted; a mail has a second copy exactly after one of three accidents:
the acknowledgement of a handled delivery that fails or does not get out
before the consumer dies, and a replay that ends between storing its copy
and acknowledging the original.
-/

namespace MailArchiver.MailFlow

open Transition

/-- The copies of a mail that will be handled, or were: a session's before
it is stored, those in the queues, a delivery's until it is acknowledged,
a replay's until it is put back, and one for each handler call that
returned. -/
def copies (s : State) (m : Mail) : Nat :=
  s.publishing.countP (fun p => !p.stored && decide (p.mail = m))
    + s.raw.countP (fun q => decide (q.mail = m))
    + s.deliveries.countP (fun d => !decide (d.progress = .settling .ack) && decide (d.msg.mail = m))
    + s.dead.countP (fun q => decide (q.mail = m))
    + s.held.countP (fun x => !x.stored && decide (x.msg.mail = m))
    + s.handled.countP (fun x => decide (x = m))

/-- Neither of the accidents. -/
def Clean (s : State) : Event → Prop
  | .ackFails _ => False
  | .consumerDies consumer =>
      ∀ d ∈ s.deliveries, d.consumer = consumer → d.progress ≠ .settling .ack
  | .replayEnds request => ∀ x ∈ s.held, x.request = request → x.stored = false
  | _ => True

instance decClean (s : State) : (e : Event) → Decidable (Clean s e)
  | .ackFails _ => isFalse id
  | .consumerDies consumer => inferInstanceAs (Decidable
      (∀ d ∈ s.deliveries, d.consumer = consumer → d.progress ≠ .settling .ack))
  | .replayEnds request => inferInstanceAs (Decidable
      (∀ x ∈ s.held, x.request = request → x.stored = false))
  | .data _ | .store _ | .confirm _ | .publishFails _ | .sessionDies _ | .deliver _
  | .handlerEnds .. | .settled _ | .get _ | .replayStore _ | .replayConfirm _ | .replayAck _ =>
      isTrue trivial

/-! ## What a step does to the count -/

/-- The copies a move adds. -/
def extra (s : State) (m : Mail) : Event → Nat
  | .data payload => (decide ((⟨s.nextTag, payload⟩ : Mail) = m)).toNat
  | .ackFails i =>
      match s.deliveries[i]? with
      | some d => (decide (d.progress = .settling .ack) && decide (d.msg.mail = m)).toNat
      | none => 0
  | .consumerDies consumer => s.deliveries.countP fun d =>
      decide (d.consumer = consumer) && (decide (d.progress = .settling .ack) && decide (d.msg.mail = m))
  | .replayEnds request => s.held.countP fun x =>
      decide (x.request = request) && (x.stored && decide (x.msg.mail = m))
  | _ => 0

theorem toNat_pos {b : Bool} : 0 < b.toNat ↔ b = true := by
  cases b with
  | false => simp
  | true => simp

theorem settle_raises_ne_ack (redelivered : Bool) : settle redelivered .raises ≠ .ack := by
  cases redelivered with
  | false => decide
  | true => decide

/-- An acknowledgement that fails makes the copy a handler took count
again. -/
theorem copies_ackFails {s : State} {i consumer : Nat} {q : Queued} (m : Mail)
    (hi : s.deliveries[i]? = some ⟨consumer, q, .settling .ack⟩) :
    copies { s with deliveries :=
        s.deliveries.set i ⟨consumer, q, .settling (settle q.redelivered .raises)⟩ } m
      = copies s m + (decide (q.mail = m)).toNat := by
  have hcount := Slots.countP_set hi
    (⟨consumer, q, .settling (settle q.redelivered .raises)⟩ : Delivery)
    (fun d => !decide (d.progress = .settling .ack) && decide (d.msg.mail = m))
  have hne : decide (Progress.settling (settle q.redelivered .raises) = .settling .ack) = false := by
    simp [settle_raises_ne_ack]
  simp only [hne, decide_true, Bool.not_true, Bool.not_false, Bool.false_and, Bool.true_and,
    Bool.toNat_false, Nat.add_zero] at hcount
  simp only [copies, hcount]
  omega

/-- So does one that does not get out. -/
theorem copies_consumerDied (s : State) (consumer : Nat) (m : Mail) :
    copies { s with
        deliveries := s.deliveries.filter fun d => !decide (d.consumer = consumer)
        raw := (s.deliveries.filter fun d => d.consumer = consumer).map (Queued.returned ·.msg)
          ++ s.raw } m
      = copies s m + extra s m (.consumerDies consumer) := by
  have hsplit := List.countP_eq_countP_filter_add s.deliveries
    (fun d => !decide (d.progress = .settling .ack) && decide (d.msg.mail = m))
    (fun d => decide (d.consumer = consumer))
  -- those of the consumer count whether they were handled or not
  have hback := List.countP_eq_countP_filter_add
    (s.deliveries.filter fun d => decide (d.consumer = consumer))
    (fun d => decide (d.msg.mail = m)) (fun d => decide (d.progress = .settling .ack))
  simp only [List.countP_filter] at hsplit hback
  simp only [copies, extra, List.countP_append, List.countP_map, List.countP_filter, Function.comp_def,
    Queued.returned]
  have hcomm : ∀ d : Delivery, (decide (d.consumer = consumer)
      && (decide (d.progress = .settling .ack) && decide (d.msg.mail = m)))
      = (decide (d.msg.mail = m) && decide (d.progress = .settling .ack)
        && decide (d.consumer = consumer)) := fun d => by
    cases decide (d.consumer = consumer) <;> simp [Bool.and_comm]
  have hcomm' : ∀ d : Delivery, (decide (d.msg.mail = m) && !decide (d.progress = .settling .ack)
      && decide (d.consumer = consumer)) = (!decide (d.progress = .settling .ack)
        && decide (d.msg.mail = m) && decide (d.consumer = consumer)) := fun d => by
    cases decide (d.consumer = consumer) <;> simp [Bool.and_comm]
  simp only [hcomm, hcomm'] at hback ⊢
  omega

/-- A replay that ends puts its originals back, whether or not their copy
was stored. -/
theorem copies_replayEnded (s : State) (request : Nat) (m : Mail) :
    copies { s with
        held := s.held.filter fun h => !decide (h.request = request)
        dead := (s.held.filter fun h => h.request = request).map (Queued.returned ·.msg)
          ++ s.dead } m
      = copies s m + extra s m (.replayEnds request) := by
  have hsplit := List.countP_eq_countP_filter_add s.held
    (fun x => !x.stored && decide (x.msg.mail = m)) (fun x => decide (x.request = request))
  have hback := List.countP_eq_countP_filter_add (s.held.filter fun x => decide (x.request = request))
    (fun x => decide (x.msg.mail = m)) (fun x => x.stored)
  simp only [List.countP_filter] at hsplit hback
  simp only [copies, extra, List.countP_append, List.countP_map, List.countP_filter, Function.comp_def,
    Queued.returned]
  have hcomm : ∀ x : Held, (decide (x.request = request) && (x.stored && decide (x.msg.mail = m)))
      = (decide (x.msg.mail = m) && x.stored && decide (x.request = request)) := fun x => by
    cases decide (x.request = request) <;> simp [Bool.and_comm]
  have hcomm' : ∀ x : Held, (decide (x.msg.mail = m) && !x.stored && decide (x.request = request))
      = (!x.stored && decide (x.msg.mail = m) && decide (x.request = request)) := fun x => by
    cases decide (x.request = request) <;> simp [Bool.and_comm]
  simp only [hcomm, hcomm'] at hback ⊢
  omega

/-- No other step adds a copy, but for the mail that comes in. -/
theorem copies_step {maxBytes : Nat} {s s' : State} {e : Event} (hs : step maxBytes s e = some s')
    (m : Mail) : copies s' m ≤ copies s m + extra s m e := by
  cases e with
  | data payload =>
      simp only [step] at hs
      split at hs <;> cases hs
      · exact Nat.le_add_right _ _
      · simp only [copies, extra, Slots.countP_snoc, Bool.not_false, Bool.true_and]
        omega
  | store i =>
      simp only [step] at hs
      split at hs <;> cases hs
      rename_i mail hi
      have hcount := Slots.countP_set hi (⟨mail, true⟩ : Publishing)
        (fun p => !p.stored && decide (p.mail = m))
      simp only [Bool.not_true, Bool.not_false, Bool.false_and, Bool.true_and, Bool.toNat_false,
        Nat.add_zero] at hcount
      simp only [copies, Slots.countP_snoc]
      omega
  | confirm i =>
      simp only [step] at hs
      split at hs <;> cases hs
      rename_i mail hi
      have hcount := Slots.countP_eraseIdx hi (fun p => !p.stored && decide (p.mail = m))
      simp only [copies]
      omega
  | publishFails i =>
      simp only [step] at hs
      split at hs <;> cases hs
      rename_i p hi
      have hcount := Slots.countP_eraseIdx hi (fun p => !p.stored && decide (p.mail = m))
      simp only [copies]
      omega
  | sessionDies i =>
      simp only [step] at hs
      split at hs <;> cases hs
      rename_i p hi
      have hcount := Slots.countP_eraseIdx hi (fun p => !p.stored && decide (p.mail = m))
      simp only [copies]
      omega
  | deliver consumer =>
      simp only [step] at hs
      split at hs
      · cases hs
      · rename_i q raw hraw
        split at hs <;> cases hs
        have hwas : (!decide (Progress.delivered = .settling .ack)) = true := rfl
        simp only [copies, hraw, Slots.countP_snoc, Slots.countP_cons, hwas, Bool.true_and]
        omega
  | handlerEnds i how =>
      simp only [step] at hs
      split at hs
      · rename_i consumer q hi
        split at hs <;> cases hs
        have hcount := Slots.countP_set hi
          (⟨consumer, q, .settling (settle q.redelivered how)⟩ : Delivery)
          (fun d => !decide (d.progress = .settling .ack) && decide (d.msg.mail = m))
        have hwas : (!decide (Progress.delivered = .settling .ack)) = true := rfl
        simp only [hwas, Bool.true_and] at hcount
        by_cases hret : how = .returns
        · -- the copy is the handler's now
          subst hret
          have hack : settle q.redelivered .returns = .ack := rfl
          simp only [hack, decide_true, Bool.not_true, Bool.false_and, Bool.toNat_false,
            Nat.add_zero] at hcount
          simp only [copies, if_true, Slots.countP_cons, hack]
          omega
        · have hne : decide (Progress.settling (settle q.redelivered how) = .settling .ack)
              = false := by
            simpa using fun h => hret (returns_of_settle h)
          simp only [hne, Bool.not_false, Bool.true_and] at hcount
          simp only [copies, if_neg hret]
          omega
      · cases hs
  | ackFails i =>
      simp only [step] at hs
      split at hs <;> cases hs
      rename_i consumer q hi
      simp only [extra, hi, decide_true, Bool.true_and]
      exact Nat.le_of_eq (copies_ackFails m hi)
  | settled i =>
      simp only [step] at hs
      split at hs <;> cases hs
      · rename_i consumer q hi
        have hcount := Slots.countP_eraseIdx hi
          (fun d => !decide (d.progress = .settling .ack) && decide (d.msg.mail = m))
        simp only [copies]
        omega
      · rename_i consumer q hi
        have hcount := Slots.countP_eraseIdx hi
          (fun d => !decide (d.progress = .settling .ack) && decide (d.msg.mail = m))
        have hwas : (!decide (Progress.settling .rejectRequeue = .settling .ack)) = true := by decide
        simp only [hwas, Bool.true_and] at hcount
        simp only [copies, Slots.countP_cons, Queued.returned]
        omega
      · rename_i consumer q hi
        have hcount := Slots.countP_eraseIdx hi
          (fun d => !decide (d.progress = .settling .ack) && decide (d.msg.mail = m))
        have hwas : (!decide (Progress.settling .rejectDead = .settling .ack)) = true := by decide
        simp only [hwas, Bool.true_and] at hcount
        simp only [copies, Slots.countP_snoc]
        omega
  | consumerDies consumer =>
      simp only [step, List.partition_eq_filter_filter] at hs
      cases hs
      exact Nat.le_of_eq (copies_consumerDied s consumer m)
  | get request =>
      simp only [step] at hs
      split at hs <;> cases hs
      rename_i q dead hdead
      simp only [copies, hdead, Slots.countP_snoc, Slots.countP_cons, Bool.not_false, Bool.true_and]
      omega
  | replayStore i =>
      simp only [step] at hs
      split at hs <;> cases hs
      rename_i request q confirmed hi
      have hcount := Slots.countP_set hi (⟨request, q, true, false⟩ : Held)
        (fun x => !x.stored && decide (x.msg.mail = m))
      simp only [Bool.not_true, Bool.not_false, Bool.false_and, Bool.true_and, Bool.toNat_false,
        Nat.add_zero] at hcount
      simp only [copies, Slots.countP_snoc]
      omega
  | replayConfirm i =>
      simp only [step] at hs
      split at hs <;> cases hs
      rename_i request q hi
      have hcount := Slots.countP_set hi (⟨request, q, true, true⟩ : Held)
        (fun x => !x.stored && decide (x.msg.mail = m))
      simp only [Bool.not_true, Bool.false_and, Bool.toNat_false, Nat.add_zero] at hcount
      simp only [copies]
      omega
  | replayAck i =>
      simp only [step] at hs
      split at hs <;> cases hs
      rename_i request q hi
      have hcount := Slots.countP_eraseIdx hi (fun x => !x.stored && decide (x.msg.mail = m))
      simp only [copies]
      omega
  | replayEnds request =>
      simp only [step, List.partition_eq_filter_filter] at hs
      cases hs
      exact Nat.le_of_eq (copies_replayEnded s request m)

/-! ## The invariant -/

/-- A mail that is kept has a copy. -/
theorem Kept.copies_pos {s : State} {m : Mail} (h : Kept s m)
    (hacked : ∀ d ∈ s.deliveries, d.progress = .settling .ack → d.msg.mail ∈ s.handled) :
    0 < copies s m := by
  have hhandled : m ∈ s.handled → 0 < copies s m := fun hm => by
    have hpos : 0 < s.handled.countP (fun x => decide (x = m)) :=
      List.countP_pos_iff.mpr ⟨m, hm, by simp⟩
    simp only [copies]
    omega
  cases h with
  | @raw q h hm =>
      have hpos : 0 < s.raw.countP (fun q => decide (q.mail = m)) :=
        List.countP_pos_iff.mpr ⟨q, h, by simp [hm]⟩
      simp only [copies]
      omega
  | @delivered d h hm =>
      by_cases hack : d.progress = .settling .ack
      · exact hhandled (hm ▸ hacked d h hack)
      · have hpos : 0 < s.deliveries.countP (fun d =>
            !decide (d.progress = .settling .ack) && decide (d.msg.mail = m)) :=
          List.countP_pos_iff.mpr ⟨d, h, by simp [hack, hm]⟩
        simp only [copies]
        omega
  | @dead q h hm =>
      have hpos : 0 < s.dead.countP (fun q => decide (q.mail = m)) :=
        List.countP_pos_iff.mpr ⟨q, h, by simp [hm]⟩
      simp only [copies]
      omega
  | @held x h hm hst =>
      have hpos : 0 < s.held.countP (fun x => !x.stored && decide (x.msg.mail = m)) :=
        List.countP_pos_iff.mpr ⟨x, h, by simp [hst, hm]⟩
      simp only [copies]
      omega
  | handled h => exact hhandled h

/-- What holds whether or not there are accidents. -/
structure Base (s : State) : Prop where
  inv : Inv s
  /-- The copy a replay stored is still somewhere. -/
  replayed : ∀ x ∈ s.held, x.stored = true → Kept s x.msg.mail
  tags : ∀ m, 0 < copies s m → m.tag < s.nextTag

theorem base_init : Base init where
  inv := inv_init
  replayed := fun _ hx => absurd hx List.not_mem_nil
  tags := fun _ hm => absurd hm (Nat.lt_irrefl 0)

/-- A copy that is added is of a mail that has one, or comes in. -/
theorem pos_of_extra {s : State} {m : Mail} {e : Event} (h : Base s) (hextra : 0 < extra s m e) :
    0 < copies s m ∨ ∃ payload, e = .data payload ∧ m = ⟨s.nextTag, payload⟩ := by
  cases e with
  | data payload =>
      refine .inr ⟨payload, rfl, ?_⟩
      simp only [extra] at hextra
      by_contra hne
      rw [decide_eq_false (Ne.symm hne)] at hextra
      exact absurd hextra (Nat.lt_irrefl 0)
  | ackFails i =>
      simp only [extra] at hextra
      split at hextra
      · rename_i d hi
        rw [toNat_pos, Bool.and_eq_true, decide_eq_true_eq, decide_eq_true_eq] at hextra
        obtain ⟨hack, rfl⟩ := hextra
        have hd := List.mem_of_getElem? hi
        exact .inl ((Kept.handled (h.inv.acked d hd hack)).copies_pos h.inv.acked)
      · exact absurd hextra (Nat.lt_irrefl 0)
  | consumerDies consumer =>
      obtain ⟨d, hd, hcond⟩ := List.countP_pos_iff.mp hextra
      simp only [Bool.and_eq_true, decide_eq_true_eq] at hcond
      obtain ⟨-, hack, rfl⟩ := hcond
      exact .inl ((Kept.handled (h.inv.acked d hd hack)).copies_pos h.inv.acked)
  | replayEnds request =>
      obtain ⟨x, hx, hcond⟩ := List.countP_pos_iff.mp hextra
      simp only [Bool.and_eq_true, decide_eq_true_eq] at hcond
      obtain ⟨-, hst, rfl⟩ := hcond
      exact .inl ((h.replayed x hx hst).copies_pos h.inv.acked)
  | store | confirm | publishFails | sessionDies | deliver | handlerEnds | settled | get | replayStore
  | replayConfirm | replayAck => exact absurd hextra (Nat.lt_irrefl 0)

/-- A replay's stored copy is one that was stored before, or was put into
the raw queue now. -/
theorem held_step {s s' : State} (hs : Moves s s') {x : Held} (hx : x ∈ s'.held)
    (hst : x.stored = true) :
    (∃ y ∈ s.held, y.stored = true ∧ y.msg = x.msg) ∨ ⟨x.msg.mail, false⟩ ∈ s'.raw := by
  cases hs with
  | got request hq =>
      rcases List.mem_append.mp hx with hx | hx
      · exact .inl ⟨x, hx, hst, rfl⟩
      · rw [List.mem_singleton.mp hx] at hst
        cases hst
  | replayStored hi =>
      rcases List.mem_or_eq_of_mem_set hx with hx | rfl
      · exact .inl ⟨x, hx, hst, rfl⟩
      · exact .inr (List.mem_append_right _ (List.mem_singleton_self _))
  | replayConfirmed hi =>
      rcases List.mem_or_eq_of_mem_set hx with hx | rfl
      · exact .inl ⟨x, hx, hst, rfl⟩
      · exact .inl ⟨_, List.mem_of_getElem? hi, rfl, rfl⟩
  | replayAcked hi => exact .inl ⟨x, List.mem_of_mem_eraseIdx hx, hst, rfl⟩
  | replayEnded request => exact .inl ⟨x, (List.mem_filter.mp hx).1, hst, rfl⟩
  | _ => exact .inl ⟨x, hx, hst, rfl⟩

theorem nextTag_step {maxBytes : Nat} {s s' : State} {e : Event} (hs : step maxBytes s e = some s') :
    s.nextTag ≤ s'.nextTag ∧ ∀ payload, e = .data payload → s'.nextTag = s.nextTag + 1 := by
  refine ⟨?_, ?_⟩
  · cases moves_of_step hs with
    | refused | publishing => exact Nat.le_succ _
    | _ => exact Nat.le_refl _
  · rintro payload rfl
    simp only [step] at hs
    split at hs <;> cases hs
    · rfl
    · rfl

theorem base_step {maxBytes : Nat} {s s' : State} {e : Event} (h : Base s)
    (hs : step maxBytes s e = some s') : Base s' where
  inv := inv_step h.inv hs
  replayed := by
    intro x hx hst
    rcases held_step (moves_of_step hs) hx hst with ⟨y, hy, hst', heq⟩ | hraw
    · exact heq ▸ kept_step (moves_of_step hs) h.inv.acked (h.replayed y hy hst')
    · exact .raw hraw rfl
  tags := by
    intro m hm
    obtain ⟨hle, hdata⟩ := nextTag_step hs
    have hcopies := copies_step hs m
    by_cases hold : 0 < copies s m
    · exact Nat.lt_of_lt_of_le (h.tags m hold) hle
    · rcases pos_of_extra h (m := m) (e := e) (by omega) with hpos | ⟨payload, rfl, rfl⟩
      · exact absurd hpos hold
      · rw [hdata payload rfl]
        exact Nat.lt_succ_self _

/-! ## One copy -/

/-- Without an accident only the mail that comes in gets a copy. -/
theorem extra_of_clean {s : State} {e : Event} (hclean : Clean s e) (m : Mail)
    (hextra : 0 < extra s m e) : ∃ payload, e = .data payload ∧ m = ⟨s.nextTag, payload⟩ := by
  cases e with
  | data payload =>
      refine ⟨payload, rfl, ?_⟩
      rw [extra, toNat_pos, decide_eq_true_eq] at hextra
      exact hextra.symm
  | ackFails i => cases hclean
  | consumerDies consumer =>
      obtain ⟨d, hd, hcond⟩ := List.countP_pos_iff.mp hextra
      simp only [Bool.and_eq_true, decide_eq_true_eq] at hcond
      exact absurd hcond.2.1 (hclean d hd hcond.1)
  | replayEnds request =>
      obtain ⟨x, hx, hcond⟩ := List.countP_pos_iff.mp hextra
      simp only [Bool.and_eq_true, decide_eq_true_eq] at hcond
      have hst := hclean x hx hcond.1
      rw [hcond.2.1] at hst
      cases hst
  | store | confirm | publishFails | sessionDies | deliver | handlerEnds | settled | get | replayStore
  | replayConfirm | replayAck => exact absurd hextra (Nat.lt_irrefl 0)

/-- An accident adds a copy of a mail that has one. -/
theorem two_of_accident {maxBytes : Nat} {s s' : State} {e : Event} (h : Base s)
    (hs : step maxBytes s e = some s') (haccident : ¬Clean s e) : ∃ m, 1 < copies s' m := by
  have htwo : ∀ m, copies s' m = copies s m + extra s m e → 0 < extra s m e →
      (∀ payload, e ≠ .data payload) → ∃ m, 1 < copies s' m := by
    intro m heq hextra hne
    rcases pos_of_extra h hextra with hpos | ⟨payload, he, -⟩
    · exact ⟨m, by omega⟩
    · exact absurd he (hne payload)
  cases e with
  | ackFails i =>
      simp only [step] at hs
      split at hs <;> cases hs
      rename_i consumer q hi
      have hextra : extra s q.mail (.ackFails i) = (decide (q.mail = q.mail)).toNat := by
        simp only [extra, hi, decide_true, Bool.true_and]
      refine htwo q.mail ((copies_ackFails q.mail hi).trans (by rw [hextra])) ?_ (by simp)
      rw [hextra]
      exact toNat_pos.mpr (decide_eq_true rfl)
  | consumerDies consumer =>
      simp only [step, List.partition_eq_filter_filter] at hs
      cases hs
      simp only [Clean, not_forall, not_not] at haccident
      obtain ⟨d, hd, hconsumer, hack⟩ := haccident
      refine htwo d.msg.mail (copies_consumerDied s consumer d.msg.mail) ?_ (by simp)
      exact List.countP_pos_iff.mpr ⟨d, hd, by simp [hconsumer, hack]⟩
  | replayEnds request =>
      simp only [step, List.partition_eq_filter_filter] at hs
      cases hs
      simp only [Clean, not_forall, Bool.not_eq_false] at haccident
      obtain ⟨x, hx, hrequest, hst⟩ := haccident
      refine htwo x.msg.mail (copies_replayEnded s request x.msg.mail) ?_ (by simp)
      exact List.countP_pos_iff.mpr ⟨x, hx, by simp [hrequest, hst]⟩
  | data | store | confirm | publishFails | sessionDies | deliver | handlerEnds | settled | get
  | replayStore | replayConfirm | replayAck => exact absurd trivial haccident

/-- No mail has two copies. -/
def Single (s : State) : Prop := ∀ m, copies s m ≤ 1

/-- One step keeps it so exactly if it is no accident. -/
theorem single_step_iff {maxBytes : Nat} {s s' : State} {e : Event} (h : Base s) (hsingle : Single s)
    (hs : step maxBytes s e = some s') : Single s' ↔ Clean s e := by
  constructor
  · intro hsingle'
    by_contra haccident
    obtain ⟨m, hm⟩ := two_of_accident h hs haccident
    have hle := hsingle' m
    omega
  · intro hclean m
    have hstep := copies_step hs m
    have hle := hsingle m
    by_cases hextra : 0 < extra s m e
    · -- the mail that comes in is new
      obtain ⟨payload, rfl, rfl⟩ := extra_of_clean hclean m hextra
      have hnone : copies s ⟨s.nextTag, payload⟩ = 0 := by
        by_contra hne
        exact absurd (h.tags _ (Nat.pos_of_ne_zero hne)) (Nat.lt_irrefl _)
      have hone : extra s ⟨s.nextTag, payload⟩ (.data payload) ≤ 1 := Bool.toNat_le _
      omega
    · omega

theorem reachable_base {maxBytes : Nat} {s : State} (h : Reachable (step maxBytes) init s) : Base s :=
  h.invariant base_init fun _ _ _ hI hs => base_step hI hs

/-- **When the queue protocol handles a mail once**: all along a run no
mail has a second copy exactly if no acknowledgement of a handled delivery
fails or is cut off by the death of its consumer, and no replay ends
between storing its copy and acknowledging the original. In such a run a
mail that was accepted has exactly one copy. -/
theorem single_copy_iff {maxBytes : Nat} {es : List Event} {s : State}
    (hrun : run (step maxBytes) init es = some s) :
    ((∀ front back u, es = front ++ back → run (step maxBytes) init front = some u → Single u)
        ↔ Meets (step maxBytes) Clean init es)
      ∧ (Meets (step maxBytes) Clean init es → ∀ m, (m, acceptedAnswer) ∈ s.answers →
        copies s m = 1) := by
  have hiff := always_iff_meets (I := fun s => Base s ∧ Single s) (C := Clean)
    (fun s e s' hI hs => ⟨fun hI' => (single_step_iff hI.1 hI.2 hs).mp hI'.2,
      fun hclean => ⟨base_step hI.1 hs, (single_step_iff hI.1 hI.2 hs).mpr hclean⟩⟩)
    hrun ⟨base_init, fun _ => Nat.zero_le 1⟩
  constructor
  · rw [← hiff]
    constructor
    · exact fun h front back u hsplit hu => ⟨reachable_base ⟨front, hu⟩, h front back u hsplit hu⟩
    · exact fun h front back u hsplit hu => (h front back u hsplit hu).2
  · intro hmeets m hm
    have hbase := reachable_base ⟨es, hrun⟩
    have hsingle : Single s := (hiff.mpr hmeets es [] s (List.append_nil es).symm hrun).2
    have hpos := (hbase.inv.accepted m hm).copies_pos hbase.inv.acked
    have hle := hsingle m
    omega

/-- A mail that failed twice was replayed, once. -/
theorem single_copy_iff_sample : ∃ s, run (step 10) init sampleEvents = some s
    ∧ (⟨0, [1]⟩, acceptedAnswer) ∈ s.answers ∧ copies s ⟨0, [1]⟩ = 1 := by
  have hrun : ∃ s, run (step 10) init sampleEvents = some s
      ∧ (⟨0, [1]⟩, acceptedAnswer) ∈ s.answers := ⟨_, rfl, by decide⟩
  obtain ⟨s, hs, hm⟩ := hrun
  have hcheck : meetsAll (step 10) (fun s e => decide (Clean s e)) init sampleEvents = true := by
    decide
  have hmeets : Meets (step 10) Clean init sampleEvents :=
    meets_of_check (fun _ _ h => of_decide_eq_true h) hcheck
  exact ⟨s, hs, hm, (single_copy_iff hs).2 hmeets _ hm⟩

end MailArchiver.MailFlow

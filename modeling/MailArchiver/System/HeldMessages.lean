import MailArchiver.System.ExactlyOnce

/-!
# System — HeldMessages

Legal holds against the retention run. The run tests the flag when it
selects its batch and deletes later, so a hold protects a message when
no message of the batch is held while the statements of the run are
executed, what the run collects is without reference, and no blob is at
once a body and an attachment (`RespectsHolds`). The holds granted are
kept beside the world: the answers of the requests, by message.
-/

namespace MailArchiver

open Tables Transition

variable {env : Env}

namespace World

/-- The holds granted after a step: an answered request grants or lifts
the one of its message. -/
def grant (w : World env) (granted : Nat → Bool) : Event → Nat → Bool
  | .commitHold r =>
      match w.holds r with
      | none => granted
      | some q =>
          match q.commit w.stores with
          | none => granted
          | some (_, q') =>
              if q'.status = .answered then Function.update granted q.row.id q.hold else granted
  | _ => granted

/-- A step of the world, with the holds granted so far. -/
def holdStep (x : World env × (Nat → Bool)) (e : Event) : Option (World env × (Nat → Bool)) :=
  match x.1.step e with
  | none => none
  | some w' => some (w', x.1.grant x.2 e)

/-- A step removes nothing of message `id`: its row, its dedup row, its
links, its body and the blobs of its attachments. -/
structure Keeps (w w' : World env) (id : Nat) : Prop where
  row : ∀ m ∈ w.db.messages, m.id = id → ∃ m' ∈ w'.db.messages, m'.SameArchive m
  dedup : ∀ d ∈ w.db.messageDedup, d.messageId = id → d ∈ w'.db.messageDedup
  links : ∀ l ∈ w.db.messageAttachments, l.messageId = id → l ∈ w'.db.messageAttachments
  body : ∀ m ∈ w.db.messages, m.id = id →
    (w.blobs.lookup m.bodySha256).isSome → (w'.blobs.lookup m.bodySha256).isSome
  attachments : ∀ l ∈ w.db.messageAttachments, l.messageId = id →
    ∀ a ∈ w.db.attachments, a.id = l.attachmentId →
      (w.blobs.lookup a.sha256).isSome → (w'.blobs.lookup a.sha256).isSome

/-- A request that writes nothing finds the flag as it read it. While the
retention run executes its statements no message of its batch is held;
what it collects has no reference in its own view of the tables; the
blob it deletes is not both a body and an attachment. -/
def RespectsHolds (w : World env) : Event → Prop
  | .commitHold r => ∀ q, w.holds r = some q → q.hold = true → q.row.legalHold = true →
      ∀ m ∈ w.db.messages, m.id = q.row.id → m.legalHold = true
  | .purge .advance =>
      (∀ m ∈ w.db.messages, w.purge.Batch m.id → m.legalHold = false)
        ∧ (∀ r, w.purge.next = some (.collect r) →
            ∀ a ∈ (w.purge.done.foldl Statement.onDb w.db).attachments,
              a.sha256 = r.sha256 → a.refCount ≤ 0)
        ∧ ∀ st sha, w.purge.next = some st → st.deletes = some sha →
            ∀ m ∈ w.db.messages, ∀ a ∈ w.db.attachments, m.bodySha256 = sha → a.sha256 ≠ sha
  | _ => True

/-! ## What requests do -/

/-- The ways a request ends. -/
theorem commitHold_cases {w w' : World env} {r : Nat} (hs : w.step (.commitHold r) = some w') :
    ∃ q, w.holds r = some q
      ∧ ((q.row.legalHold = q.hold ∧ w'.stores = w.stores
          ∧ ∀ granted, w.grant granted (.commitHold r) = Function.update granted q.row.id q.hold)
        ∨ ((∃ m ∈ w.db.messages, m.id = q.row.id ∧ m.signedAt = q.row.signedAt)
          ∧ w'.stores = { w.stores with db := w.db.setHold q.row q.hold }
          ∧ ∀ granted, w.grant granted (.commitHold r) = Function.update granted q.row.id q.hold)
        ∨ (w'.stores = w.stores ∧ ∀ granted, w.grant granted (.commitHold r) = granted)) := by
  simp only [step] at hs
  split at hs
  · cases hs
  · rename_i q hq
    refine ⟨q, hq, ?_⟩
    split at hs
    · cases hs
    · rename_i s q' hcommit
      cases hs
      have hgrant : ∀ granted, w.grant granted (.commitHold r) =
          if q'.status = .answered then Function.update granted q.row.id q.hold else granted := by
        intro granted
        simp only [grant, hq, hcommit]
      simp only [hgrant]
      unfold HoldRequest.commit at hcommit
      split at hcommit
      · split at hcommit
        · rename_i hflag
          cases hcommit
          exact .inl ⟨hflag, rfl, fun _ => rfl⟩
        · split at hcommit
          · split at hcommit
            · rename_i hany
              cases hcommit
              have hrow : ∃ m ∈ w.stores.db.messages, m.id = q.row.id
                  ∧ m.signedAt = q.row.signedAt := by simpa using hany
              exact .inr (.inl ⟨hrow, rfl, fun _ => rfl⟩)
            · cases hcommit
              exact .inr (.inr ⟨rfl, fun _ => rfl⟩)
          · cases hcommit
      · cases hcommit

/-- A request that is only read touches no store. -/
theorem readHold_stores {w w' : World env} {r messageId : Nat} {hold : Bool}
    (hs : w.step (.readHold r messageId hold) = some w') : w'.stores = w.stores := by
  simp only [step] at hs
  split at hs
  · cases hs
  · split at hs <;> cases hs <;> rfl

/-- A request has read a row of the table. -/
theorem holds_of_step {w w' : World env} {e : Event} (hs : w.step e = some w') {r : Nat}
    {q : HoldRequest} (hq : w'.holds r = some q) :
    (∃ q₀, w.holds r = some q₀ ∧ q.row = q₀.row) ∨ q.row ∈ w.db.messages := by
  by_cases hsame : w'.holds r = w.holds r
  · exact .inl ⟨q, hsame ▸ hq, rfl⟩
  · cases e with
    | readHold r₀ messageId hold =>
        simp only [step] at hs
        split at hs
        · cases hs
        · split at hs
          · cases hs
            exact absurd rfl hsame
          · rename_i row hrow
            cases hs
            by_cases hr : r = r₀
            · subst hr
              simp only [setHoldRequest, Function.update_self, Option.some.injEq] at hq
              subst hq
              exact .inr (List.mem_of_find?_eq_some hrow)
            · exact absurd (Function.update_of_ne hr ..) hsame
    | commitHold r₀ =>
        simp only [step] at hs
        split at hs
        · cases hs
        · rename_i q₀ hq₀
          split at hs
          · cases hs
          · rename_i s q' hcommit
            cases hs
            by_cases hr : r = r₀
            · subst hr
              simp only [setHoldRequest, Function.update_self, Option.some.injEq] at hq
              subst hq
              exact .inl ⟨q₀, hq₀, HoldRequest.commit_row hcommit⟩
            · exact absurd (Function.update_of_ne hr ..) hsame
    | start | advance | fail | purge =>
        refine absurd ?_ hsame
        cases Move.of_step hs with
        | hold hstores he => simp [Event.call, Event.isPurge] at he
        | _ => rfl

/-- The id of a row that was committed, still there or not. -/
def Given (w : World env) (id : Nat) : Prop :=
  ∃ c call, w.calls c = some call ∧ call.committed = some id

theorem Given.step {w w' : World env} {e : Event} (hsound : w.Sound) (hs : w.step e = some w')
    {id : Nat} (h : w.Given id) : w'.Given id := by
  obtain ⟨c, call, hcall, hcom⟩ := h
  obtain ⟨call', hcall', hcom'⟩ := committed_step hsound hs hcall hcom
  exact ⟨c, call', hcall', hcom'⟩

theorem Given.of_mem {w : World env} (hsound : w.Sound) {m : Message} (hm : m ∈ w.db.messages) :
    w.Given m.id := by
  obtain ⟨c, call, hcall, hcom, -⟩ := hsound.origin hm
  exact ⟨c, call, hcall, hcom⟩

/-- A step other than the commit of a request brings rows under new ids
only. -/
theorem mem_messages_of_step {w w' : World env} {e : Event} (hsound : w.Sound)
    (hs : w.step e = some w') (he : ∀ r, e ≠ .commitHold r) {m : Message}
    (hm : m ∈ w'.db.messages) : m ∈ w.db.messages ∨ ¬w.Given m.id := by
  cases Move.of_step hs with
  | refused | start | fail => exact .inl hm
  | @advance c draw published call call' s hcall hmove =>
      rcases hmove.db with ⟨hdb, -⟩ | ⟨rows, id, hpc, hdb, -⟩
      · left
        rw [setCall_db, hdb] at hm
        exact hm
      · rw [setCall_db, hdb, archive_messages, List.mem_append, List.mem_singleton] at hm
        rcases hm with hm | rfl
        · exact .inl hm
        · -- the id was taken for this row, no other call has committed it
          right
          rintro ⟨c₁, call₁, hcall₁, hcom₁⟩
          exact hsound.committed_ne hcall hpc hcall₁ hcom₁
  | @purge e s p hmove =>
      generalize hq : w.purge = q at hmove
      cases hmove with
      | select | load | begin | execute | crash => exact .inl hm
      | @commit done =>
          left
          have hm' : m ∈ (done.foldl Statement.onDb w.db).messages := hm
          rw [Statement.foldl_onDb_messages] at hm'
          exact List.mem_of_mem_filter hm'
  | @hold e r q s hstores hnone =>
      cases e with
      | start | advance | fail => cases hnone.1
      | purge => cases hnone.2
      | commitHold r => exact absurd rfl (he r)
      | readHold r₀ messageId on =>
          have hsame : s = w.stores := readHold_stores hs
          subst hsame
          exact .inl hm

/-! ## The holds that were granted -/

/-- What is known of the holds: a message whose hold was granted has its
flag, as long as its row is there. -/
structure HoldsSound (w : World env) (granted : Nat → Bool) : Prop where
  sound : w.Sound
  alone : w.tables.CollectedAlone
  requested : ∀ r q, w.holds r = some q → w.Given q.row.id
  given : ∀ id, granted id = true → w.Given id
  held : ∀ id, granted id = true → ∀ m ∈ w.db.messages, m.id = id → m.legalHold = true

theorem HoldsSound.init (env : Env) : (World.init env).HoldsSound fun _ => false where
  sound := .init env
  alone := fun r hr => absurd hr List.not_mem_nil
  requested := by
    intro r q hq
    cases hq
  given := by
    intro id hid
    cases hid
  held := by
    intro id hid
    cases hid

theorem RespectsHolds.counted {w w' : World env} {e : Event} (h : w.RespectsHolds e)
    (hs : w.step e = some w') : w.tables.CollectsCounted w'.tables := by
  refine collectsCounted hs fun he => ?_
  subst he
  exact h.2.1

/-- The flags after the answer of a request: as asked for its message, and
as before for the others. -/
theorem held_of_commitHold {w w' : World env} {granted : Nat → Bool} {r : Nat}
    (h : w.HoldsSound granted) (hcond : w.RespectsHolds (.commitHold r))
    (hs : w.step (.commitHold r) = some w') {id : Nat}
    (hid : w.grant granted (.commitHold r) id = true) :
    w.Given id ∧ ∀ m ∈ w'.db.messages, m.id = id → m.legalHold = true := by
  obtain ⟨q, hq, ⟨hflag, hstores, hgrant⟩ | ⟨hrow, hstores, hgrant⟩ | ⟨hstores, hgrant⟩⟩ :=
    commitHold_cases hs
  · have hdb : w'.db = w.db := congrArg Stores.db hstores
    rw [hgrant] at hid
    rw [hdb]
    by_cases hsame : id = q.row.id
    · subst hsame
      rw [Function.update_self] at hid
      exact ⟨h.requested r q hq, hcond q hq hid (hflag.trans hid)⟩
    · rw [Function.update_of_ne hsame] at hid
      exact ⟨h.given id hid, h.held id hid⟩
  · have hdb : w'.db = w.db.setHold q.row q.hold := congrArg Stores.db hstores
    rw [hgrant] at hid
    rw [hdb]
    by_cases hsame : id = q.row.id
    · subst hsame
      rw [Function.update_self] at hid
      refine ⟨h.requested r q hq, fun m hm hmid => ?_⟩
      -- ids are unique, so this is the row that was updated
      obtain ⟨m₀, hm₀, rfl⟩ := List.mem_map.mp hm
      obtain ⟨row, hrow, hrid, hsigned⟩ := hrow
      have hmid₀ : m₀.id = q.row.id := by
        split at hmid
        · exact hmid
        · exact hmid
      obtain rfl : m₀ = row :=
        List.inj_on_of_nodup_map h.sound.tables.rows.ids hm₀ hrow (hmid₀.trans hrid.symm)
      simp [hmid₀, hsigned, hid]
    · rw [Function.update_of_ne hsame] at hid
      refine ⟨h.given id hid, fun m hm hmid => ?_⟩
      obtain ⟨m₀, hm₀, rfl⟩ := List.mem_map.mp hm
      split at hmid
      · rename_i hhit
        exact absurd (hmid.symm.trans hhit.1) hsame
      · rename_i hmiss
        rw [if_neg hmiss]
        exact h.held id hid m₀ hm₀ hmid
  · have hdb : w'.db = w.db := congrArg Stores.db hstores
    rw [hgrant] at hid
    rw [hdb]
    exact ⟨h.given id hid, h.held id hid⟩

theorem grant_of_ne {w : World env} {granted : Nat → Bool} {e : Event}
    (he : ∀ r, e ≠ .commitHold r) : w.grant granted e = granted := by
  cases e with
  | commitHold r => exact absurd rfl (he r)
  | start | advance | fail | purge | readHold => rfl

theorem HoldsSound.step {w w' : World env} {granted : Nat → Bool} {e : Event}
    (h : w.HoldsSound granted) (hcond : w.RespectsHolds e) (hs : w.step e = some w') :
    w'.HoldsSound (w.grant granted e) := by
  have hpersist : ∀ id, w.Given id → w'.Given id := fun id hid => hid.step h.sound hs
  have hrequested : ∀ r q, w'.holds r = some q → w'.Given q.row.id := by
    intro r q hq
    rcases holds_of_step hs hq with ⟨q₀, hq₀, hrow⟩ | hrow
    · rw [hrow]
      exact hpersist _ (h.requested r q₀ hq₀)
    · exact hpersist _ (.of_mem h.sound hrow)
  have halone : w'.tables.CollectedAlone :=
    h.alone.step (tables_step h.sound.coherent hs) h.sound.tables (hcond.counted hs)
  by_cases hcommit : ∃ r, e = .commitHold r
  · obtain ⟨r, rfl⟩ := hcommit
    exact ⟨h.sound.step hs, halone, hrequested,
      fun id hid => hpersist id (held_of_commitHold h hcond hs hid).1,
      fun id hid => (held_of_commitHold h hcond hs hid).2⟩
  · have hne : ∀ r, e ≠ .commitHold r := fun r heq => hcommit ⟨r, heq⟩
    rw [grant_of_ne hne]
    refine ⟨h.sound.step hs, halone, hrequested, fun id hid => hpersist id (h.given id hid), ?_⟩
    intro id hid m hm hmid
    rcases mem_messages_of_step h.sound hs hne hm with hold | hnew
    · exact h.held id hid m hold hmid
    · exact absurd (hmid ▸ h.given id hid) hnew

/-! ## Nothing of a held message goes -/

theorem Keeps.of_same {w w' : World env} (hdb : w'.db = w.db) (hblobs : w'.blobs = w.blobs)
    (id : Nat) : w.Keeps w' id where
  row := fun m hm _ => ⟨m, hdb ▸ hm, .refl m⟩
  dedup := fun _ hd _ => hdb ▸ hd
  links := fun _ hl _ => hdb ▸ hl
  body := fun _ _ _ hsome => hblobs ▸ hsome
  attachments := fun _ _ _ _ _ _ hsome => hblobs ▸ hsome

/-- A step that is not the purge's removes nothing. -/
theorem Keeps.of_not_purge {w w' : World env} {e : Event} (hs : w.step e = some w')
    (he : e.isPurge = false) (id : Nat) : w.Keeps w' id := by
  have hg := grows_of_step hs he
  refine ⟨fun m hm _ => hg.messages m hm, fun d hd _ => hg.dedup d hd, fun l hl _ => ?_,
    fun m _ _ hsome => hg.blobs _ hsome, fun l _ _ a _ _ hsome => hg.blobs _ hsome⟩
  cases Move.of_step hs with
  | refused | start | fail => exact hl
  | advance hcall hmove =>
      rcases hmove.db with ⟨hdb, -⟩ | ⟨rows, i, -, hdb, -⟩
      · rw [setCall_db, hdb]
        exact hl
      · rw [setCall_db, hdb]
        exact List.mem_append_left _ hl
  | purge => cases he
  | hold hstores =>
      rcases hstores with rfl | ⟨row, on, rfl⟩
      · exact hl
      · exact hl

/-- A held message is not in the batch of a run that purges unheld ones. -/
theorem HoldsSound.not_batch {w : World env} {granted : Nat → Bool} (h : w.HoldsSound granted)
    (hfree : ∀ m ∈ w.db.messages, w.purge.Batch m.id → m.legalHold = false) {id : Nat}
    (hid : granted id = true) : ¬w.purge.Batch id := by
  intro hbatch
  cases hq : w.purge with
  | idle | loading =>
      rw [hq] at hbatch
      exact hbatch
  | running done todo =>
      obtain ⟨expired, mem, hloaded, hplan⟩ := h.sound.running hq
      have hmem : id ∈ batchIds expired := (hloaded.batch_iff hplan).mp (hq ▸ hbatch)
      obtain ⟨x, hx, hxid⟩ := mem_batchIds.mp hmem
      obtain ⟨m, hm, hsame⟩ := hloaded.row x hx
      have hmid : m.id = id := hsame.id.trans hxid
      have hheld := h.held id hid m hm hmid
      rw [hfree m hm (hmid.symm ▸ hbatch)] at hheld
      cases hheld

/-- A statement of the purge deletes no blob of a held message. -/
theorem HoldsSound.spares {w : World env} {granted : Nat → Bool} (h : w.HoldsSound granted)
    (hcond : w.RespectsHolds (.purge .advance)) {done todo : List Statement} {st : Statement}
    (hq : w.purge = .running done (st :: todo)) {sha : String} (hdel : st.deletes = some sha)
    {id : Nat} (hid : granted id = true) :
    (∀ m ∈ w.db.messages, m.id = id → m.bodySha256 ≠ sha)
      ∧ ∀ l ∈ w.db.messageAttachments, l.messageId = id →
          ∀ a ∈ w.db.attachments, a.id = l.attachmentId → a.sha256 ≠ sha := by
  obtain ⟨hfree, hcount, hapart⟩ := hcond
  have hnot := h.not_batch hfree hid
  obtain ⟨expired, mem, hloaded, hplan⟩ := h.sound.running hq
  have hnext : w.purge.next = some st := by rw [hq]; rfl
  have hst : st ∈ purgeMessages mem expired := by simp [← hplan]
  cases st with
  | decrement | deleteDedup | deleteMessage => cases hdel
  | deleteBody msg =>
      obtain rfl : msg.bodySha256 = sha := Option.some.inj hdel
      obtain ⟨x, hx, h' | h' | h'⟩ := (hloaded.mem_message rfl).mp hst
      · cases h'
        obtain ⟨m₀, hm₀, hsame⟩ := hloaded.row x hx
        constructor
        · intro m hm hmid heq
          -- equal bodies are equal hashes, and the batch's row is this one
          have hhash : m.archiveHash = m₀.archiveHash := by
            rw [← h.sound.bodySha256 hm, ← h.sound.bodySha256 hm₀, heq, hsame.bodySha256]
          obtain rfl : m = m₀ :=
            List.inj_on_of_nodup_map h.sound.tables.dedup.hashes hm hm₀ hhash
          refine hnot ?_
          rw [hq, hloaded.batch_iff hplan, mem_batchIds]
          exact ⟨x, hx, hsame.id.symm.trans hmid⟩
        · intro l _ _ a ha _
          exact hapart _ _ hnext hdel m₀ hm₀ a ha hsame.bodySha256
      · cases h'
      · cases h'
  | collect r =>
      obtain rfl : r.sha256 = sha := Option.some.inj hdel
      obtain ⟨a₀, ha₀, hid₀, hsha₀⟩ := hloaded.collected_row hst
      constructor
      · intro m hm _ heq
        exact hapart _ _ hnext hdel m hm a₀ ha₀ heq hsha₀
      · intro l hl hmid a ha haid heq
        -- the links of what is collected are all of the batch
        obtain rfl : a = a₀ :=
          List.inj_on_of_nodup_map h.sound.tables.shared.hashes ha ha₀ (heq.trans hsha₀.symm)
        refine hnot ?_
        have hview : ∀ b ∈ (done.foldl Statement.onDb w.db).attachments,
            b.sha256 = r.sha256 → b.refCount ≤ 0 := by
          have hcount' := hcount r hnext
          rwa [hq] at hcount'
        have hall : w.purge.Batch l.messageId :=
          h.alone.next h.sound.tables hq hview l hl (haid.symm.trans hid₀)
        rwa [hmid] at hall

/-- The commit of the purge removes nothing of a held message. -/
theorem HoldsSound.keeps_commit {w : World env} {granted : Nat → Bool} (h : w.HoldsSound granted)
    (hcond : w.RespectsHolds (.purge .advance)) {done : List Statement}
    (hq : w.purge = .running done []) {w' : World env}
    (hdb : w'.db = done.foldl Statement.onDb w.db) (hblobs : w'.blobs = w.blobs) {id : Nat}
    (hid : granted id = true) : w.Keeps w' id := by
  have hnot := h.not_batch hcond.1 hid
  obtain ⟨expired, mem, hloaded, hplan⟩ := h.sound.running hq
  have hout : id ∉ batchIds expired := by
    rw [← hloaded.batch_iff hplan, ← hq]
    exact hnot
  rw [List.append_nil] at hplan
  have hids := h.sound.tables.rows.ids
  refine ⟨fun m hm hmid => ⟨m, ?_, .refl m⟩, fun d hd hdid => ?_, fun l hl hlid => ?_,
    fun _ _ _ hsome => hblobs ▸ hsome, fun _ _ _ _ _ _ hsome => hblobs ▸ hsome⟩
  · rw [hdb, Statement.foldl_onDb_messages, List.mem_filter]
    refine ⟨hm, ?_⟩
    rw [Bool.not_eq_true', ← Bool.not_eq_true, List.any_eq_true, hplan,
      hloaded.removesMessage_iff hids hm, hmid]
    exact hout
  · have hmirror := h.sound.mirror
    rw [hmirror] at hd
    obtain ⟨m, hm, rfl⟩ := List.mem_map.mp hd
    rw [hdb, Statement.foldl_onDb_messageDedup, List.mem_filter, hmirror]
    refine ⟨List.mem_map_of_mem hm, ?_⟩
    have hmid : m.id = id := hdid
    rw [Bool.not_eq_true', ← Bool.not_eq_true, List.any_eq_true, hplan,
      hloaded.removesDedup_iff hids h.sound.tables.dedup.hashes hm, hmid]
    exact hout
  · rw [hdb, Statement.foldl_onDb_messageAttachments, List.mem_filter]
    refine ⟨hl, ?_⟩
    rw [Bool.not_eq_true', ← Bool.not_eq_true, List.any_eq_true, hplan, hloaded.removesLink_iff hl,
      not_or, hlid]
    refine ⟨?_, hout⟩
    rintro ⟨r, hr, hrid⟩
    have hdone : .collect r ∈ w.tables.purge.done := by
      show .collect r ∈ w.purge.done
      rw [hq]
      exact hplan ▸ hr
    exact hnot (hlid ▸ h.alone r hdone l hl hrid.symm)

theorem HoldsSound.keeps {w w' : World env} {granted : Nat → Bool} {e : Event}
    (h : w.HoldsSound granted) (hcond : w.RespectsHolds e) (hs : w.step e = some w') {id : Nat}
    (hid : granted id = true) : w.Keeps w' id := by
  cases hpurge : e.isPurge with
  | false => exact .of_not_purge hs hpurge id
  | true =>
      cases Move.of_step hs with
      | refused => exact .of_same rfl rfl id
      | start | advance | fail => cases hpurge
      | hold hstores he =>
          rw [he.2] at hpurge
          cases hpurge
      | @purge e s p hmove =>
          generalize hq : w.purge = q at hmove
          cases hmove with
          | select | load | begin | crash =>
              refine Keeps.of_same ?_ ?_ id
              · rfl
              · rfl
          | commit =>
              refine h.keeps_commit hcond hq ?_ ?_ hid
              · rfl
              · rfl
          | @execute done todo st locks hlocks =>
              have hblob : ∀ sha, st.deletes ≠ some sha → (w.blobs.lookup sha).isSome →
                  ((st.onBlobs w.blobs).lookup sha).isSome := by
                intro sha hne hsome
                rwa [Statement.lookup_onBlobs, if_neg hne]
              refine ⟨fun m hm _ => ⟨m, hm, .refl m⟩, fun _ hd _ => hd, fun _ hl _ => hl,
                fun m hm hmid => hblob _ fun hdel => ?_,
                fun l hl hlid a ha haid => hblob _ fun hdel => ?_⟩
              · exact (h.spares hcond hq hdel hid).1 m hm hmid rfl
              · exact (h.spares hcond hq hdel hid).2 l hl hlid a ha haid rfl

/-! ## Runs -/

theorem holdStep_eq_some {x x' : World env × (Nat → Bool)} {e : Event}
    (h : holdStep x e = some x') : x.1.step e = some x'.1 ∧ x'.2 = x.1.grant x.2 e := by
  unfold holdStep at h
  split at h
  · cases h
  · rename_i w' hs
    cases h
    exact ⟨hs, rfl⟩

/-- **A granted hold protects its message**: in a run whose every step
respects the holds, whatever the interleaving, no step that does so
removes the row, the dedup row, the links, the body or an attachment's
blob of a message whose hold was granted and not lifted. -/
theorem held_message_kept {es : List Event} {e : Event} {w : World env} {granted : Nat → Bool}
    {x' : World env × (Nat → Bool)}
    (hrun : run holdStep (World.init env, fun _ => false) es = some (w, granted))
    (hmeets : Meets holdStep (fun x e => x.1.RespectsHolds e)
      (World.init env, fun _ => false) es)
    (hcond : w.RespectsHolds e) (hs : holdStep (w, granted) e = some x') :
    ∀ id, granted id = true → w.Keeps x'.1 id := by
  have hinv : w.HoldsSound granted := by
    refine run_invariant_of_meets (I := fun x : World env × (Nat → Bool) => x.1.HoldsSound x.2)
      ?_ hrun hmeets (.init env)
    intro x e x' hx he hs
    obtain ⟨hstep, hgrant⟩ := holdStep_eq_some hs
    rw [hgrant]
    exact hx.step he hstep
  intro id hid
  exact hinv.keeps hcond (holdStep_eq_some hs).1 hid

/-- One mail. The retention run has selected it when its hold is granted,
and goes on. -/
def lateHoldRun : List Event :=
  sampleCall 0 plainMail sampleTime 7
    ++ [.purge (.select sampleCutoff [sampleRow plainMail 1]), .purge .advance,
      .readHold 0 1 true, .commitHold 0, .purge .advance]

/-- The hold is granted, and the body goes. -/
theorem held_body_deleted : ∃ (w : World sampleEnv) (granted : Nat → Bool)
    (x' : World sampleEnv × (Nat → Bool)),
    run holdStep (World.init sampleEnv, fun _ => false) lateHoldRun = some (w, granted)
      ∧ holdStep (w, granted) (.purge .advance) = some x'
      ∧ granted 1 = true ∧ ¬w.Keeps x'.1 1 := by
  have hany : (run holdStep (World.init sampleEnv, fun _ => false) lateHoldRun).any (fun x =>
      x.2 1 && decide (x.1.db.messages.map (fun m => (m.id, m.bodySha256)) = [(1, hex plainDigest)])
        && (x.1.blobs.lookup (hex plainDigest)).isSome
        && (holdStep x (.purge .advance)).any fun x' =>
          (x'.1.blobs.lookup (hex plainDigest)).isNone) = true := by
    decide +kernel
  obtain ⟨⟨w, granted⟩, hrun, hx⟩ := (Option.any_eq_true _ _).mp hany
  simp only [Bool.and_eq_true, decide_eq_true_eq] at hx
  obtain ⟨⟨⟨hgranted, hrows⟩, hbody⟩, hnext⟩ := hx
  obtain ⟨x', hs, hgone⟩ := (Option.any_eq_true _ _).mp hnext
  refine ⟨w, granted, x', hrun, hs, hgranted, fun hkeeps => ?_⟩
  have hmem : (1, hex plainDigest) ∈ w.db.messages.map fun m => (m.id, m.bodySha256) := by
    rw [hrows]
    exact List.mem_singleton_self _
  obtain ⟨m, hm, hfacts⟩ := List.mem_map.mp hmem
  obtain ⟨hid, hsha⟩ := Prod.mk.inj hfacts
  have hkept := hkeeps.body m hm hid (by rwa [hsha])
  rw [hsha, Option.isNone_iff_eq_none.mp hgone] at hkept
  cases hkept

/-- `RespectsHolds`, computed. -/
def respectsHolds (w : World env) : Event → Bool
  | .commitHold r =>
      (w.holds r).all fun q => !(q.hold && q.row.legalHold)
        || w.db.messages.all fun m => m.id ≠ q.row.id || m.legalHold
  | .purge .advance =>
      (match w.purge with
        | .running done todo =>
            w.db.messages.all fun m => !m.legalHold || (done ++ todo).all fun st =>
              match st with
              | .deleteMessage msg _ => msg.id ≠ m.id
              | _ => true
        | _ => true)
        && (match w.purge.next with
          | some (.collect r) =>
              (w.purge.done.foldl Statement.onDb w.db).attachments.all fun a =>
                a.sha256 ≠ r.sha256 || a.refCount ≤ 0
          | _ => true)
        && (match w.purge.next.bind Statement.deletes with
          | some sha => w.db.messages.all fun m =>
              m.bodySha256 ≠ sha || w.db.attachments.all fun a => a.sha256 ≠ sha
          | none => true)
  | _ => true

theorem respectsHolds_sound {w : World env} {e : Event} (h : w.respectsHolds e = true) :
    w.RespectsHolds e := by
  cases e with
  | start | advance | fail | readHold => trivial
  | commitHold r =>
      intro q hq hhold hflag m hm hmid
      simp only [respectsHolds, hq, Option.all_some, hhold, hflag, Bool.and_self, Bool.not_true,
        Bool.false_or, List.all_eq_true] at h
      simpa [hmid] using h m hm
  | purge e =>
      cases e with
      | select | crash => trivial
      | advance =>
          simp only [respectsHolds, Bool.and_eq_true] at h
          obtain ⟨⟨hfree, hcount⟩, hapart⟩ := h
          refine ⟨fun m hm hbatch => ?_, fun r hnext a ha hsha => ?_,
            fun st sha hnext hdel m hm a ha hbody hsha => ?_⟩
          · cases hq : w.purge with
            | idle | loading =>
                rw [hq] at hbatch
                exact hbatch.elim
            | running done todo =>
                rw [hq] at hbatch
                obtain ⟨msg, ids, hst, hid⟩ := hbatch
                simp only [hq, List.all_eq_true] at hfree
                cases hheld : m.legalHold with
                | false => rfl
                | true =>
                    have hall := hfree m hm
                    simp only [hheld, Bool.not_true, Bool.false_or, List.all_eq_true] at hall
                    simpa [hid] using hall _ hst
          · simp only [hnext, List.all_eq_true] at hcount
            simpa [hsha] using hcount a ha
          · simp only [hnext, Option.bind_some, hdel, List.all_eq_true] at hapart
            have hall := hapart m hm
            simp only [hbody, ne_eq, not_true_eq_false, decide_false, Bool.false_or,
              List.all_eq_true] at hall
            simpa [hsha] using hall a ha

/-- Two mails; the hold of the first is granted before the retention run,
which selects the second. -/
def earlyHoldRun : List Event :=
  sampleCall 0 plainMail sampleTime 7 ++ sampleCall 1 (attachmentMail "s" "z") sampleTime 9
    ++ [.readHold 0 1 true, .commitHold 0,
      .purge (.select sampleCutoff [sampleRow (attachmentMail "s" "z") 2])]
    ++ List.replicate 7 (.purge .advance)

/-- The commit that removes the second keeps all of the first. -/
theorem held_message_kept_early : ∃ (w : World sampleEnv) (granted : Nat → Bool)
    (x' : World sampleEnv × (Nat → Bool)),
    run holdStep (World.init sampleEnv, fun _ => false) earlyHoldRun = some (w, granted)
      ∧ holdStep (w, granted) (.purge .advance) = some x'
      ∧ granted 1 = true ∧ w.db.messages.map (·.id) = [1, 2] ∧ x'.1.db.messages.map (·.id) = [1]
      ∧ w.Keeps x'.1 1 := by
  have hany : (run holdStep (World.init sampleEnv, fun _ => false) earlyHoldRun).any (fun x =>
      x.2 1 && decide (x.1.db.messages.map (·.id) = [1, 2])
        && x.1.respectsHolds (.purge .advance)
        && (holdStep x (.purge .advance)).any fun x' =>
          decide (x'.1.db.messages.map (·.id) = [1])) = true := by
    decide +kernel
  have hall : meetsAll holdStep (fun x e => x.1.respectsHolds e)
      (World.init sampleEnv, fun _ => false) earlyHoldRun = true := by
    decide +kernel
  obtain ⟨⟨w, granted⟩, hrun, hx⟩ := (Option.any_eq_true _ _).mp hany
  simp only [Bool.and_eq_true, decide_eq_true_eq] at hx
  obtain ⟨⟨⟨hgranted, hids⟩, hcond⟩, hnext⟩ := hx
  obtain ⟨x', hs, hids'⟩ := (Option.any_eq_true _ _).mp hnext
  have hmeets : Meets holdStep (fun x e => x.1.RespectsHolds e)
      (World.init sampleEnv, fun _ => false) earlyHoldRun :=
    meets_of_check (fun _ _ h => respectsHolds_sound h) hall
  exact ⟨w, granted, x', hrun, hs, hgranted, hids, of_decide_eq_true hids',
    held_message_kept hrun hmeets (respectsHolds_sound hcond) hs 1 hgranted⟩

end World

end MailArchiver

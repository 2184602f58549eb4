import MailArchiver.System.Soundness

/-!
# System — ImmutableBodies

A body is written under its archive hash before the hash is reserved in
`message_dedup`, and mails of one hash need not be the same bytes. So a
body stays what its row says as long as nobody writes other bytes under
its key, and the purge deletes no body but that of the row it purges
(`KeepsBodies`).
-/

namespace MailArchiver

open Transition

variable {env : Env}

/-- The statement deletes the body of the message `id`. -/
def Statement.isBodyOf (id : Nat) : Statement → Bool
  | .deleteBody msg => msg.id = id
  | _ => false

/-- The purge under way has deleted the body of the message `id`. -/
def Purge.bodyDeleted (p : Purge) (id : Nat) : Bool := p.done.any (·.isBodyOf id)

namespace World

/-- The call relies on the body under its archive hash: it has written it
and will commit, or it has committed a row that is not being purged. -/
def holdsBody (w : World env) (call : Call env) : Bool :=
  call.pc.bodyWritten ||
    call.committed.any fun id =>
      w.db.messages.any (fun m => m.id = id) && !w.purge.bodyDeleted id

/-- What is written under the key of a body somebody relies on is that
body; what the purge deletes is nobody's body but the purged message's;
and it does not die when it has deleted a body. -/
def KeepsBodies (w : World env) : Event → Prop
  | .advance c _ _ =>
      ∀ call sha plaintext, w.calls c = some call → call.writes = some (sha, plaintext) →
        ∀ c' call', w.calls c' = some call' → w.holdsBody call' = true →
          call'.job.archiveHash = sha → call'.job.mail.raw = plaintext
  | .purge .advance =>
      ∀ st sha, w.purge.next = some st → st.deletes = some sha →
        ∀ c' call', w.calls c' = some call' → w.holdsBody call' = true →
          call'.job.archiveHash = sha →
            call'.committed.any (fun id => st.isBodyOf id) = true
  | .purge .crash => ∀ id, w.purge.bodyDeleted id = false
  | _ => True

/-- The blob of a message is what the call that committed the row was
given, and so is its size. -/
def BodyKept (w : World env) (m : Message) : Prop :=
  ∃ c call, w.calls c = some call ∧ call.committed = some m.id
    ∧ (∀ c' call', w.calls c' = some call' → call'.committed = some m.id → c' = c)
    ∧ (∃ blob, w.blobs.lookup m.archiveHash = some blob
        ∧ unsealBytes env.prims blob = .ok call.job.mail.raw)
    ∧ m.sizeBytes = call.job.mail.raw.length

/-- Whoever relies on a body finds it. -/
def BodiesHeld (w : World env) : Prop :=
  ∀ c call, w.calls c = some call → w.holdsBody call = true →
    ∃ blob, w.blobs.lookup call.job.archiveHash = some blob
      ∧ unsealBytes env.prims blob = .ok call.job.mail.raw

theorem holdsBody_iff {w : World env} {call : Call env} : w.holdsBody call = true ↔
    call.pc.bodyWritten = true ∨ ∃ id, call.committed = some id
      ∧ (∃ m ∈ w.db.messages, m.id = id) ∧ w.purge.bodyDeleted id = false := by
  simp [holdsBody, Option.any_eq_true]

/-- A body stays through a step, unless it is that of a message the purge
deletes. -/
theorem BodiesHeld.stays {w w' : World env} {e : Event} (h : w.BodiesHeld)
    (hlaws : SealingLaws env.prims) (hs : w.step e = some w') (hcond : w.KeepsBodies e)
    {c : Nat} {call : Call env} (hcall : w.calls c = some call)
    (hholds : w.holdsBody call = true) :
    (∃ blob, w'.blobs.lookup call.job.archiveHash = some blob
        ∧ unsealBytes env.prims blob = .ok call.job.mail.raw)
      ∨ ∃ st id, e = .purge .advance ∧ w.purge.next = some st ∧ call.committed = some id
          ∧ st.isBodyOf id = true := by
  obtain ⟨blob, hlookup, hraw⟩ := h c call hcall hholds
  generalize hb : w'.blobs = blobs
  have hstep := BlobStep.of_step hs
  rw [hb] at hstep
  cases hstep with
  | same => exact .inl ⟨blob, hlookup, hraw⟩
  | @put c₀ draw draw' published call₀ sha plaintext blob' hcall₀ hwrites hblob =>
      by_cases hsha : call.job.archiveHash = sha
      · -- written over, with the same bytes
        have hsame := hcond call₀ sha plaintext hcall₀ hwrites c call hcall hholds hsha
        rw [hsha, BlobStore.lookup_put_self]
        exact .inl ⟨blob', rfl, hsame ▸ unsealBytes_sealed env.prims hlaws hblob⟩
      · rw [BlobStore.lookup_put_ne _ _ hsha]
        exact .inl ⟨blob, hlookup, hraw⟩
  | @delete st hnext =>
      rw [Statement.lookup_onBlobs]
      by_cases hdel : st.deletes = some call.job.archiveHash
      · obtain ⟨id, hid, hbody⟩ := (Option.any_eq_true _ _).mp
          (hcond st _ hnext hdel c call hcall hholds rfl)
        exact .inr ⟨st, id, rfl, hnext, hid, hbody⟩
      · rw [if_neg hdel]
        exact .inl ⟨blob, hlookup, hraw⟩

theorem bodyDeleted_of_done_nil {p : Purge} (h : p.done = []) (id : Nat) :
    p.bodyDeleted id = false := by
  rw [Purge.bodyDeleted, h, List.any_nil]

/-- A purge that commits removes the messages whose bodies it deleted. -/
theorem bodyDeleted_of_purged {w : World env} (hsound : w.Sound) {done : List Statement}
    (hp : w.purge = .running done []) {m : Message}
    (hm : m ∈ (done.foldl Statement.onDb w.db).messages) : w.purge.bodyDeleted m.id = false := by
  obtain ⟨expired, mem, hloaded, hplan⟩ := hsound.running hp
  rw [List.append_nil] at hplan
  subst hplan
  rw [Statement.foldl_onDb_messages, List.mem_filter] at hm
  obtain ⟨hm, hstays⟩ := hm
  rw [Bool.not_eq_true', ← Bool.not_eq_true, List.any_eq_true,
    hloaded.removesMessage_iff hsound.tables.rows.ids hm, mem_batchIds] at hstays
  rw [← Bool.not_eq_true, hp, Purge.bodyDeleted, List.any_eq_true]
  rintro ⟨st, hst, hbody⟩
  cases st with
  | deleteBody msg =>
      obtain ⟨x, hx, h' | h' | h'⟩ := (hloaded.mem_message rfl).mp hst
      · cases h'
        exact hstays ⟨x, hx, of_decide_eq_true hbody⟩
      · cases h'
      · cases h'
  | decrement | collect | deleteDedup | deleteMessage => cases hbody

/-- Who relies on its body after a call has moved did so before, or has
just written it. -/
theorem holdsBody_of_advance {w : World env} (hsound : w.Sound) {c : Nat} {call call' : Call env}
    {s : Stores} (hcall : w.calls c = some call)
    (hmove : MailArchiver.Move w.stores c call s call') {c₁ : Nat} {call₁ : Call env}
    (hcall₁ : (w.setCall c s call').calls c₁ = some call₁)
    (hholds : (w.setCall c s call').holdsBody call₁ = true) :
    (∃ call₀, w.calls c₁ = some call₀ ∧ call₁.job = call₀.job ∧ w.holdsBody call₀ = true)
      ∨ ∃ draw blob, sealed env.prims draw call₁.job.mail.raw = .ok blob
          ∧ s.blobs = w.blobs.put call₁.job.archiveHash blob := by
  rcases setCall_calls_cases hcall₁ with ⟨rfl, rfl⟩ | ⟨hne, hold⟩
  · -- the call that moved
    rcases holdsBody_iff.mp hholds with hw | ⟨id, hcom, ⟨m, hm, hid⟩, hdel⟩
    · rcases hmove.bodyWritten hw with hbefore | ⟨-, draw, blob, hblob, hblobs⟩
      · exact .inl ⟨call, hcall, hmove.job, holdsBody_iff.mpr (.inl hbefore)⟩
      · rw [hmove.job]
        exact .inr ⟨draw, blob, hblob, hblobs⟩
    · refine .inl ⟨call, hcall, hmove.job, holdsBody_iff.mpr ?_⟩
      rcases hmove.db with ⟨hdb, hsame⟩ | ⟨rows, id', hpc, -, -⟩
      · rw [setCall_db, hdb] at hm
        exact .inr ⟨id, hsame.symm.trans hcom, ⟨m, hm, hid⟩, hdel⟩
      · exact .inl (by simp [hpc, Pc.bodyWritten])
  · -- another call: no row of its own has come
    refine .inl ⟨call₁, hold, rfl, holdsBody_iff.mpr ?_⟩
    rcases holdsBody_iff.mp hholds with hw | ⟨id, hcom, ⟨m, hm, hid⟩, hdel⟩
    · exact .inl hw
    · refine .inr ⟨id, hcom, ?_, hdel⟩
      rw [setCall_db] at hm
      rcases hmove.db with ⟨hdb, -⟩ | ⟨rows, id', hpc, hdb, -⟩
      · rw [hdb] at hm
        exact ⟨m, hm, hid⟩
      · rw [hdb] at hm
        rcases List.mem_append.mp hm with hm | hm
        · exact ⟨m, hm, hid⟩
        · obtain rfl := List.mem_singleton.mp hm
          obtain rfl : id' = id := hid
          exact absurd hcom (hsound.committed_ne hcall hpc hold)

/-- Who relies on its body after the purge has moved did so before, and it
is not the body the purge has deleted. -/
theorem holdsBody_of_purge {w : World env} (hsound : w.Sound) {e : PurgeEvent} {s : Stores}
    {p : Purge} (hmove : Purge.Move w.stores w.purge e s p) (hcond : w.KeepsBodies (.purge e))
    {c : Nat} {call : Call env} (hcall : w.calls c = some call)
    (hholds : ({ w with stores := s, purge := p } : World env).holdsBody call = true) :
    w.holdsBody call = true ∧ ∀ st id, w.purge.next = some st → e = .advance →
      call.committed = some id → st.isBodyOf id = false := by
  rcases holdsBody_iff.mp hholds with hw | ⟨id, hcom, ⟨m, hm, hid⟩, hdel⟩
  · -- a call that will commit has no row to purge
    refine ⟨holdsBody_iff.mpr (.inl hw), fun st id _ _ hcom => ?_⟩
    rw [(hsound.coherent c call hcall).committed_none hw] at hcom
    cases hcom
  · change m ∈ s.db.messages at hm
    change p.bodyDeleted id = false at hdel
    have hrow : m ∈ w.db.messages → w.purge.bodyDeleted id = false → w.holdsBody call = true :=
      fun hm hdel => holdsBody_iff.mpr (.inr ⟨id, hcom, ⟨m, hm, hid⟩, hdel⟩)
    generalize hq : w.purge = q at hmove
    cases hmove with
    | select | load | begin =>
        refine ⟨hrow hm (by rw [hq]; exact bodyDeleted_of_done_nil rfl id), fun st id' hnext => ?_⟩
        cases hnext
    | @execute done todo st locks hlocks =>
        rw [Purge.bodyDeleted, Purge.done, List.any_append, Bool.or_eq_false_iff] at hdel
        refine ⟨hrow hm (by rw [hq]; exact hdel.1), fun st' id' hnext _ hcom' => ?_⟩
        obtain rfl : st = st' := Option.some.inj hnext
        obtain rfl : id = id' := Option.some.inj (hcom.symm.trans hcom')
        simpa using hdel.2
    | @commit done =>
        change m ∈ (done.foldl Statement.onDb w.db).messages at hm
        have hstill : w.purge.bodyDeleted id = false := hid ▸ bodyDeleted_of_purged hsound hq hm
        rw [Statement.foldl_onDb_messages] at hm
        refine ⟨hrow (List.mem_of_mem_filter hm) hstill, fun st id' hnext => ?_⟩
        cases hnext
    | crash hp =>
        refine ⟨hrow hm (hcond id), fun st id' _ he => ?_⟩
        cases he

theorem BodiesHeld.step {w w' : World env} {e : Event} (h : w.BodiesHeld)
    (hlaws : SealingLaws env.prims) (hsound : w.Sound) (hs : w.step e = some w')
    (hcond : w.KeepsBodies e) : w'.BodiesHeld := by
  -- who relied on its body before has it after the step, unless the purge moved
  have hstays : ∀ c call, w.calls c = some call → w.holdsBody call = true →
      e ≠ .purge .advance → ∃ blob, w'.blobs.lookup call.job.archiveHash = some blob
        ∧ unsealBytes env.prims blob = .ok call.job.mail.raw := by
    intro c call hcall hholds he
    rcases h.stays hlaws hs hcond hcall hholds with hbody | ⟨-, -, hpurge, -⟩
    · exact hbody
    · exact absurd hpurge he
  cases Move.of_step hs with
  | refused => exact h
  | @start c raw now signedAt job hfree hjob =>
      intro c₁ call₁ hcall₁ hholds
      rcases setCall_calls_cases hcall₁ with ⟨-, rfl⟩ | ⟨-, hold⟩
      · cases hholds
      · exact hstays c₁ call₁ hold hholds (by simp)
  | @fail c call hcall hpc =>
      intro c₁ call₁ hcall₁ hholds
      rcases setCall_calls_cases hcall₁ with ⟨-, rfl⟩ | ⟨-, hold⟩
      · refine hstays c call hcall ?_ (by simp)
        rcases holdsBody_iff.mp hholds with hw | hrow
        · cases hw
        · exact holdsBody_iff.mpr (.inr hrow)
      · exact hstays c₁ call₁ hold hholds (by simp)
  | @advance c draw published call call' s hcall hmove =>
      intro c₁ call₁ hcall₁ hholds
      rcases holdsBody_of_advance hsound hcall hmove hcall₁ hholds with
        ⟨call₀, hcall₀, hjob, hbefore⟩ | ⟨draw', blob, hblob, hblobs⟩
      · rw [hjob]
        exact hstays c₁ call₀ hcall₀ hbefore (by simp)
      · refine ⟨blob, ?_, unsealBytes_sealed env.prims hlaws hblob⟩
        show s.blobs.lookup _ = some blob
        rw [hblobs, BlobStore.lookup_put_self]
  | @purge e s p hmove =>
      intro c call hcall hholds
      obtain ⟨hbefore, hnot⟩ := holdsBody_of_purge hsound hmove hcond hcall hholds
      rcases h.stays hlaws hs hcond hcall hbefore with hbody | ⟨st, id, he, hnext, hcom, hdel⟩
      · exact hbody
      · cases he
        rw [hnot st id hnext rfl hcom] at hdel
        cases hdel
  | @hold e r q s hstores he =>
      intro c call hcall hholds
      refine hstays c call hcall (holdsBody_iff.mpr ?_) ?_
      · rcases holdsBody_iff.mp hholds with hw | ⟨id, hcom, ⟨m, hm, hid⟩, hdel⟩
        · exact .inl hw
        · refine .inr ⟨id, hcom, ?_, hdel⟩
          rcases hstores with rfl | ⟨row, on, rfl⟩
          · exact ⟨m, hm, hid⟩
          · obtain ⟨m₀, hm₀, hsame⟩ := exists_of_mem_setHold hm
            exact ⟨m₀, hm₀, hsame.id.symm.trans hid⟩
      · rintro rfl
        cases he.2

/-- **An archived body is immutable**: in a run whose every step keeps the
bodies, from its commit until the purge reaches it a message's blob
unseals to the mail its call was given, of the size in its row. -/
theorem archived_body_immutable (hlaws : SealingLaws env.prims) {es : List Event} {w : World env}
    (hrun : run World.step (World.init env) es = some w)
    (hkeeps : Meets World.step World.KeepsBodies (World.init env) es) {m : Message}
    (hm : m ∈ w.db.messages) (hnot : w.purge.bodyDeleted m.id = false) : w.BodyKept m := by
  have hinv : w.Sound ∧ w.BodiesHeld := by
    refine run_invariant_of_meets (I := fun w : World env => w.Sound ∧ w.BodiesHeld)
      (fun w e w' ⟨hsound, hheld⟩ hcond hs => ?_) hrun hkeeps ⟨.init env, ?_⟩
    · exact ⟨hsound.step hs, hheld.step hlaws hsound hs hcond⟩
    · intro c call hcall
      cases hcall
  obtain ⟨hsound, hheld⟩ := hinv
  obtain ⟨c, call, hcall, hcom, hsame⟩ := hsound.origin hm
  obtain ⟨blob, hlookup, hraw⟩ :=
    hheld c call hcall (holdsBody_iff.mpr (.inr ⟨m.id, hcom, ⟨m, hm, rfl⟩, hnot⟩))
  refine ⟨c, call, hcall, hcom, fun c' call' hcall' hcom' => ?_, ⟨blob, ?_, hraw⟩,
    hsame.sizeBytes⟩
  · exact hsound.committed_inj hcall' hcom' hcall hcom
  · rw [hsame.archiveHash]
    exact hlookup

/-- Two mails with one archive hash. The second has been checked before
the first is archived, and is written after. -/
def overwrittenRun : List Event :=
  sampleCall 1 tracedMail sampleNow 1 ++ sampleCall 0 plainMail sampleTime 7
    ++ List.replicate 5 (.advance 1 sampleDraw true)

/-- The row is that of the first mail, the body that of the second. -/
theorem archived_body_overwritten : SealingLaws sampleEnv.prims
    ∧ ∃ w, sampleRun overwrittenRun = some w
      ∧ (w.calls 0).map (·.pc) = some .returned ∧ (w.calls 1).map (·.pc) = some .returned
      ∧ ∃ m ∈ w.db.messages, w.purge.bodyDeleted m.id = false ∧ ¬w.BodyKept m := by
  have hany : (sampleRun overwrittenRun).any (fun w =>
      decide ((w.calls 0).map (·.pc) = some .returned)
        && decide ((w.calls 1).map (·.pc) = some .returned) && w.purge.isIdle
        && decide ((w.calls 0).map (fun call => (call.committed, call.job.mail.raw))
          = some (some 1, plainMail))
        && decide (w.db.messages.map (fun m => (m.id, m.archiveHash)) = [(1, hex plainDigest)])
        && decide (w.blobs.lookup (hex plainDigest) = some (sampleSealed tracedMail))) = true := by
    decide +kernel
  have hsealed : sealed sampleEnv.prims sampleDraw tracedMail = .ok (sampleSealed tracedMail) := by
    decide +kernel
  have hne : tracedMail ≠ plainMail := by decide +kernel
  obtain ⟨w, hrun, hw⟩ := (Option.any_eq_true _ _).mp hany
  simp only [Bool.and_eq_true, decide_eq_true_eq] at hw
  obtain ⟨⟨⟨⟨⟨h₀, h₁⟩, hidle⟩, hcall⟩, hrows⟩, hlookup⟩ := hw
  have hmem : (1, hex plainDigest) ∈ w.db.messages.map (fun m => (m.id, m.archiveHash)) :=
    hrows ▸ List.mem_singleton_self _
  obtain ⟨m, hm, hfacts⟩ := List.mem_map.mp hmem
  obtain ⟨hid, hhash⟩ := Prod.mk.inj hfacts
  refine ⟨sampleLaws, w, hrun, h₀, h₁, m, hm, ?_, ?_⟩
  · rw [Purge.eq_idle hidle]
    rfl
  · rintro ⟨c, call, hc, hcom, -, ⟨blob, hblob, hraw⟩, -⟩
    obtain ⟨call₀, hcall₀, hfacts₀⟩ := Option.map_eq_some_iff.mp hcall
    obtain ⟨hcom₀, hraw₀⟩ := Prod.mk.inj hfacts₀
    obtain rfl : 0 = c := (reachable_sound ⟨overwrittenRun, hrun⟩).committed_inj hcall₀ hcom₀ hc
      (hcom.trans (congrArg some hid))
    obtain rfl : call₀ = call := Option.some.inj (hcall₀.symm.trans hc)
    rw [hhash, hlookup] at hblob
    obtain rfl := Option.some.inj hblob
    rw [unsealBytes_sealed sampleEnv.prims sampleLaws hsealed, hraw₀] at hraw
    exact hne (Except.ok.inj hraw)

/-- `KeepsBodies`, computed in a world of two calls without a purge. -/
def keepsBodies (w : World env) (e : Event) : Bool :=
  e.below 2 &&
    match e with
    | .advance c _ _ =>
        match (w.calls c).bind Call.writes with
        | none => true
        | some (sha, plaintext) => (List.range 2).all fun c' => (w.calls c').all fun call' =>
            !w.holdsBody call' || call'.job.archiveHash ≠ sha || call'.job.mail.raw = plaintext
    | .purge _ => false
    | _ => true

theorem keepsBodies_sound {w : World env} {e : Event} (hw : w.CallsBelow 2)
    (h : w.keepsBodies e = true) : w.KeepsBodies e := by
  unfold keepsBodies at h
  cases e with
  | start | fail | readHold | commitHold => trivial
  | purge => cases h
  | advance c draw published =>
      intro call sha plaintext hcall hwrites c' call' hcall' hholds hsha
      simp only [Event.below, Bool.true_and, hcall, Option.bind_some, hwrites,
        List.all_eq_true] at h
      by_cases hc : c' < 2
      · have hall := h c' (List.mem_range.mpr hc)
        simpa [hcall', hholds, hsha] using hall
      · rw [hw c' (by omega)] at hcall'
        cases hcall'

/-- One mail, written twice. -/
def rewrittenRun : List Event :=
  sampleCall 1 plainMail sampleNow 1 ++ sampleCall 0 plainMail sampleTime 7
    ++ List.replicate 5 (.advance 1 sampleDraw true)

/-- The same bytes do no harm. -/
theorem archived_body_immutable_rewritten : ∃ w, sampleRun rewrittenRun = some w
    ∧ w.db.messages.map (·.id) = [1] ∧ ∀ m ∈ w.db.messages, w.BodyKept m := by
  have hany : (sampleRun rewrittenRun).any (fun w =>
      w.purge.isIdle && decide (w.db.messages.map (·.id) = [1])) = true := by
    decide +kernel
  have hmeets : meetsAll World.step keepsBodies (World.init sampleEnv) rewrittenRun = true := by
    decide +kernel
  obtain ⟨w, hrun, hw⟩ := (Option.any_eq_true _ _).mp hany
  simp only [Bool.and_eq_true, decide_eq_true_eq] at hw
  have hkeeps : Meets World.step KeepsBodies (World.init sampleEnv) rewrittenRun := by
    refine meets_of_meetsAll (I := CallsBelow 2) ?_ (fun w e hw h => keepsBodies_sound hw h)
      (fun c _ => rfl) hmeets
    intro w e w' hw h hs
    unfold keepsBodies at h
    exact hw.step (Bool.and_eq_true_iff.mp h).1 hs
  refine ⟨w, hrun, hw.2, fun m hm => archived_body_immutable sampleLaws hrun hkeeps hm ?_⟩
  rw [Purge.eq_idle hw.1]
  rfl

end World

end MailArchiver

import MailArchiver.System.Soundness

/-!
# System — SharedAttachments

The garbage collection of shared attachments against archiving. A purge
acts on the counts it has loaded and on a bucket that does not roll back;
so what it collects has to be without reference, in its own view of the
tables and among the workers, at the moment its blob goes
(`CollectsSafely`). Then no message that stays loses an attachment.
-/

namespace MailArchiver

open Tables Transition

variable {env : Env}

/-- The archived message `m` has a link, an attachment row and a blob for
each attachment of the mail it was made of. -/
def World.AttachmentsKept (w : World env) (m : Message) : Prop :=
  ∃ c call, w.calls c = some call ∧ call.committed = some m.id
    ∧ m.SameArchive (call.job.msgRow m.id)
    ∧ ∀ sha ∈ call.job.attHashes, ∃ a ∈ w.db.attachments, a.sha256 = sha
      ∧ (⟨m.id, a.id⟩ : MessageAttachment) ∈ w.db.messageAttachments
      ∧ (w.blobs.lookup sha).isSome

/-- Nobody refers to the blob: no worker has written it and not
committed, and the tables, as the purge sees them, count no reference. -/
def World.Unreferenced (w : World env) (sha : String) : Prop :=
  (∀ c call, w.calls c = some call → sha ∉ call.pc.attachmentsWritten)
    ∧ ∀ a ∈ (w.purge.done.foldl Statement.onDb w.db).attachments,
        a.sha256 = sha → a.refCount ≤ 0

/-- The purge deletes blobs nobody refers to, and does not die when it
has deleted one that the tables, without it, refer to. -/
def World.CollectsSafely (w : World env) : Event → Prop
  | .purge .advance =>
      ∀ st sha, w.purge.next = some st → st.deletes = some sha → w.Unreferenced sha
  | .purge .crash =>
      ∀ st ∈ w.purge.done, ∀ a ∈ w.db.attachments, st.deletes = some a.sha256 → a.refCount ≤ 0
  | _ => True

/-! ## The links -/

/-- The committed messages have their links. -/
def Tables.Linked (k : Tables env) : Prop :=
  ∀ c tx id, k.txs c = some tx → tx.committed = some id → (∃ m ∈ k.db.messages, m.id = id) →
    ∀ sha ∈ tx.job.attHashes, ∃ a ∈ k.db.attachments, a.sha256 = sha
      ∧ (⟨id, a.id⟩ : MessageAttachment) ∈ k.db.messageAttachments

/-- The messages a purge is to remove. -/
def Purge.Batch : Purge → Nat → Prop
  | .running done todo, id => ∃ msg ids, .deleteMessage msg ids ∈ done ++ todo ∧ msg.id = id
  | _, _ => False

/-- What the purge has collected is linked to messages of its batch only. -/
def Tables.CollectedAlone (k : Tables env) : Prop :=
  ∀ r, .collect r ∈ k.purge.done → ∀ l ∈ k.db.messageAttachments,
    l.attachmentId = r.id → k.purge.Batch l.messageId

/-- The condition on a collection, on the tables. -/
def Tables.CollectsCounted (k k' : Tables env) : Prop :=
  ∀ done r todo, k.purge = .running done (.collect r :: todo) →
    k'.purge = .running (done ++ [.collect r]) todo →
    ∀ a ∈ (done.foldl Statement.onDb k.db).attachments, a.sha256 = r.sha256 → a.refCount ≤ 0

theorem Loaded.batch_iff {db : Db} {expired : List (Message × List Nat)} {mem : IdentityMap}
    (h : Loaded db expired mem []) {done todo : List Statement}
    (hplan : done ++ todo = purgeMessages mem expired) {id : Nat} :
    (Purge.running done todo).Batch id ↔ id ∈ batchIds expired := by
  rw [Purge.Batch, hplan, mem_batchIds]
  constructor
  · rintro ⟨msg, ids, hst, hid⟩
    obtain ⟨x, hx, h' | h' | h'⟩ := (h.mem_message rfl).mp hst
    · cases h'
    · cases h'
    · cases h'
      exact ⟨x, hx, hid⟩
  · rintro ⟨x, hx, hid⟩
    exact ⟨x.1, x.2, (h.mem_message rfl).mpr ⟨x, hx, .inr (.inr rfl)⟩, hid⟩

/-- What the purge collects next, without reference in its own view, is
linked to messages of its batch only. -/
theorem Tables.CollectedAlone.next {k : Tables env} (hcol : k.CollectedAlone) (h : Sound k)
    {done todo : List Statement} {r : Attachment} (hrun : k.purge = .running done (.collect r :: todo))
    (hcount : ∀ a ∈ (done.foldl Statement.onDb k.db).attachments,
      a.sha256 = r.sha256 → a.refCount ≤ 0) :
    ∀ l ∈ k.db.messageAttachments, l.attachmentId = r.id → k.purge.Batch l.messageId := by
  intro l hl hid
  -- the row is still there, unless it has been collected before
  obtain ⟨expired, mem, hloaded, hplan, -⟩ := h.running hrun
  have hmem : .collect r ∈ purgeMessages mem expired := by simp [← hplan]
  obtain ⟨a, ha, haid, hsha⟩ := hloaded.collected_row hmem
  by_cases hagain : ∃ r', .collect r' ∈ done ∧ r'.id = a.id
  · obtain ⟨r', hr', hid'⟩ := hagain
    exact hcol r' (by rw [hrun]; exact hr') l hl (by rw [hid, hid', haid])
  · have hzero := hcount (Statement.counted done a)
      (mem_foldl_onDb_attachments.mpr ⟨a, ha, hagain, rfl⟩) hsha
    -- so the decrements, at most one for each link of the batch, are all its links
    have hcounts := h.shared.counts a ha
    rw [Db.linksTo] at hcounts
    have hdec : done.count (.decrement a.id) ≤ (purgeMessages mem expired).count
        (.decrement a.id) := by
      rw [← hplan, List.count_append]
      omega
    rw [hloaded.count_decrement h.shared.links] at hdec
    simp only [Statement.counted] at hzero
    rw [hrun, hloaded.batch_iff hplan]
    refine @Table.of_countP_le _ _ (fun l => l.attachmentId = a.id)
      (fun l => l.messageId ∈ batchIds expired) _ _ ?_ l hl (hid.trans haid.symm)
    show k.db.messageAttachments.countP _ ≤ k.db.messageAttachments.countP _
    omega

theorem Tables.CollectedAlone.step {k k' : Tables env} (hs : Step k k') (h : Sound k)
    (hcol : k.CollectedAlone) (hcond : k.CollectsCounted k') : k'.CollectedAlone := by
  cases hs with
  | stutter | start | upsert | flush | reserve | rollback | hold => exact hcol
  | select | load | begin | purged | crash => exact fun r hr => absurd hr List.not_mem_nil
  | @commit c tx id htx hflushed hreserved hhashes =>
      intro r hr l hl hid
      rcases mem_archive_messageAttachments.mp hl with hl | ⟨r', hr', rfl⟩
      · exact hcol r hr l hl hid
      · -- the purge holds the lock of what it collects, and so does the call
        exfalso
        have hp := h.purge
        cases hrun : k.purge with
        | idle | loading =>
            have hr' : .collect r ∈ k.purge.done := hr
            rw [hrun] at hr'
            exact absurd hr' List.not_mem_nil
        | running done todo =>
            have hdone : .collect r ∈ k.purge.done := hr
            rw [hrun] at hp hdone
            obtain ⟨-, -, -, -, hlocked⟩ := hp
            obtain ⟨a, ha, haid, hlock⟩ := hlocked _ hdone
            have hsha := (h.shared.keyed a r' (.inl ha) (.inr ⟨c, tx, htx, hr'⟩)).mpr
              (haid.trans hid.symm)
            rw [hsha, h.shared.locked c tx r' htx hr'] at hlock
            cases hlock
  | @execute done todo st locks hrun hlocks =>
      have hsame : ∀ id, k.purge.Batch id → (Purge.running (done ++ [st]) todo).Batch id := by
        intro id hid
        rw [hrun] at hid
        simpa [Purge.Batch] using hid
      intro r hr l hl hid
      rcases List.mem_append.mp hr with hr | hr
      · exact hsame _ (hcol r (by rw [hrun]; exact hr) l hl hid)
      · rw [List.mem_singleton] at hr
        subst hr
        exact hsame _ (hcol.next h hrun (hcond done r todo hrun rfl) l hl hid)

/-- A transaction that archives nothing. -/
theorem Tables.Linked.withTx {k : Tables env} (h : k.Linked) {c : Nat} {tx' : Tx env}
    {messageSeq attachmentSeq : Nat} {locks : Locks} {purge : Purge}
    (hkeep : ∀ id, tx'.committed = some id →
      ∃ tx, k.txs c = some tx ∧ tx.committed = some id ∧ tx'.job = tx.job) :
    Linked ⟨k.db, messageSeq, attachmentSeq, locks, k.withTx c tx', purge⟩ := by
  intro c₁ tx₁ id htx₁ hcom hrow sha hsha
  rcases withTx_cases htx₁ with ⟨rfl, rfl⟩ | ⟨-, hold⟩
  · obtain ⟨tx, htx, hcom', hjob⟩ := hkeep id hcom
    exact h _ tx id htx hcom' hrow sha (hjob ▸ hsha)
  · exact h c₁ tx₁ id hold hcom hrow sha hsha

theorem Tables.Linked.step {k k' : Tables env} (hs : Step k k') (h : Sound k)
    (hcol : k.CollectedAlone) (hlinked : k.Linked) : k'.Linked := by
  cases hs with
  | stutter | select | load | begin | execute | crash => exact hlinked
  | start hfree =>
      refine hlinked.withTx fun id hcom => ?_
      cases hcom
  | upsert htx | flush htx | reserve htx | rollback htx =>
      exact hlinked.withTx fun id hcom => ⟨_, htx, hcom, rfl⟩
  | @commit c tx id htx hflushed hreserved hhashes =>
      intro c₁ tx₁ id₁ htx₁ hcom hrow sha hsha
      rcases withTx_cases htx₁ with ⟨rfl, rfl⟩ | ⟨-, hold⟩
      · -- the message archived by this commit
        obtain rfl : id = id₁ := Option.some.inj hcom
        rw [show (tx.ended (some id)).job.attHashes = tx.job.attHashes from rfl, ← hhashes] at hsha
        obtain ⟨r, hr, rfl⟩ := List.mem_map.mp hsha
        obtain ⟨a, ha, hid, hasha⟩ := h.shared.pending_row (m := tx.job.msgRow id) htx hr
        exact ⟨a, ha, hasha, mem_archive_messageAttachments.mpr (.inr ⟨r, hr, by rw [hid]; rfl⟩)⟩
      · obtain ⟨m, hm, hmid⟩ := hrow
        -- a message archived earlier keeps its rows, with the counts raised
        have hrow₁ : ∃ m ∈ k.db.messages, m.id = id₁ := by
          rcases List.mem_append.mp hm with hm | hm
          · exact ⟨m, hm, hmid⟩
          · obtain rfl := List.mem_singleton.mp hm
            obtain rfl : id = id₁ := hmid
            exact (h.rows.not_flushed_of_committed htx hflushed hold hcom).elim
        obtain ⟨a, ha, hasha, hl⟩ := hlinked c₁ tx₁ id₁ hold hcom hrow₁ sha hsha
        exact ⟨a.referred tx.pending, referred_mem_archive ha, hasha, List.mem_append_left _ hl⟩
  | @purged done hrun =>
      obtain ⟨expired, mem, hloaded, hplan, -⟩ := h.running hrun
      intro c₁ tx₁ id₁ htx₁ hcom hrow sha hsha
      obtain ⟨m, hm, hmid⟩ := hrow
      rw [Statement.foldl_onDb_messages, List.mem_filter] at hm
      obtain ⟨hm, hstays⟩ := hm
      -- a message that stays is none of the batch
      have hout : id₁ ∉ batchIds expired := by
        rw [← hmid, ← hloaded.removesMessage_iff h.rows.ids hm, ← hplan, List.append_nil,
          ← List.any_eq_true, Bool.not_eq_true, ← Bool.not_eq_true']
        exact hstays
      obtain ⟨a, ha, hasha, hl⟩ := hlinked c₁ tx₁ id₁ htx₁ hcom ⟨m, hm, hmid⟩ sha hsha
      -- a row is collected with its last carriers, and one of its carriers stays
      have hnot : ¬∃ r, .collect r ∈ done ∧ r.id = a.id := by
        rintro ⟨r, hr, hid⟩
        have hb := hcol r (by rw [hrun]; exact hr) _ hl hid.symm
        rw [hrun] at hb
        exact hout ((hloaded.batch_iff hplan).mp hb)
      refine ⟨_, mem_foldl_onDb_attachments.mpr ⟨a, ha, hnot, rfl⟩, hasha, ?_⟩
      rw [Statement.foldl_onDb_messageAttachments, List.mem_filter]
      refine ⟨hl, ?_⟩
      rw [Statement.counted_id, Bool.not_eq_true', ← Bool.not_eq_true, List.any_eq_true]
      rw [List.append_nil] at hplan
      rw [hplan] at hnot ⊢
      rw [hloaded.removesLink_iff hl, not_or]
      exact ⟨hnot, hout⟩
  | @hold row on =>
      intro c₁ tx₁ id₁ htx₁ hcom hrow sha hsha
      obtain ⟨m, hm, hmid⟩ := hrow
      -- a hold changes the row of its message, never its id
      obtain ⟨m₀, hm₀, hsame⟩ := exists_of_mem_setHold hm
      exact hlinked c₁ tx₁ id₁ htx₁ hcom ⟨m₀, hm₀, hsame.id.symm.trans hmid⟩ sha hsha

/-! ## The blobs -/

/-- The attachment blobs that have to be there. -/
structure World.SharedBlobs (w : World env) : Prop where
  /-- A worker has written it and will commit a reference. -/
  written : ∀ c call sha, w.calls c = some call → sha ∈ call.pc.attachmentsWritten →
    (w.blobs.lookup sha).isSome
  /-- Referred to, as the purge sees the tables. -/
  seen : ∀ a ∈ (w.purge.done.foldl Statement.onDb w.db).attachments, 0 < a.refCount →
    (w.blobs.lookup a.sha256).isSome
  /-- Referred to, as everybody else does, and not deleted by the purge. -/
  stored : ∀ a ∈ w.db.attachments, 0 < a.refCount →
    (∀ st ∈ w.purge.done, st.deletes ≠ some a.sha256) → (w.blobs.lookup a.sha256).isSome

/-- A row after a commit: its blob is among those the call has written, or
it is a row of before, with its count. -/
theorem mem_archive_cases {db : Db} {m : Message} {rows : List Attachment} {a : Attachment}
    (ha : a ∈ (db.archive m rows).attachments) :
    a.sha256 ∈ rows.map (·.sha256) ∨ a ∈ db.attachments := by
  rcases of_mem_archive_attachments ha with ⟨b, hb, rfl⟩ | ⟨r, hr, -, hsha, -⟩
  · by_cases hmem : b.sha256 ∈ rows.map (·.sha256)
    · exact .inl hmem
    · right
      have hsame : b.referred rows = b :=
        referred_of_ne fun r hr heq => hmem (List.mem_map.mpr ⟨r, hr, heq⟩)
      exact hsame.symm ▸ hb
  · exact .inl (hsha ▸ List.mem_map_of_mem hr)

/-- A statement of the purge raises no count. -/
theorem exists_of_mem_onDb {db : Db} {st : Statement} {a : Attachment}
    (ha : a ∈ (st.onDb db).attachments) :
    ∃ b ∈ db.attachments, b.sha256 = a.sha256 ∧ a.refCount ≤ b.refCount := by
  have ha' : a ∈ ([st].foldl Statement.onDb db).attachments := ha
  obtain ⟨b, hb, -, rfl⟩ := mem_foldl_onDb_attachments.mp ha'
  refine ⟨b, hb, rfl, ?_⟩
  simp only [Statement.counted]
  omega

/-- Whoever is referred to when the purge deletes is not what it deletes. -/
theorem World.SharedBlobs.stays {w w' : World env} {e : Event} (h : w.SharedBlobs)
    (hs : w.step e = some w') (hcond : w.CollectsSafely e) :
    (∀ c call sha, w.calls c = some call → sha ∈ call.pc.attachmentsWritten →
        (w'.blobs.lookup sha).isSome)
      ∧ ∀ a ∈ (w.purge.done.foldl Statement.onDb w.db).attachments, 0 < a.refCount →
        (w'.blobs.lookup a.sha256).isSome := by
  have hkeep : ∀ {sha : String}, (w.blobs.lookup sha).isSome → ¬w.Unreferenced sha →
      (w'.blobs.lookup sha).isSome := by
    intro sha hsome href
    refine (BlobStep.of_step hs).isSome hsome fun st he hnext hdel => ?_
    subst he
    exact href (hcond st sha hnext hdel)
  constructor
  · exact fun c call sha hcall hsha => hkeep (h.written c call sha hcall hsha)
      fun hun => hun.1 c call hcall hsha
  · intro a ha hpos
    refine hkeep (h.seen a ha hpos) fun hun => ?_
    have := hun.2 a ha rfl
    omega

theorem World.SharedBlobs.advance {w : World env} (h : w.SharedBlobs) {c : Nat} {draw : Draw}
    {published : Bool} {call call' : Call env} {s : Stores}
    (hs : w.step (.advance c draw published) = some (w.setCall c s call'))
    (hcall : w.calls c = some call) (hmove : MailArchiver.Move w.stores c call s call') :
    (w.setCall c s call').SharedBlobs := by
  obtain ⟨hwritten, hseen⟩ := h.stays hs trivial
  have hmono : ∀ {sha : String}, (w.blobs.lookup sha).isSome → (s.blobs.lookup sha).isSome :=
    fun hsome => (BlobStep.of_step hs).isSome hsome fun st he => by cases he
  -- after a commit, its rows have their blobs, and the other rows their counts
  have hrows : ∀ a ∈ s.db.attachments, (s.blobs.lookup a.sha256).isSome ∨ a ∈ w.db.attachments := by
    intro a ha
    rcases hmove.db with ⟨hdb, -⟩ | ⟨rows, id, hpc, hdb, -⟩
    · rw [hdb] at ha
      exact .inr ha
    · rw [hdb] at ha
      rcases mem_archive_cases ha with hmem | hold
      · exact .inl (hwritten c call _ hcall (by simpa [hpc, Pc.attachmentsWritten] using hmem))
      · exact .inr hold
  refine ⟨fun c₁ call₁ sha hcall₁ hsha => ?_, fun a' ha' hpos => ?_, fun a ha hpos hnot => ?_⟩
  · rcases World.setCall_calls_cases hcall₁ with ⟨-, rfl⟩ | ⟨-, hold⟩
    · rcases hmove.attachmentsWritten hsha with hsha | hsome
      · exact hwritten c call sha hcall hsha
      · exact hsome
    · exact hwritten c₁ call₁ sha hold hsha
  · obtain ⟨a, ha, hnot, rfl⟩ := mem_foldl_onDb_attachments.mp ha'
    rcases hrows a ha with hsome | hold
    · exact hsome
    · exact hseen _ (mem_foldl_onDb_attachments.mpr ⟨a, hold, hnot, rfl⟩) hpos
  · rcases hrows a ha with hsome | hold
    · exact hsome
    · exact hmono (h.stored a hold hpos hnot)

theorem World.SharedBlobs.purge {w : World env} (h : w.SharedBlobs) {e : PurgeEvent} {s : Stores}
    {p : Purge} (hs : w.step (.purge e) = some { w with stores := s, purge := p })
    (hmove : Purge.Move w.stores w.purge e s p) (hcond : w.CollectsSafely (.purge e)) :
    ({ w with stores := s, purge := p } : World env).SharedBlobs := by
  obtain ⟨hwritten, hseen⟩ := h.stays hs hcond
  generalize hq : w.purge = q at hmove
  have hnone : q.done = [] → ∀ a ∈ w.db.attachments, 0 < a.refCount →
      (w.blobs.lookup a.sha256).isSome := by
    intro hdone a ha hpos
    refine h.stored a ha hpos fun st hst => ?_
    rw [hq, hdone] at hst
    exact absurd hst List.not_mem_nil
  cases hmove with
  | select | load | begin =>
      exact ⟨h.written, hnone rfl, fun a ha hpos _ => hnone rfl a ha hpos⟩
  | @execute done todo st locks hlocks =>
      refine ⟨hwritten, fun a ha hpos => ?_, fun a ha hpos hnot => ?_⟩
      · rw [show (Purge.running (done ++ [st]) todo).done = done ++ [st] from rfl,
          List.foldl_append] at ha
        obtain ⟨b, hb, hsha, hle⟩ := exists_of_mem_onDb ha
        exact hsha ▸ hseen b (by rw [hq]; exact hb) (by omega)
      · have hst : st.deletes ≠ some a.sha256 := hnot st (by simp [Purge.done])
        show ((st.onBlobs w.blobs).lookup a.sha256).isSome
        rw [Statement.lookup_onBlobs, if_neg hst]
        refine h.stored a ha hpos fun st' hst' => hnot st' ?_
        rw [hq] at hst'
        exact List.mem_append_left _ hst'
  | @commit done =>
      rw [hq] at hseen
      exact ⟨hwritten, hseen, fun a ha hpos _ => hseen a ha hpos⟩
  | crash hp =>
      have hall : ∀ a ∈ w.db.attachments, 0 < a.refCount → (w.blobs.lookup a.sha256).isSome := by
        intro a ha hpos
        refine h.stored a ha hpos fun st hst hdel => ?_
        have := hcond st hst a ha hdel
        omega
      exact ⟨h.written, hall, fun a ha hpos _ => hall a ha hpos⟩

theorem World.SharedBlobs.step {w w' : World env} {e : Event} (hs : w.step e = some w')
    (h : w.SharedBlobs) (hcond : w.CollectsSafely e) : w'.SharedBlobs := by
  cases World.Move.of_step hs with
  | refused => exact h
  | start | fail =>
      refine ⟨fun c call sha hcall hsha => ?_, h.seen, h.stored⟩
      rcases World.setCall_calls_cases hcall with ⟨-, rfl⟩ | ⟨-, hold⟩
      · cases hsha
      · exact h.written c call sha hold hsha
  | advance hcall hmove => exact h.advance hs hcall hmove
  | purge hmove => exact h.purge hs hmove hcond
  | @hold e r q s hstores =>
      obtain ⟨hwritten, hseen⟩ := h.stays hs hcond
      have hsame : s.blobs = w.blobs ∧ s.db.attachments = w.db.attachments := by
        rcases hstores with rfl | ⟨row, on, rfl⟩
        · exact ⟨rfl, rfl⟩
        · exact ⟨rfl, rfl⟩
      have hview : (w.purge.done.foldl Statement.onDb s.db).attachments
          = (w.purge.done.foldl Statement.onDb w.db).attachments := by
        rw [Statement.foldl_onDb_attachments, Statement.foldl_onDb_attachments, hsame.2]
      refine ⟨hwritten, fun a ha => hseen a (hview ▸ ha), fun a ha hpos hnot => ?_⟩
      show (s.blobs.lookup a.sha256).isSome
      rw [hsame.1]
      exact h.stored a (hsame.2 ▸ ha) hpos hnot

/-! ## Runs -/

/-- What a run of safe collections keeps. -/
structure World.SharedSafe (w : World env) : Prop where
  sound : w.Sound
  alone : w.tables.CollectedAlone
  linked : w.tables.Linked
  blobs : w.SharedBlobs

/-- What the purge collects is without reference in its own view of the
tables: the condition on the tables. -/
theorem World.collectsCounted {w w' : World env} {e : Event} (hs : w.step e = some w')
    (h : e = .purge .advance → ∀ r, w.purge.next = some (.collect r) →
      ∀ a ∈ (w.purge.done.foldl Statement.onDb w.db).attachments,
        a.sha256 = r.sha256 → a.refCount ≤ 0) : w.tables.CollectsCounted w'.tables := by
  intro done r todo hp hp'
  have hsame : w'.purge ≠ w.purge := by
    intro heq
    have hdone := congrArg Purge.done (hp'.symm.trans (heq.trans hp))
    simp [Purge.done] at hdone
  cases World.Move.of_step hs with
  | refused | start | advance | fail | hold => exact absurd rfl hsame
  | purge hmove =>
      have hq : w.purge = .running done (.collect r :: todo) := hp
      rw [hq] at hmove
      cases hmove with
      | execute =>
          have hcount := h rfl r (by rw [hq]; rfl)
          rw [hq] at hcount
          exact hcount
      | crash => cases hp'

theorem World.CollectsSafely.counted {w w' : World env} {e : Event} (h : w.CollectsSafely e)
    (hs : w.step e = some w') : w.tables.CollectsCounted w'.tables := by
  refine World.collectsCounted hs fun he r hnext => ?_
  subst he
  exact (h (.collect r) r.sha256 hnext rfl).2

theorem World.SharedSafe.init (env : Env) : (World.init env).SharedSafe where
  sound := .init env
  alone := fun r hr => absurd hr List.not_mem_nil
  linked := by
    intro c tx id htx
    cases htx
  blobs := by
    refine ⟨fun c call sha hcall => ?_, fun a ha => ?_, fun a ha => ?_⟩
    · cases hcall
    · exact absurd ha List.not_mem_nil
    · exact absurd ha List.not_mem_nil

theorem World.SharedSafe.step {w w' : World env} {e : Event} (h : w.SharedSafe)
    (hcond : w.CollectsSafely e) (hs : w.step e = some w') : w'.SharedSafe where
  sound := h.sound.step hs
  alone := h.alone.step (World.tables_step h.sound.coherent hs) h.sound.tables (hcond.counted hs)
  linked := h.linked.step (World.tables_step h.sound.coherent hs) h.sound.tables h.alone
  blobs := h.blobs.step hs hcond

/-- When no purge is under way, every message has its attachments. -/
theorem World.SharedSafe.kept {w : World env} (h : w.SharedSafe) (hidle : w.purge = .idle)
    {m : Message} (hm : m ∈ w.db.messages) : w.AttachmentsKept m := by
  obtain ⟨c, call, hcall, hcom, hsame⟩ := h.sound.origin hm
  refine ⟨c, call, hcall, hcom, hsame, fun sha hsha => ?_⟩
  obtain ⟨a, ha, hasha, hl⟩ := h.linked c call.tx m.id (txs_of_call hcall) hcom ⟨m, hm, rfl⟩ sha hsha
  refine ⟨a, ha, hasha, hl, hasha ▸ h.blobs.stored a ha ?_ ?_⟩
  · -- one link at least, so one reference at least
    have hpos : 0 < w.db.linksTo a.id := List.countP_pos_iff.mpr ⟨_, hl, decide_eq_true rfl⟩
    exact (Int.natCast_pos.mpr hpos).trans_le (h.sound.tables.shared.counts a ha)
  · intro st hst
    rw [hidle] at hst
    exact absurd hst List.not_mem_nil

/-- **Garbage collection against archiving**: in a run whose every
collection is safe, whatever the interleaving, every message that is
archived when no purge is under way has all its links, their attachment
rows and their blobs. -/
theorem shared_attachments_kept {es : List Event} {w : World env}
    (hrun : run World.step (World.init env) es = some w)
    (hsafe : Meets World.step World.CollectsSafely (World.init env) es)
    (hidle : w.purge = .idle) : ∀ m ∈ w.db.messages, w.AttachmentsKept m := by
  have hinv : w.SharedSafe := run_invariant_of_meets
    (fun _ _ _ hw hcond hs => hw.step hcond hs) hrun hsafe (.init env)
  intro m hm
  exact hinv.kept hidle hm

/-- Two mails with one attachment. The purge of the first has loaded its
batch when the second is archived: it counts one reference, collects the
attachment, and takes the second mail's link with it. -/
def sharedRun : List Event :=
  sampleCall 0 (attachmentMail "s" "z") sampleTime 9
    ++ [.purge (.select sampleCutoff [sampleRow (attachmentMail "s" "z") 1]), .purge .advance]
    ++ sampleCall 1 (attachmentMail "t" "z") sampleNow 9
    ++ List.replicate 7 (.purge .advance)

/-- Everybody has finished, the second mail stays, its attachment is gone. -/
theorem shared_attachment_lost : ∃ w, sampleRun sharedRun = some w
    ∧ (w.calls 0).map (·.pc) = some .returned ∧ (w.calls 1).map (·.pc) = some .returned
    ∧ w.purge = .idle ∧ ∃ m ∈ w.db.messages, ¬w.AttachmentsKept m := by
  have hany : (sampleRun sharedRun).any (fun w =>
      decide ((w.calls 0).map (·.pc) = some .returned)
        && decide ((w.calls 1).map (·.pc) = some .returned) && w.purge.isIdle
        && decide (w.db.messages.map (·.id) = [2]) && decide (w.db.messageAttachments = [])
        && decide ((w.calls 1).map (fun call => (call.committed, call.job.attHashes))
            = some (some 2, [hex zDigest]))) = true := by
    decide +kernel
  obtain ⟨w, hrun, hw⟩ := (Option.any_eq_true _ _).mp hany
  simp only [Bool.and_eq_true, decide_eq_true_eq] at hw
  obtain ⟨⟨⟨⟨⟨h₀, h₁⟩, hidle⟩, hids⟩, hlinks⟩, hcall⟩ := hw
  have hpurge := Purge.eq_idle hidle
  have hmem : 2 ∈ w.db.messages.map (·.id) := hids ▸ List.mem_singleton_self 2
  obtain ⟨m, hm, hmid⟩ := List.mem_map.mp hmem
  refine ⟨w, hrun, h₀, h₁, hpurge, m, hm, ?_⟩
  rintro ⟨c, call, hc, hcom, -, hkept⟩
  obtain ⟨call₁, hcall₁, hfacts⟩ := Option.map_eq_some_iff.mp hcall
  obtain ⟨hcom₁, hhashes⟩ := Prod.mk.inj hfacts
  -- the row is that of the second call
  obtain rfl : 1 = c := (World.reachable_sound ⟨sharedRun, hrun⟩).committed_inj hcall₁ hcom₁ hc
    (hcom.trans (congrArg some hmid))
  obtain rfl : call₁ = call := Option.some.inj (hcall₁.symm.trans hc)
  obtain ⟨a, -, -, hl, -⟩ := hkept (hex zDigest) (hhashes ▸ List.mem_singleton_self _)
  rw [hlinks] at hl
  exact absurd hl List.not_mem_nil

/-- `CollectsSafely`, computed in a world of two calls. -/
def World.collectsSafely (w : World env) (e : Event) : Bool :=
  e.below 2 &&
    match e with
    | .purge .advance =>
        match w.purge.next.bind Statement.deletes with
        | none => true
        | some sha =>
            (List.range 2).all (fun c =>
                (w.calls c).all fun call => !call.pc.attachmentsWritten.contains sha)
              && (w.purge.done.foldl Statement.onDb w.db).attachments.all fun a =>
                a.sha256 ≠ sha || a.refCount ≤ 0
    | .purge .crash =>
        w.purge.done.all fun st => w.db.attachments.all fun a =>
          st.deletes ≠ some a.sha256 || a.refCount ≤ 0
    | _ => true

theorem World.collectsSafely_sound {w : World env} {e : Event} (hw : w.CallsBelow 2)
    (h : w.collectsSafely e = true) : w.CollectsSafely e := by
  unfold collectsSafely at h
  cases e with
  | start | advance | fail | readHold | commitHold => trivial
  | purge e =>
      cases e with
      | select => trivial
      | advance =>
          intro st sha hnext hdel
          simp only [Event.below, Bool.true_and, hnext, Option.bind_some, hdel, Bool.and_eq_true,
            List.all_eq_true] at h
          refine ⟨fun c call hcall hsha => ?_, fun a ha heq => ?_⟩
          · by_cases hc : c < 2
            · have := h.1 c (List.mem_range.mpr hc)
              simp [hcall, hsha] at this
            · rw [hw c (by omega)] at hcall
              cases hcall
          · simpa [heq] using h.2 a ha
      | crash =>
          intro st hst a ha hdel
          simp only [Event.below, Bool.true_and, List.all_eq_true] at h
          simpa [hdel] using h st hst a ha

/-- The same two mails; the first is purged before the second comes. -/
def purgedRun : List Event :=
  sampleCall 0 (attachmentMail "s" "z") sampleTime 9
    ++ .purge (.select sampleCutoff [sampleRow (attachmentMail "s" "z") 1])
      :: List.replicate 8 (.purge .advance)
    ++ sampleCall 1 (attachmentMail "t" "z") sampleNow 9

/-- The attachment is collected, and archived again for the second mail. -/
theorem shared_attachments_kept_purged : ∃ w, sampleRun purgedRun = some w
    ∧ w.db.messages.map (·.id) = [2] ∧ ∀ m ∈ w.db.messages, w.AttachmentsKept m := by
  have hany : (sampleRun purgedRun).any (fun w =>
      w.purge.isIdle && decide (w.db.messages.map (·.id) = [2])) = true := by
    decide +kernel
  have hmeets : meetsAll World.step World.collectsSafely (World.init sampleEnv) purgedRun
      = true := by
    decide +kernel
  obtain ⟨w, hrun, hw⟩ := (Option.any_eq_true _ _).mp hany
  simp only [Bool.and_eq_true, decide_eq_true_eq] at hw
  have hpurge := Purge.eq_idle hw.1
  have hsafe : Meets World.step World.CollectsSafely (World.init sampleEnv) purgedRun := by
    refine meets_of_meetsAll (I := World.CallsBelow 2) ?_
      (fun w e hw h => World.collectsSafely_sound hw h) (fun c _ => rfl) hmeets
    intro w e w' hw h hs
    unfold World.collectsSafely at h
    exact hw.step (Bool.and_eq_true_iff.mp h).1 hs
  exact ⟨w, hrun, hw.2, shared_attachments_kept hrun hsafe hpurge⟩

end MailArchiver

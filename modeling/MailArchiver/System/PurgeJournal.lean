import MailArchiver.RetentionWorker.Setting
import MailArchiver.System.Custody
import MailArchiver.System.IndexSoundness

/-!
# System — PurgeJournal

What `run_retention` writes into the audit journal, beside the archive at
work, changes of the settings and the other services, which write there
too. A run reads its setting in a session of its own, before it selects;
the line of a message is a row of the transaction that deletes the
message. The indices a run drops are left out.
-/

namespace MailArchiver

open Transition

variable {env : Env}

/-- A run of `run_retention` that will purge. -/
structure RetentionRun where
  now : DateTime
  days : Int
  cutoff : DateTime
  enabled : 0 < days
  cutoff_eq : now.minusDays days.toNat = some cutoff

namespace RetentionRun

/-- The `AuditEvent` of a purged message. -/
def auditEvent (r : RetentionRun) (messageId : Nat) (archiveHash : String) : AuditEvent where
  ts := r.now
  actor := "system"
  action := "purge"
  target := some (toString messageId)
  detail := .purged archiveHash r.days
  sourceIp := none

/-- The audit rows of the transaction: one for each message deleted. -/
def auditEvents (r : RetentionRun) (sts : List Statement) : List AuditEvent :=
  sts.filterMap fun
    | .deleteMessage msg _ => some (r.auditEvent msg.id msg.archiveHash)
    | _ => none

/-- What is before the cutoff is older than the setting. -/
theorem olderThan_of_before (r : RetentionRun) {t : DateTime} (h : t.before r.cutoff = true) :
    r.now.OlderThan r.days.toNat t := by
  obtain ⟨hdate, htime⟩ := minusDays_toordinal r.cutoff_eq
  exact (olderThan_iff_before hdate htime).mpr h

end RetentionRun

structure PurgeJournal (env : Env) where
  world : World env
  settings : AppSettings
  /-- The run that purges, or is about to. -/
  retention : Option RetentionRun
  /-- `audit_events`, newest last. -/
  journal : List AuditEvent

inductive PurgeJournalEvent where
  /-- Anything but the selection of a batch. -/
  | archive (e : Event)
  | changeSettings (settings : AppSettings)
  /-- `_retention_days`, and the cutoff. -/
  | begin (now : DateTime)
  | select (batch : List Message)
  /-- An exception before the selection. -/
  | abandon
  /-- A line of another service. -/
  | record (line : AuditEvent)

namespace PurgeJournal

def init (env : Env) (settings : AppSettings) : PurgeJournal env where
  world := .init env
  settings := settings
  retention := none
  journal := []

/-- The rows a purge commits with its next step. -/
def committing (s : PurgeJournal env) : PurgeEvent → List AuditEvent
  | .advance =>
      match s.world.purge, s.retention with
      | .running done [], some r => r.auditEvents done
      | _, _ => []
  | _ => []

/-- A step of the purge; the run ends with its transaction. -/
def stepPurge (s : PurgeJournal env) (e : PurgeEvent) : Option (PurgeJournal env) :=
  (s.world.step (.purge e)).map fun world =>
    { s with
      world := world
      retention := if world.purge.isIdle then none else s.retention
      journal := s.journal ++ s.committing e }

def step (s : PurgeJournal env) : PurgeJournalEvent → Option (PurgeJournal env)
  | .archive (.purge (.select _ _)) => none
  | .archive (.purge e) => s.stepPurge e
  | .archive e => (s.world.step e).map fun world => { s with world := world }
  | .changeSettings settings => some { s with settings := settings }
  | .begin now =>
      match s.retention with
      | some _ => none
      | none =>
          if enabled : 0 < readRetentionDays s.settings then
            match cutoff_eq : now.minusDays (readRetentionDays s.settings).toNat with
            | some cutoff =>
                let r : RetentionRun := ⟨now, readRetentionDays s.settings, cutoff, enabled, cutoff_eq⟩
                some { s with retention := some r }
            | none => some s
          else some s
  | .select batch =>
      match s.retention with
      | none => none
      | some r => s.stepPurge (.select r.cutoff batch)
  | .abandon => if s.world.purge.isIdle then some { s with retention := none } else none
  | .record line =>
      if line.action = "purge" then none else some { s with journal := s.journal ++ [line] }

/-- The steps, by what they do. -/
inductive Move (s : PurgeJournal env) : PurgeJournalEvent → PurgeJournal env → Prop where
  | archive {e : Event} {world : World env} (he : e.isPurge = false)
      (hs : s.world.step e = some world) : Move s (.archive e) { s with world := world }
  | purge {e : PurgeJournalEvent} {pe : PurgeEvent} {s' : PurgeJournal env}
      (hselect : ∀ cutoff batch, pe = .select cutoff batch →
        ∃ r, s.retention = some r ∧ cutoff = r.cutoff)
      (hs : s.stepPurge pe = some s') : Move s e s'
  | changeSettings {settings : AppSettings} :
      Move s (.changeSettings settings) { s with settings := settings }
  | begin {r : RetentionRun} (hfree : s.retention = none)
      (hdays : readRetentionDays s.settings = r.days) :
      Move s (.begin r.now) { s with retention := some r }
  /-- The purge is disabled, or its cutoff overflows. -/
  | ends {now : DateTime} : Move s (.begin now) s
  | abandon (hidle : s.world.purge = .idle) : Move s .abandon { s with retention := none }
  | record {line : AuditEvent} (hline : line.action ≠ "purge") :
      Move s (.record line) { s with journal := s.journal ++ [line] }

theorem Move.of_step {s s' : PurgeJournal env} {e : PurgeJournalEvent} (h : s.step e = some s') :
    Move s e s' := by
  cases e with
  | archive e =>
      cases e with
      | purge pe =>
          cases pe with
          | select cutoff batch => cases h
          | advance | crash => exact .purge (fun _ _ heq => by cases heq) h
      | start | advance | fail | readHold | commitHold =>
          obtain ⟨world, hs, rfl⟩ := Option.map_eq_some_iff.mp h
          exact .archive rfl hs
  | changeSettings settings =>
      cases h
      exact .changeSettings
  | begin now =>
      simp only [step] at h
      split at h
      · cases h
      · rename_i hfree
        split at h
        · split at h <;> cases h
          · exact .begin (r := ⟨now, _, _, _, _⟩) hfree rfl
          · exact .ends
        · cases h
          exact .ends
  | select batch =>
      simp only [step] at h
      split at h
      · cases h
      · rename_i r hr
        refine .purge (fun cutoff batch' heq => ?_) h
        cases heq
        exact ⟨r, hr, rfl⟩
  | abandon =>
      simp only [step] at h
      split at h <;> cases h
      exact .abandon (Purge.eq_idle ‹_›)
  | record line =>
      simp only [step] at h
      split at h <;> cases h
      exact .record ‹_›

end PurgeJournal

/-! ## Rows that come and go -/

namespace World

/-- A row of `messages` has the id. -/
def HasRow (w : World env) (id : Nat) : Prop := ∃ m ∈ w.db.messages, m.id = id

section Steps

variable {w w' : World env} {e : Event} {id : Nat} {job : Job env}

/-- What is archived was so before, or the step that archives it brings its
row under an id nobody had. -/
theorem archivedAs_before (hsound : w.Sound) (hs : w.step e = some w') (h : w'.ArchivedAs id job) :
    w.ArchivedAs id job
      ∨ e.isPurge = false ∧ w'.HasRow id ∧ ∀ job', ¬w.ArchivedAs id job' := by
  obtain ⟨c, call, hcall, hcom, rfl⟩ := h
  cases Move.of_step hs with
  | refused | purge | hold => exact .inl ⟨c, call, hcall, hcom, rfl⟩
  | start =>
      rcases setCall_calls_cases hcall with ⟨-, rfl⟩ | ⟨-, hold⟩
      · cases hcom
      · exact .inl ⟨c, call, hold, hcom, rfl⟩
  | fail hcall₀ =>
      rcases setCall_calls_cases hcall with ⟨rfl, rfl⟩ | ⟨-, hold⟩
      · exact .inl ⟨c, _, hcall₀, hcom, rfl⟩
      · exact .inl ⟨c, call, hold, hcom, rfl⟩
  | @advance c₀ draw published call₀ call' s hcall₀ hmove =>
      rcases setCall_calls_cases hcall with ⟨rfl, rfl⟩ | ⟨-, hold⟩
      · rcases hmove.db with ⟨-, hsame⟩ | ⟨rows, id', hpc, hdb, hcom'⟩
        · exact .inl ⟨c, call₀, hcall₀, hsame ▸ hcom, hmove.job.symm⟩
        · obtain rfl : id' = id := Option.some.inj (hcom'.symm.trans hcom)
          refine .inr ⟨rfl, ⟨call₀.job.msgRow id', ?_, rfl⟩, ?_⟩
          · rw [setCall_db, hdb]
            exact List.mem_append_right _ (List.mem_singleton_self _)
          · rintro job' ⟨c', call'', hcall', hcom'', -⟩
            exact hsound.committed_ne hcall₀ hpc hcall' hcom''
      · exact .inl ⟨c, call, hold, hcom, rfl⟩

/-- Only a purge takes the row of an archived mail, and nothing brings it
back. -/
theorem hasRow_iff_of_step (hsound : w.Sound) (hs : w.step e = some w') (he : e.isPurge = false)
    (h : w.ArchivedAs id job) : w'.HasRow id ↔ w.HasRow id := by
  constructor
  · rintro ⟨m, hm, rfl⟩
    cases Move.of_step hs with
    | refused | start | fail => exact ⟨m, hm, rfl⟩
    | purge => cases he
    | hold hstores =>
        rcases hstores with rfl | ⟨row, on, rfl⟩
        · exact ⟨m, hm, rfl⟩
        · obtain ⟨m₀, hm₀, hsame⟩ := exists_of_mem_setHold hm
          exact ⟨m₀, hm₀, hsame.id.symm⟩
    | advance hcall hmove =>
        rcases hmove.db with ⟨hdb, -⟩ | ⟨rows, id', hpc, hdb, -⟩
        · rw [setCall_db, hdb] at hm
          exact ⟨m, hm, rfl⟩
        · rw [setCall_db, hdb] at hm
          rcases List.mem_append.mp hm with hm | hm
          · exact ⟨m, hm, rfl⟩
          · obtain rfl := List.mem_singleton.mp hm
            obtain ⟨c', call', hcall', hcom', -⟩ := h
            exact absurd hcom' (hsound.committed_ne hcall hpc hcall')
  · rintro ⟨m, hm, rfl⟩
    obtain ⟨m', hm', hsame⟩ := (grows_of_step hs he).messages m hm
    exact ⟨m', hm', hsame.id⟩

/-- What is archived is on record with the calls. -/
theorem archivedAs_congr (h : w'.calls = w.calls) : w'.ArchivedAs id job ↔ w.ArchivedAs id job := by
  rw [ArchivedAs, h]
  rfl

theorem purge_of_step (hs : w.step e = some w') (he : e.isPurge = false) : w'.purge = w.purge := by
  cases Move.of_step hs with
  | refused | start | advance | fail | hold => rfl
  | purge => cases he

end Steps

end World

/-! ## The lines of a purge -/

theorem RetentionRun.auditEvents_purgeMessages (r : RetentionRun) (mem : IdentityMap)
    {expired : List (Message × List Nat)} (hnodup : ∀ x ∈ expired, x.2.Nodup) :
    r.auditEvents (purgeMessages mem expired)
      = expired.map fun x => r.auditEvent x.1.id x.1.archiveHash := by
  induction expired generalizing mem with
  | nil => rfl
  | cons x expired ih =>
      obtain ⟨msg, ids⟩ := x
      have hattachments : r.auditEvents (purgeAttachments mem ids).1 = [] := by
        rw [auditEvents, List.filterMap_eq_nil_iff]
        intro st hst
        rcases (mem_purgeAttachments (hnodup (msg, ids) List.mem_cons_self)).mp hst with
          ⟨id, -, rfl⟩ | ⟨id, -, a, -, -, rfl⟩
        · rfl
        · rfl
      have hrest := ih (purgeAttachments mem ids).2 fun y hy => hnodup y (List.mem_cons_of_mem _ hy)
      rw [auditEvents] at hattachments hrest
      simp only [purgeMessages, auditEvents, List.filterMap_append, hattachments, hrest,
        List.filterMap_cons, List.filterMap_nil, List.nil_append, List.map_cons,
        List.singleton_append]

/-- A purge line of the message. -/
def AuditEvent.purges (line : AuditEvent) (id : Nat) : Bool :=
  line.action = "purge" ∧ line.target = some (toString id)

theorem RetentionRun.auditEvent_purges (r : RetentionRun) (id id' : Nat) (hash : String) :
    (r.auditEvent id hash).purges id' = decide (id = id') := by
  simp only [AuditEvent.purges, auditEvent, Option.some.injEq, toString_nat_inj, true_and]

/-- The lines of a batch that are of one message. -/
theorem Loaded.filter_auditEvents {db : Db} {expired : List (Message × List Nat)}
    {mem : IdentityMap} (h : Loaded db expired mem []) (r : RetentionRun) :
    (∀ x ∈ expired, (r.auditEvents (purgeMessages mem expired)).filter (·.purges x.1.id)
        = [r.auditEvent x.1.id x.1.archiveHash])
      ∧ ∀ id, id ∉ batchIds expired →
        (r.auditEvents (purgeMessages mem expired)).filter (·.purges id) = [] := by
  have hlines : ∀ id, (r.auditEvents (purgeMessages mem expired)).filter (·.purges id)
      = (expired.filter fun x => decide (x.1.id = id)).map
        fun x => r.auditEvent x.1.id x.1.archiveHash := by
    intro id
    rw [r.auditEvents_purgeMessages mem h.nodup, List.filter_map]
    refine congrArg (List.map _) (List.filter_congr fun x _ => ?_)
    exact r.auditEvent_purges x.1.id id x.1.archiveHash
  have hids := h.ids
  rw [List.map_nil, List.append_nil] at hids
  constructor
  · intro x hx
    have hone := @Table.filter_key _ _ (fun x : Message × List Nat => x.1.id) _ _ hids x hx
    rw [hlines, hone]
    rfl
  · intro id hid
    rw [hlines, List.filter_eq_nil_iff.mpr]
    · rfl
    · intro x hx heq
      exact hid (mem_batchIds.mpr ⟨x, hx, of_decide_eq_true heq⟩)

namespace PurgeJournal

/-- A step of the purge leaves the tables and commits no line, or is the
commit of its transaction. -/
theorem stepPurge_cases {s s' : PurgeJournal env} {pe : PurgeEvent} (h : s.stepPurge pe = some s') :
    s'.world.calls = s.world.calls
      ∧ (s'.world.db = s.world.db ∧ s'.journal = s.journal
        ∨ ∃ done, s.world.purge = .running done []
          ∧ s'.world.db = done.foldl Statement.onDb s.world.db
          ∧ ∀ r, s.retention = some r → s'.journal = s.journal ++ r.auditEvents done) := by
  obtain ⟨world, hs, rfl⟩ := Option.map_eq_some_iff.mp h
  simp only [World.step] at hs
  split at hs <;> cases hs
  rename_i st p hpurge
  refine ⟨rfl, ?_⟩
  have hmove := Purge.Move.of_step hpurge
  generalize hq : s.world.purge = q at hmove
  cases hmove with
  | select | crash => exact .inl ⟨rfl, List.append_nil _⟩
  | load | begin | execute =>
      refine .inl ⟨rfl, ?_⟩
      simp only [committing, hq, List.append_nil]
  | @commit done =>
      refine .inr ⟨done, rfl, rfl, fun r hr => ?_⟩
      simp only [committing, hq, hr]

/-- The purge lines of a message. -/
def linesOf (s : PurgeJournal env) (id : Nat) : List AuditEvent := s.journal.filter (·.purges id)

/-- A line is of no purge of the message, or the only one, with the run
that took it off. -/
def Accounted (begun : RetentionRun → Prop) (s : PurgeJournal env) (id : Nat) (job : Job env) :
    Prop :=
  (s.world.HasRow id ∧ s.linesOf id = [])
    ∨ ¬s.world.HasRow id ∧ ∃ r, begun r ∧ s.linesOf id = [r.auditEvent id job.archiveHash]
      ∧ r.now.OlderThan r.days.toNat job.signedAt

/-- The purge goes by the cutoff of the run. -/
def Governs (r : RetentionRun) (p : Purge) : Prop :=
  p.TakesRetired fun cutoff _ => cutoff = r.cutoff

/-- What the archive, the purge and the journal maintain. -/
structure Sound (begun : RetentionRun → Prop) (s : PurgeJournal env) : Prop where
  world : s.world.Sound
  running : s.world.purge = .idle ∨ ∃ r, s.retention = some r ∧ Governs r s.world.purge
  retention : ∀ r, s.retention = some r → begun r
  accounted : ∀ id job, s.world.ArchivedAs id job → s.Accounted begun id job
  known : ∀ line ∈ s.journal, ∀ id, line.purges id = true → ∃ job, s.world.ArchivedAs id job

section Steps

variable {begun : RetentionRun → Prop} {s s' : PurgeJournal env}

theorem Accounted.congr {id : Nat} {job : Job env} (h : s.Accounted begun id job)
    (hrow : s'.world.HasRow id ↔ s.world.HasRow id) (hlines : s'.linesOf id = s.linesOf id) :
    s'.Accounted begun id job := by
  rw [Accounted, hrow, hlines]
  exact h

/-- A message that is not archived has no line. -/
theorem Sound.linesOf_eq_nil (h : s.Sound begun) {id : Nat}
    (hid : ∀ job, ¬s.world.ArchivedAs id job) : s.linesOf id = [] := by
  rw [linesOf, List.filter_eq_nil_iff]
  intro line hline hpurges
  obtain ⟨job, hjob⟩ := h.known line hline id hpurges
  exact hid job hjob

/-- The archive at work, a purge apart. -/
theorem Sound.archive (h : s.Sound begun) {e : Event} {world : World env}
    (he : e.isPurge = false) (hs : s.world.step e = some world) :
    Sound begun { s with world := world } where
  world := h.world.step hs
  running := by
    rw [World.purge_of_step hs he]
    exact h.running
  retention := h.retention
  accounted := by
    intro id job harch
    rcases World.archivedAs_before h.world hs harch with hold | ⟨-, hrow, hnew⟩
    · exact (h.accounted id job hold).congr (World.hasRow_iff_of_step h.world hs he hold) rfl
    · exact .inl ⟨hrow, h.linesOf_eq_nil hnew⟩
  known := by
    intro line hline id hpurges
    obtain ⟨job, hjob⟩ := h.known line hline id hpurges
    exact ⟨job, hjob.step h.world hs⟩

/-- The commit of a purge: the messages of its batch go, each with a line. -/
theorem Sound.committed (h : s.Sound begun) {done : List Statement} {r : RetentionRun}
    (hrun : s.world.purge = .running done []) (hr : s.retention = some r)
    (hgoverns : Governs r s.world.purge)
    (hdb : s'.world.db = done.foldl Statement.onDb s.world.db)
    (hjournal : s'.journal = s.journal ++ r.auditEvents done) :
    (∀ id job, s.world.ArchivedAs id job → s'.Accounted begun id job)
      ∧ ∀ line ∈ s'.journal, ∀ id, line.purges id = true → ∃ job, s.world.ArchivedAs id job := by
  obtain ⟨expired, mem, hloaded, hplan⟩ := h.world.running hrun
  rw [List.append_nil] at hplan
  rw [hrun, Governs, Purge.TakesRetired, List.append_nil, hplan] at hgoverns
  rw [hplan] at hdb hjournal
  have hids := h.world.tables.rows.ids
  obtain ⟨hpurged, hkept⟩ := hloaded.filter_auditEvents r
  have hlines : ∀ id, s'.linesOf id
      = s.linesOf id ++ (r.auditEvents (purgeMessages mem expired)).filter (·.purges id) := by
    intro id
    rw [linesOf, hjournal, List.filter_append, linesOf]
  have hrows : ∀ id, s'.world.HasRow id ↔ s.world.HasRow id ∧ id ∉ batchIds expired := by
    intro id
    have hstays : ∀ m ∈ s.world.db.messages, m ∈ s'.world.db.messages ↔ m.id ∉ batchIds expired := by
      intro m hm
      rw [← hloaded.removesMessage_iff hids hm, hdb, Statement.foldl_onDb_messages, List.mem_filter,
        Bool.not_eq_true', ← Bool.not_eq_true, List.any_eq_true]
      exact and_iff_right hm
    have hsub : ∀ m ∈ s'.world.db.messages, m ∈ s.world.db.messages := by
      intro m hm
      rw [hdb, Statement.foldl_onDb_messages] at hm
      exact List.mem_of_mem_filter hm
    constructor
    · rintro ⟨m, hm, rfl⟩
      exact ⟨⟨m, hsub m hm, rfl⟩, (hstays m (hsub m hm)).mp hm⟩
    · rintro ⟨⟨m, hm, rfl⟩, hid⟩
      exact ⟨m, (hstays m hm).mpr hid, rfl⟩
  constructor
  · intro id job harch
    rcases h.accounted id job harch with ⟨⟨m, hm, rfl⟩, hnil⟩ | ⟨hgone, r', hr', hline, hold⟩
    · by_cases hid : m.id ∈ batchIds expired
      · -- its row goes now
        obtain ⟨x, hx, hxm⟩ := mem_batchIds.mp hid
        have hrow := hloaded.row_eq hids hm hx hxm
        have hjob := harch.row h.world hm
        obtain ⟨cutoff, batch, rfl, -, hexpired⟩ :=
          hgoverns x.1 x.2 ((hloaded.mem_message rfl).mpr ⟨x, hx, .inr (.inr rfl)⟩)
        rw [isExpired, Bool.and_eq_true] at hexpired
        refine .inr ⟨fun hstays => ((hrows m.id).mp hstays).2 hid, r, h.retention r hr, ?_, ?_⟩
        · rw [hlines, hnil, List.nil_append, ← hxm, hpurged x hx]
          exact congrArg (fun hash => [r.auditEvent x.1.id hash])
            (hrow.archiveHash.symm.trans hjob.archiveHash)
        · have hsigned : x.1.signedAt = job.signedAt := hrow.signedAt.symm.trans hjob.signedAt
          exact r.olderThan_of_before (hsigned ▸ hexpired.1)
      · refine .inl ⟨(hrows m.id).mpr ⟨⟨m, hm, rfl⟩, hid⟩, ?_⟩
        rw [hlines, hnil, hkept m.id hid, List.append_nil]
    · -- it was gone before, so the batch has it not
      have hid : id ∉ batchIds expired := by
        intro hid
        obtain ⟨x, hx, rfl⟩ := mem_batchIds.mp hid
        obtain ⟨m, hm, hsame⟩ := hloaded.row x hx
        exact hgone ⟨m, hm, hsame.id⟩
      refine .inr ⟨fun hrow => hgone ((hrows id).mp hrow).1, r', hr', ?_, hold⟩
      rw [hlines, hline, hkept id hid, List.append_nil]
  · intro line hline id hpurges
    rw [hjournal, r.auditEvents_purgeMessages mem hloaded.nodup] at hline
    rcases List.mem_append.mp hline with hline | hline
    · exact h.known line hline id hpurges
    · obtain ⟨x, hx, rfl⟩ := List.mem_map.mp hline
      rw [r.auditEvent_purges, decide_eq_true_eq] at hpurges
      obtain ⟨m, hm, hsame⟩ := hloaded.row x hx
      obtain ⟨c, call, hcall, hcom, -⟩ := h.world.origin hm
      exact ⟨call.job, c, call, hcall, by rw [hcom, hsame.id, hpurges], rfl⟩

/-- A purge that steps is governed by the run at work. -/
theorem Sound.governed (h : s.Sound begun) {pe : PurgeEvent} {world : World env}
    (hselect : ∀ cutoff batch, pe = .select cutoff batch →
      ∃ r, s.retention = some r ∧ cutoff = r.cutoff)
    (hs : s.world.step (.purge pe) = some world) :
    ∃ r, s.retention = some r ∧ Governs r s.world.purge ∧ Governs r world.purge := by
  simp only [World.step] at hs
  split at hs <;> cases hs
  rename_i st p hpurge
  have hmove := Purge.Move.of_step hpurge
  obtain ⟨r, hr, hgoverns⟩ : ∃ r, s.retention = some r ∧ Governs r s.world.purge := by
    rcases h.running with hidle | hrunning
    · rw [hidle] at hmove ⊢
      cases hmove with
      | select =>
          obtain ⟨r, hr, -⟩ := hselect _ _ rfl
          exact ⟨r, hr, trivial⟩
      | crash hne => exact absurd rfl hne
    · exact hrunning
  refine ⟨r, hr, hgoverns, Purge.TakesRetired.step h.world hgoverns ?_ hmove⟩
  rintro cutoff batch heq
  cases heq
  obtain ⟨r', hr', hcutoff⟩ := hselect cutoff batch rfl
  cases hr.symm.trans hr'
  exact hcutoff

theorem Sound.purge (h : s.Sound begun) {pe : PurgeEvent}
    (hselect : ∀ cutoff batch, pe = .select cutoff batch →
      ∃ r, s.retention = some r ∧ cutoff = r.cutoff)
    (hs : s.stepPurge pe = some s') : s'.Sound begun := by
  have hcases := stepPurge_cases hs
  obtain ⟨world, hw, rfl⟩ := Option.map_eq_some_iff.mp hs
  obtain ⟨r, hr, hgoverns, hgoverns'⟩ := h.governed hselect hw
  obtain ⟨hcalls, hcases⟩ := hcases
  have harch : ∀ id job, world.ArchivedAs id job ↔ s.world.ArchivedAs id job :=
    fun id job => World.archivedAs_congr hcalls
  refine ⟨h.world.step hw, ?_, ?_, ?_, ?_⟩
  · cases hidle : world.purge.isIdle with
    | true => exact .inl (Purge.eq_idle hidle)
    | false => exact .inr ⟨r, by simp [hr], hgoverns'⟩
  · intro r' hr'
    simp only at hr'
    split at hr'
    · cases hr'
    · exact h.retention r' hr'
  · intro id job hid
    rcases hcases with ⟨hdb, hjournal⟩ | ⟨done, hrun, hdb, hjournal⟩
    · refine (h.accounted id job ((harch id job).mp hid)).congr ?_ ?_
      · rw [World.HasRow, World.HasRow, hdb]
      · rw [linesOf, hjournal, linesOf]
    · exact (h.committed hrun hr hgoverns hdb (hjournal r hr)).1 id job ((harch id job).mp hid)
  · intro line hline id hpurges
    obtain ⟨job, hjob⟩ : ∃ job, s.world.ArchivedAs id job := by
      rcases hcases with ⟨-, hjournal⟩ | ⟨done, hrun, hdb, hjournal⟩
      · exact h.known line (hjournal ▸ hline) id hpurges
      · exact (h.committed hrun hr hgoverns hdb (hjournal r hr)).2 line hline id hpurges
    exact ⟨job, (harch id job).mpr hjob⟩

/-- A line of another service is of no purge. -/
theorem not_purges {line : AuditEvent} (h : line.action ≠ "purge") (id : Nat) :
    line.purges id = false := by
  simp [AuditEvent.purges, h]

theorem Sound.step {e : PurgeJournalEvent} (h : s.Sound begun)
    (hbegun : ∀ r : RetentionRun, e = .begin r.now → readRetentionDays s.settings = r.days → begun r)
    (hs : s.step e = some s') : s'.Sound begun := by
  cases Move.of_step hs with
  | archive he hworld => exact h.archive he hworld
  | purge hselect hpurge => exact h.purge hselect hpurge
  | changeSettings | ends => exact ⟨h.world, h.running, h.retention, h.accounted, h.known⟩
  | @begin r hfree hdays =>
      refine ⟨h.world, ?_, ?_, h.accounted, h.known⟩
      · rcases h.running with hidle | ⟨r', hr', -⟩
        · exact .inl hidle
        · cases hfree.symm.trans hr'
      · intro r' hr'
        cases hr'
        exact hbegun r rfl hdays
  | abandon hidle =>
      refine ⟨h.world, .inl hidle, ?_, h.accounted, h.known⟩
      intro r hr
      cases hr
  | @record line hline =>
      have hnew : ∀ id, line.purges id = false := not_purges hline
      refine ⟨h.world, h.running, h.retention, ?_, ?_⟩
      · intro id job harch
        refine (h.accounted id job harch).congr Iff.rfl ?_
        simp only [linesOf, List.filter_append, List.filter_cons, hnew, List.filter_nil]
        exact List.append_nil _
      · intro line' hline' id hpurges
        rcases List.mem_append.mp hline' with hold | hline'
        · exact h.known line' hold id hpurges
        · rw [List.mem_singleton.mp hline', hnew] at hpurges
          cases hpurges

end Steps

theorem Sound.init (begun : RetentionRun → Prop) (env : Env) (settings : AppSettings) :
    (init env settings).Sound begun where
  world := .init env
  running := .inl rfl
  retention := fun r hr => by cases hr
  accounted := by
    rintro id job ⟨c, call, hcall, -⟩
    cases hcall
  known := fun line hline => absurd hline List.not_mem_nil

/-- The run began among these events, under the setting it has. -/
def BegunIn (init : PurgeJournal env) (es : List PurgeJournalEvent) (r : RetentionRun) : Prop :=
  ∃ front back u, es = front ++ .begin r.now :: back ∧ Transition.run step init front = some u
    ∧ readRetentionDays u.settings = r.days

/-- **Every purge is on record**: whatever the interleaving of workers,
retention runs, holds and changes of the settings, with any of them
failing anywhere, an archived mail either has its row, and the journal no
purge line of it, or its row is gone and the journal has exactly one,
under the hash of the mail, with the time and the setting of a run that
began under that setting and found the mail older. A purge line is of an
archived mail. -/
theorem purges_recorded {settings : AppSettings} {es : List PurgeJournalEvent} {s : PurgeJournal env}
    (hrun : Transition.run step (init env settings) es = some s) :
    (∀ id job, s.world.ArchivedAs id job → s.Accounted (BegunIn (init env settings) es) id job)
      ∧ ∀ line ∈ s.journal, ∀ id, line.purges id = true → ∃ job, s.world.ArchivedAs id job := by
  have hsound : s.Sound (BegunIn (init env settings) es) := by
    refine run_invariant_of_meets (fun s e s' h hplace hs => ?_) hrun
      (@meets_place _ _ step _ _ [] es rfl) (Sound.init _ env settings)
    refine h.step (fun r he hdays => ?_) hs
    obtain ⟨front, back, hsplit, hfront⟩ := hplace
    exact ⟨front, back, s, by rw [← he]; exact hsplit, hfront, hdays⟩
  exact ⟨hsound.accounted, hsound.known⟩

/-- A mail is archived; two years later a run of the default setting
deletes it, and the next is off before it selects. -/
def purgedRun : List PurgeJournalEvent :=
  (sampleCall 0 plainMail sampleTime 7).map .archive
    ++ [.begin sampleNow, .select [sampleRow plainMail 1]]
    ++ List.replicate 6 (.archive (.purge .advance)) ++ [.begin sampleNow, .abandon]

/-- Its row is gone, and there is one line. -/
theorem purges_recorded_plain : ∃ s job,
    Transition.run step (init sampleEnv noSettings) purgedRun = some s
      ∧ s.world.ArchivedAs 1 job ∧ s.world.db.messages = [] ∧ s.journal.length = 1
      ∧ s.Accounted (BegunIn (init sampleEnv noSettings) purgedRun) 1 job := by
  have hany : (Transition.run step (init sampleEnv noSettings) purgedRun).any (fun s =>
      decide (s.world.db.messages = []) && decide (s.journal.length = 1)
        && (s.world.calls 0).any fun call => decide (call.committed = some 1)) = true := by
    decide +kernel
  obtain ⟨s, hrun, hs⟩ := (Option.any_eq_true _ _).mp hany
  simp only [Bool.and_eq_true, decide_eq_true_eq] at hs
  obtain ⟨⟨hmessages, hlength⟩, hcall⟩ := hs
  obtain ⟨call, hcall, hcom⟩ := (Option.any_eq_true _ _).mp hcall
  have harch : s.world.ArchivedAs 1 call.job := ⟨0, call, hcall, of_decide_eq_true hcom, rfl⟩
  exact ⟨s, call.job, hrun, harch, hmessages, hlength, (purges_recorded hrun).1 1 call.job harch⟩

end PurgeJournal

end MailArchiver

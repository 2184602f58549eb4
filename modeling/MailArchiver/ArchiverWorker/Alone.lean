import MailArchiver.ArchiverWorker.Pipeline

/-!
# ArchiverWorker — Alone

A `process` call that no other transaction disturbs. It waits for no lock
and each step brings it nearer to its end (`Move.stepsLeft`); what it
needs of its mail to be archived is that the columns take it (`Storable`).
-/

namespace MailArchiver

variable {env : Env}

/-- Whether the columns of `attachments` take the attachment. -/
def ParsedAttachment.fits (att : ParsedAttachment) : Bool :=
  fitsText att.filename && fitsVarchar 255 att.contentType

/-- The tables take the mail: it has nothing a column refuses. -/
structure Job.Storable (job : Job env) : Prop where
  columns : (job.msgRow 0).fits = true
  attachments : ∀ x ∈ job.attachments, x.1.fits = true

instance (job : Job env) : Decidable job.Storable :=
  decidable_of_iff ((job.msgRow 0).fits = true ∧ ∀ x ∈ job.attachments, x.1.fits = true)
    ⟨fun ⟨hcolumns, hatts⟩ => ⟨hcolumns, hatts⟩, fun h => ⟨h.columns, h.attachments⟩⟩

/-- What a call seals: the raw mail and its attachments. -/
def Job.plaintexts (job : Job env) : List Bytes :=
  job.mail.raw :: job.mail.attachments.map (·.content)

theorem Job.content_mem_plaintexts {job : Job env} {x : ParsedAttachment × String}
    (hx : x ∈ job.attachments) : x.1.content ∈ job.plaintexts :=
  List.mem_cons_of_mem _ (List.mem_map_of_mem (List.of_mem_zip hx).1)

/-- The call is over. -/
def Pc.ended : Pc → Bool
  | .returned | .raised => true
  | _ => false

theorem Pc.ended_cases {pc : Pc} (h : pc.ended = true) : pc = .returned ∨ pc = .raised := by
  cases pc with
  | returned => exact .inl rfl
  | raised => exact .inr rfl
  | check | reindex | putBody | storeAttachments | upsert | insertDedup | commit | recheck
  | indexMessage | publish => cases h

/-- A bound on the steps a call has before it. -/
def Call.stepsLeft (call : Call env) : Nat :=
  match call.pc with
  | .check => 2 * call.job.attachments.length + 7
  | .putBody => 2 * call.job.attachments.length + 6
  | .storeAttachments _ todo => 2 * todo.length + 5
  | .upsert _ _ _ todo => 2 * todo.length + 6
  | .insertDedup _ _ => 4
  | .commit _ _ => 3
  | .recheck | .indexMessage _ => 2
  | .reindex _ | .publish _ => 1
  | .returned | .raised => 0

/-- A call that has to wait for nobody goes on. -/
theorem advance_isSome {s : Stores} {c : Nat} {call : Call env}
    (hlocks : s.locks.FreeFor (.worker c)) (hended : call.pc.ended = false) (draw : Draw)
    (published : Bool) : (advance s c call draw published).isSome := by
  unfold advance
  cases hpc : call.pc with
  | check | putBody | recheck =>
      simp only
      split <;> rfl
  | storeAttachments rows todo =>
      cases todo with
      | nil =>
          simp only
          split <;> rfl
      | cons next todo =>
          simp only
          split <;> rfl
  | upsert rows att sha todo =>
      simp only [if_pos (hlocks.attachments sha)]
      split <;> rfl
  | insertDedup rows id =>
      simp only [if_pos (hlocks.dedup call.job.archiveHash)]
      split <;> rfl
  | reindex | commit | indexMessage | publish => rfl
  | returned | raised => simp [hpc, Pc.ended] at hended

/-- Each step brings the call nearer to its end. -/
theorem Move.stepsLeft {s s' : Stores} {c : Nat} {call call' : Call env}
    (h : Move s c call s' call') (hended : call.pc.ended = false) :
    call'.stepsLeft < call.stepsLeft := by
  cases h with
  | duplicate hpc hdup =>
      rcases hpc with hpc | hpc
      · simp [Call.stepsLeft, hpc]
      · simp [Call.stepsLeft, hpc]
  | unknown hpc | gone hpc | reindexed hpc | bodyPut hpc | upserted hpc | flushed hpc
  | conflicted hpc | reserved hpc | committed hpc | indexed hpc | published hpc =>
      simp [Call.stepsLeft, hpc]
  | attachmentPut hpc =>
      simp [Call.stepsLeft, hpc]
      omega
  | raised =>
      show 0 < call.stepsLeft
      unfold Call.stepsLeft
      cases hpc : call.pc with
      | returned | raised => simp [hpc, Pc.ended] at hended
      | check | reindex | putBody | storeAttachments | upsert | insertDedup | commit | recheck
      | indexMessage | publish => simp

/-! ## Its locks -/

/-- The locks of a call that runs alone: its own, and none outside its
transaction. -/
structure Call.Alone (call : Call env) (c : Nat) (locks : Locks) : Prop where
  own : locks.FreeFor (.worker c)
  outside : call.pc.bodyWritten = false → locks = .none

theorem Call.Alone.of_none (call : Call env) (c : Nat) : call.Alone c .none :=
  ⟨.none _, fun _ => rfl⟩

theorem Move.alone {s s' : Stores} {c : Nat} {call call' : Call env}
    (h : Move s c call s' call') (hl : call.Alone c s.locks) : call'.Alone c s'.locks := by
  have hended : (s.release (.worker c)).locks = .none := hl.own.release
  cases h with
  | duplicate hpc hdup =>
      refine ⟨hl.own, fun _ => hl.outside ?_⟩
      rcases hpc with hpc | hpc
      · simp [hpc, Pc.bodyWritten]
      · simp [hpc, Pc.bodyWritten]
  | unknown hpc | gone hpc | reindexed hpc | indexed hpc | published hpc =>
      exact ⟨hl.own, fun _ => hl.outside (by simp [hpc, Pc.bodyWritten])⟩
  | bodyPut | attachmentPut | flushed =>
      refine ⟨hl.own, fun hout => ?_⟩
      cases hout
  | upserted =>
      refine ⟨hl.own.takeAttachment _, fun hout => ?_⟩
      cases hout
  | reserved =>
      refine ⟨hl.own.takeDedup _, fun hout => ?_⟩
      cases hout
  | committed | conflicted | raised =>
      refine ⟨?_, fun _ => hended⟩
      show (s.locks.release (.worker c)).FreeFor (.worker c)
      rw [hl.own.release]
      exact .none _

/-! ## What it archives -/

/-- Where a call on a mail that is not archived can be, when it is alone:
on its way through the checks, or archived for having passed them, or
refused for having failed one. -/
def Call.Screened (call : Call env) (db : Db) : Prop :=
  match call.pc with
  | .check | .putBody => db.findDedup call.job.archiveHash = none
  | .storeAttachments _ todo => db.findDedup call.job.archiveHash = none
      ∧ ∀ x ∈ call.job.attachments, x ∈ todo ∨ x.1.fits = true
  | .upsert _ att sha todo => db.findDedup call.job.archiveHash = none
      ∧ ∀ x ∈ call.job.attachments, x ∈ (att, sha) :: todo ∨ x.1.fits = true
  | .insertDedup _ _ | .commit _ _ =>
      db.findDedup call.job.archiveHash = none ∧ call.job.Storable
  | .indexMessage _ | .publish _ | .returned => call.job.Storable
      ∧ ∃ id, call.committed = some id ∧ call.job.msgRow id ∈ db.messages
  | .raised => ¬call.job.Storable
  | .reindex _ | .recheck => False

theorem Call.Screened.advance {s s' : Stores} {c : Nat} {call call' : Call env} {draw : Draw}
    {published : Bool} (h : call.Screened s.db) (hcoh : call.Coherent)
    (hseal : ∀ plaintext ∈ call.job.plaintexts,
      ∃ blob, sealed env.prims draw plaintext = .ok blob)
    (hadv : advance s c call draw published = some (s', call')) : call'.Screened s'.db := by
  have hatt : ∀ x ∈ call.job.attachments, ∃ blob, sealed env.prims draw x.1.content = .ok blob :=
    fun x hx => hseal _ (Job.content_mem_plaintexts hx)
  unfold MailArchiver.advance at hadv
  unfold Call.Screened at h
  cases hpc : call.pc with
  | check =>
      simp only [hpc] at h hadv
      rw [h] at hadv
      cases hadv
      exact h
  | putBody =>
      simp only [hpc] at h hadv
      obtain ⟨blob, hblob⟩ := hseal call.job.mail.raw List.mem_cons_self
      rw [hblob] at hadv
      cases hadv
      exact ⟨h, fun x hx => .inl hx⟩
  | storeAttachments rows todo =>
      cases todo with
      | nil =>
          have hfits : ∀ x ∈ call.job.attachments, x.1.fits = true := by
            intro x hx
            simp only [hpc] at h
            rcases h.2 x hx with hmem | hfit
            · cases hmem
            · exact hfit
          simp only [hpc] at h hadv
          split at hadv
          · rename_i hok
            cases hadv
            exact ⟨h.1, hok, hfits⟩
          · rename_i hrefused
            cases hadv
            exact fun hstorable => hrefused hstorable.columns
      | cons next todo =>
          obtain ⟨att, sha⟩ := next
          unfold Call.Coherent at hcoh
          simp only [hpc] at h hadv hcoh
          obtain ⟨-, behind, hatts, -⟩ := hcoh
          obtain ⟨blob, hblob⟩ := hatt (att, sha) (by simp [hatts])
          rw [hblob] at hadv
          cases hadv
          exact h
  | upsert rows att sha todo =>
      unfold Call.Coherent at hcoh
      simp only [hpc] at h hadv hcoh
      obtain ⟨-, behind, hatts, -⟩ := hcoh
      split at hadv
      · split at hadv
        · rename_i hfits
          cases hadv
          refine ⟨h.1, fun x hx => ?_⟩
          rcases h.2 x hx with hmem | hfit
          · rcases List.mem_cons.mp hmem with rfl | hmem
            · exact .inr hfits
            · exact .inl hmem
          · exact .inr hfit
        · rename_i hrefused
          cases hadv
          -- the row does not fit, so the mail does not
          exact fun hstorable => hrefused (hstorable.attachments (att, sha) (by simp [hatts]))
      · cases hadv
  | insertDedup rows id =>
      simp only [hpc] at h hadv
      rw [h.1] at hadv
      split at hadv
      · cases hadv
        exact h
      · cases hadv
  | commit rows id =>
      simp only [hpc] at h hadv
      cases hadv
      refine ⟨h.2, id, rfl, ?_⟩
      show call.job.msgRow id ∈ s.db.messages ++ [call.job.msgRow id]
      exact List.mem_append_right _ (List.mem_singleton_self _)
  | indexMessage id =>
      simp only [hpc] at h hadv
      cases hadv
      exact h
  | publish id =>
      simp only [hpc] at h hadv
      cases hadv
      exact h
  | reindex | recheck =>
      simp only [hpc] at h
  | returned | raised => simp [hpc] at hadv

/-- Where a call can be whose archive hash has its dedup row: it archives
nothing. -/
def Call.Known (call : Call env) (db : Db) : Prop :=
  call.committed = none ∧
    match call.pc with
    | .check => (db.findDedup call.job.archiveHash).isSome
    | .reindex _ | .returned => True
    | _ => False

theorem Call.Known.advance {s s' : Stores} {c : Nat} {call call' : Call env} {draw : Draw}
    {published : Bool} (h : call.Known s.db)
    (hadv : advance s c call draw published = some (s', call')) : call'.Known s'.db := by
  obtain ⟨hnone, hplace⟩ := h
  unfold MailArchiver.advance at hadv
  cases hpc : call.pc with
  | check =>
      simp only [hpc] at hplace hadv
      obtain ⟨dup, hdup⟩ := Option.isSome_iff_exists.mp hplace
      rw [hdup] at hadv
      cases hadv
      exact ⟨hnone, trivial⟩
  | reindex dup =>
      simp only [hpc] at hadv
      cases hadv
      exact ⟨hnone, trivial⟩
  | returned => simp [hpc] at hadv
  | putBody | storeAttachments | upsert | insertDedup | commit | recheck | indexMessage | publish
  | raised => simp [hpc] at hplace

end MailArchiver

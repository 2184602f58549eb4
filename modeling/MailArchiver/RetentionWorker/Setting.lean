import MailArchiver.Api.Settings
import MailArchiver.Common.Calendar
import MailArchiver.RetentionWorker.Retention

/-!
# RetentionWorker — Setting

The setting `retention_days` on its way from `PATCH /settings` to the
cutoff of `run_retention`. The API accepts every number from 0 on, and the
worker reads it back as it was given; its calendar ends at the first day
of year 1, and a setting beyond it ends every run with an
`OverflowError`.
-/

namespace MailArchiver

/-! ## Going back by days -/

theorem DateTime.one_le_toordinal (t : DateTime) : 1 ≤ t.date.toordinal := by
  have := t.date_valid.day.1
  rw [Date.toordinal]
  omega

/-- The day before, if there is one. -/
theorem prevDay_toordinal {t u : DateTime} (h : t.prevDay = some u) :
    u.date.toordinal + 1 = t.date.toordinal ∧ u.time = t.time := by
  obtain ⟨-, -, -, -, hday, -⟩ := t.valid
  unfold DateTime.prevDay at h
  split at h
  · obtain rfl := Option.some.inj h
    refine ⟨?_, rfl⟩
    simp only [DateTime.date, Date.toordinal]
    omega
  · split at h
    · -- The first of a month: the last of the month before.
      rename_i hfirst hmonth
      obtain rfl := Option.some.inj h
      refine ⟨?_, rfl⟩
      have hlength := @daysBeforeMonth_succ t.year (t.month - 1) (by omega)
      rw [Nat.sub_add_cancel (by omega)] at hlength
      simp only [DateTime.date, Date.toordinal]
      omega
    · split at h
      · -- The first of January: the last day of the year before.
        rename_i hfirst hjanuary hyear
        obtain rfl := Option.some.inj h
        refine ⟨?_, rfl⟩
        have hlength := @daysBeforeYear_succ (t.year - 1) (by omega)
        rw [Nat.sub_add_cancel (by omega), ← daysBeforeMonth_thirteen,
          daysBeforeMonth_succ (by decide),
          show daysInMonth (t.year - 1) 12 = 31 from rfl] at hlength
        have hmonth : t.month = 1 := by
          have := t.valid
          omega
        have hzero : daysBeforeMonth t.year 1 = 0 := rfl
        simp only [DateTime.date, Date.toordinal, hmonth]
        omega
      · cases h

theorem prevDay_eq_none {t : DateTime} (h : t.prevDay = none) : t.date.toordinal = 1 := by
  unfold DateTime.prevDay at h
  split at h
  · cases h
  · split at h
    · cases h
    · split at h
      · cases h
      · have hvalid := t.valid
        have hday : t.day = 1 := by omega
        have hmonth : t.month = 1 := by omega
        have hyear : t.year = 1 := by omega
        simp [DateTime.date, Date.toordinal, hday, hmonth, hyear, daysBeforeYear, daysBeforeMonth]

/-- `t - timedelta(days=n)` is `n` days before, at the same time. -/
theorem minusDays_toordinal {n : Nat} {t c : DateTime} (h : t.minusDays n = some c) :
    c.date.toordinal + n = t.date.toordinal ∧ c.time = t.time := by
  induction n generalizing t with
  | zero =>
      obtain rfl := Option.some.inj h
      exact ⟨rfl, rfl⟩
  | succ n ih =>
      obtain ⟨u, hu, hc⟩ := Option.bind_eq_some_iff.mp h
      obtain ⟨hday, htime⟩ := prevDay_toordinal hu
      obtain ⟨hrest, htime'⟩ := ih hc
      exact ⟨by omega, htime'.trans htime⟩

/-- **The subtraction overflows exactly from the ordinal of the date on.** -/
theorem minusDays_eq_none_iff {n : Nat} {t : DateTime} :
    t.minusDays n = none ↔ t.date.toordinal ≤ n := by
  induction n generalizing t with
  | zero =>
      have := t.one_le_toordinal
      refine iff_of_false (by simp [DateTime.minusDays]) (by omega)
  | succ n ih =>
      rw [DateTime.minusDays]
      cases hprev : t.prevDay with
      | none =>
          have := prevDay_eq_none hprev
          exact iff_of_true rfl (by omega)
      | some u =>
          have := (prevDay_toordinal hprev).1
          rw [Option.bind_some, ih]
          omega

/-! ## The setting of a run -/

/-- `_DEFAULT_RETENTION_DAYS`. -/
def defaultRetentionDays : Int := 365

/-- `_retention_days(session)`. -/
def readRetentionDays (s : AppSettings) : Int :=
  match s.value "retention_days" with
  | none => defaultRetentionDays
  | some text =>
      match pyInt text with
      | .ok days => days
      | .error _ => defaultRetentionDays

/-- A call of `run_retention` under the settings stored. -/
def AppSettings.call (settings : AppSettings) (now : DateTime) (listing : Option (List String))
    (deleted : String → Bool) : RetentionCall where
  now := now
  retentionDays := readRetentionDays settings
  listing := listing
  deleted := deleted

/-- A setting of `n` days is usable at the time `now`: it is read back, every
run completes, 0 purges nothing, and what a run takes away, from the tables
or from the index, is more than `n` days old. -/
structure Usable (base : String) (now : DateTime) (settings : AppSettings) (n : Int) : Prop where
  readBack : readRetentionDays settings = n
  completes : ∀ listing deleted (s : Stores), s.db.Keys →
    ∃ s', Retains base (settings.call now listing deleted) s s'
  disabled : n = 0 → ∀ listing deleted s s',
    Retains base (settings.call now listing deleted) s s' → s' = s
  onlyOlder : ∀ listing deleted s s', s.db.Keys →
    Retains base (settings.call now listing deleted) s s' →
      ∀ m ∈ s.db.messages, m ∉ s'.db.messages → now.OlderThan n.toNat m.signedAt
  onlyOlderDocs : ∀ listing deleted s s',
    Retains base (settings.call now listing deleted) s s' →
      ∀ (t : DateTime) id doc, s.index.docs (dailyIndex base t.isoformat) id = some doc →
        s'.index.docs (dailyIndex base t.isoformat) id ≠ some doc → now.OlderThan n.toNat t

/-- The setting an accepted request leaves is read back unchanged. -/
theorem readRetentionDays_stored {P : Primitives} {draw : Draw} {s s' : AppSettings}
    {req : SettingsUpdateRequest} {n : Int} (hn : req.retentionDays = some n)
    (h : updateAppSettings P draw s req = .stored s') : readRetentionDays s' = n := by
  obtain ⟨hpos, text, htext, hvalue⟩ := stored_retentionDays hn h
  obtain ⟨k, rfl⟩ := Int.eq_ofNat_of_zero_le hpos
  rw [readRetentionDays, hvalue]
  simp only [pyInt_pyStr htext]

section

variable {base : String} {now : DateTime} {settings : AppSettings} {n : Nat}

theorem call_cutoff (hread : readRetentionDays settings = n) (listing : Option (List String))
    (deleted : String → Bool) :
    (settings.call now listing deleted).cutoff = now.minusDays n := by
  rw [RetentionCall.cutoff, AppSettings.call, hread]
  rfl

/-- A run completes exactly when it is disabled or its cutoff exists. -/
theorem completes_iff (hread : readRetentionDays settings = n) {listing : Option (List String)}
    {deleted : String → Bool} {s : Stores} (hkeys : s.db.Keys) :
    (∃ s', Retains base (settings.call now listing deleted) s s') ↔
      n = 0 ∨ n < now.date.toordinal := by
  have hcutoff := @call_cutoff now settings n hread listing deleted
  have hdays : (settings.call now listing deleted).retentionDays = n := hread
  constructor
  · rintro ⟨s', batch, -, hrun⟩
    by_cases hzero : n = 0
    · exact .inl hzero
    · rw [runRetention, hdays, if_neg (by omega), hcutoff] at hrun
      obtain ⟨cutoff, hsome, -⟩ := Option.map_eq_some_iff.mp hrun
      have hnone := (@minusDays_eq_none_iff n now).not.mp (by simp [hsome])
      exact .inr (by omega)
  · intro hcond
    obtain ⟨cutoff, hsome⟩ : ∃ cutoff, now.minusDays n = some cutoff := by
      rw [← Option.ne_none_iff_exists', Ne, minusDays_eq_none_iff]
      have := now.one_le_toordinal
      omega
    obtain ⟨batch, hbatch, -⟩ := exists_batch hkeys cutoff fun _ => true
    rw [hsome] at hcutoff
    have hall : ∀ c, (settings.call now listing deleted).cutoff = some c → IsBatch s.db c batch := by
      intro c hc
      rw [hcutoff] at hc
      obtain rfl := Option.some.inj hc
      exact hbatch
    by_cases hzero : n = 0
    · exact ⟨s, batch, hall, by rw [runRetention, hdays, if_pos (by omega)]⟩
    · exact ⟨_, batch, hall, by rw [runRetention, hdays, if_neg (by omega), hcutoff]; rfl⟩

/-- What a run that purges takes away is older than its setting. -/
theorem retains_older (hread : readRetentionDays settings = n) {listing : Option (List String)}
    {deleted : String → Bool} {s s' : Stores}
    (h : Retains base (settings.call now listing deleted) s s') :
    n = 0 ∧ s' = s ∨ 0 < n ∧ ∃ batch cutoff, IsBatch s.db cutoff batch ∧
      s' = s.retained base (settings.call now listing deleted) cutoff batch ∧
      ∀ t, now.OlderThan n t ↔ t.before cutoff = true := by
  have hdays : (settings.call now listing deleted).retentionDays = n := hread
  obtain ⟨batch, hbatch, hrun⟩ := h
  rw [runRetention, hdays] at hrun
  split at hrun
  · exact .inl ⟨by omega, (Option.some.inj hrun).symm⟩
  · obtain ⟨cutoff, hcutoff, rfl⟩ := Option.map_eq_some_iff.mp hrun
    refine .inr ⟨by omega, batch, cutoff, hbatch cutoff hcutoff, rfl, fun t => ?_⟩
    rw [call_cutoff hread] at hcutoff
    obtain ⟨hdate, htime⟩ := minusDays_toordinal hcutoff
    exact olderThan_iff_before hdate htime

/-- **When an accepted setting is usable**: at any time and whatever the
request, exactly when it is 0 or goes back less far than the calendar. -/
theorem setting_usable_iff {P : Primitives} {draw : Draw} {s s' : AppSettings}
    {req : SettingsUpdateRequest} {n : Int} (hn : req.retentionDays = some n)
    (hstored : updateAppSettings P draw s req = .stored s') (base : String) (now : DateTime) :
    Usable base now s' n ↔ n = 0 ∨ n < now.date.toordinal := by
  have hread := readRetentionDays_stored hn hstored
  obtain ⟨k, rfl⟩ := Int.eq_ofNat_of_zero_le (stored_retentionDays hn hstored).1
  constructor
  · intro husable
    have hkeys : Stores.init.db.Keys :=
      ⟨List.nodup_nil, List.nodup_nil, List.nodup_nil, List.nodup_nil, List.nodup_nil⟩
    have hrun := husable.completes none (fun _ => true) Stores.init hkeys
    have := (completes_iff hread hkeys).mp hrun
    omega
  · intro hcond
    refine ⟨hread, fun listing deleted st hkeys => ?_, ?_, ?_, ?_⟩
    · exact (completes_iff hread hkeys).mpr (by omega)
    · intro hzero listing deleted st st' h
      rcases retains_older hread h with ⟨-, heq⟩ | ⟨hpos, -⟩
      · exact heq
      · omega
    · intro listing deleted st st' hkeys h m hm hgone
      rcases retains_older hread h with ⟨-, rfl⟩ | ⟨-, batch, cutoff, hbatch, rfl, holder⟩
      · exact absurd hm hgone
      · have hmem : m ∈ batch := by
          by_contra hnot
          exact hgone ((mem_retained hkeys hbatch).mpr ⟨hm, hnot⟩)
        have hexpired := (hbatch.2.1 m hmem).2
        rw [isExpired, Bool.and_eq_true] at hexpired
        exact (holder m.signedAt).mpr hexpired.1
    · intro listing deleted st st' h t id doc hdoc hgone
      rcases retains_older hread h with ⟨-, rfl⟩ | ⟨-, batch, cutoff, -, rfl, holder⟩
      · exact absurd hdoc hgone
      · have hdrop : DropsIndex base cutoff listing deleted (dailyIndex base t.isoformat) := by
          by_contra hnot
          exact hgone (docs_retained.mpr ⟨hdoc, hnot⟩)
        exact (holder t).mpr (before_of_date (dropsIndex_dailyIndex hdrop))

end

/-! ## A retention of a million days -/

/-- A request that sets the retention alone. -/
def retentionRequest (n : Int) : SettingsUpdateRequest where
  retentionDays := some n
  smtpHost := none
  smtpPort := none
  smtpUsername := none
  smtpPassword := none
  smtpStarttls := none
  smtpFrom := none
  smtpdHost := none
  smtpdPort := none
  smtpdRequireStarttls := none
  smtpdMaxMessageBytes := none

/-- No setting stored yet. -/
def noSettings : AppSettings := ⟨fun _ => none⟩

/-- The request is accepted, and no run of the worker gets to its end. -/
theorem million_days_overflows : ∃ settings,
    updateAppSettings sampleAnswers.primitives sampleDraw noSettings (retentionRequest 1000000)
      = .stored settings ∧
    (∀ base listing deleted batch s,
      runRetention base (settings.call sampleTime listing deleted) batch s = none) ∧
    ∀ base, ¬Usable base sampleTime settings 1000000 := by
  have hstored : ∃ settings, updateAppSettings sampleAnswers.primitives sampleDraw noSettings
      (retentionRequest 1000000) = .stored settings := ⟨_, rfl⟩
  obtain ⟨settings, hstored⟩ := hstored
  have hread : readRetentionDays settings = (1000000 : Nat) :=
    readRetentionDays_stored rfl hstored
  have hnone : sampleTime.minusDays 1000000 = none := by
    rw [minusDays_eq_none_iff]
    decide
  have hoverflows : ∀ base listing deleted batch s,
      runRetention base (settings.call sampleTime listing deleted) batch s = none := by
    intro base listing deleted batch s
    have hdays : (settings.call sampleTime listing deleted).retentionDays = (1000000 : Nat) := hread
    rw [runRetention, hdays, if_neg (by decide), call_cutoff hread, hnone]
    rfl
  refine ⟨settings, hstored, hoverflows, fun base husable => ?_⟩
  obtain ⟨s', batch, -, hrun⟩ := husable.completes none (fun _ => true) Stores.init
    ⟨List.nodup_nil, List.nodup_nil, List.nodup_nil, List.nodup_nil, List.nodup_nil⟩
  rw [hoverflows] at hrun
  cases hrun

/-- The default setting is usable. -/
theorem one_year_usable : ∃ settings,
    updateAppSettings sampleAnswers.primitives sampleDraw noSettings (retentionRequest 365)
      = .stored settings ∧ Usable "messages" sampleTime settings 365 := by
  obtain ⟨settings, hstored⟩ : ∃ settings, updateAppSettings sampleAnswers.primitives sampleDraw
      noSettings (retentionRequest 365) = .stored settings := ⟨_, rfl⟩
  exact ⟨settings, hstored,
    (setting_usable_iff rfl hstored "messages" sampleTime).mpr (.inr (by decide))⟩

end MailArchiver

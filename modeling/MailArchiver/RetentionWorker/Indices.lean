import MailArchiver.ArchiverWorker.Indexer

/-!
# RetentionWorker — Indices

The first half of `run_retention`: the cutoff, and `_drop_old_indices`,
which drops the daily indices whose name reads as a day before the
cutoff's. The name is read back with `strptime`; on the names
`daily_index` makes it finds the day the message was signed
(`indexDay_dailyIndex`).
-/

namespace MailArchiver

/-! ## The cutoff -/

/-- `t - timedelta(days=1)`; the first day of year 1 has none before it. -/
def DateTime.prevDay (t : DateTime) : Option DateTime :=
  if h : 1 < t.day then
    some { t with
      day := t.day - 1
      valid := by
        have := t.valid
        omega }
  else if h : 1 < t.month then
    some { t with
      month := t.month - 1
      day := daysInMonth t.year (t.month - 1)
      valid := by
        have := t.valid
        have := one_le_daysInMonth t.year (t.month - 1)
        omega }
  else if h : 1 < t.year then
    some { t with
      year := t.year - 1
      month := 12
      day := 31
      valid := by
        have := t.valid
        have : daysInMonth (t.year - 1) 12 = 31 := rfl
        omega }
  else none

/-- `t - timedelta(days=n)`; `none` is the `OverflowError`. -/
def DateTime.minusDays (t : DateTime) : Nat → Option DateTime
  | 0 => some t
  | n + 1 => t.prevDay.bind (·.minusDays n)

example : (sampleTime.minusDays 365).map (·.date) = some ⟨2025, 3, 14⟩ := by decide +kernel

/-! ## Reading a day back -/

/-- A field of digits, at most `width` of them, in a range. Digits other
than the ASCII ones do not come up in index names. -/
def numeral (width low high : Nat) (cs : List Char) : Option Nat :=
  if 0 < cs.length ∧ cs.length ≤ width ∧ cs.all Char.isDigit
      ∧ low ≤ Nat.ofDigitChars 10 cs 0 ∧ Nat.ofDigitChars 10 cs 0 ≤ high then
    some (Nat.ofDigitChars 10 cs 0)
  else none

/-- The field `%Y`: four digits. -/
def yearField (cs : List Char) : Option Nat :=
  if cs.length = 4 then numeral 4 0 9999 cs else none

/-- The field `%m`. -/
def monthField (cs : List Char) : Option Nat := numeral 2 1 12 cs

/-- The field `%d`, which a blank may pad. -/
def dayField : List Char → Option Nat
  | ' ' :: cs => numeral 1 1 9 cs
  | cs => numeral 2 1 31 cs

/-- `datetime.strptime(datestr, "%Y.%m.%d").date()`; `none` is the
`ValueError`, of a text in another format or a day the calendar lacks. -/
def strptimeDate (datestr : String) : Option Date :=
  match datestr.toList.splitOn '.' with
  | [y, m, d] => do
      let year ← yearField y
      let month ← monthField m
      let day ← dayField d
      if 1 ≤ year ∧ day ≤ daysInMonth year month then some ⟨year, month, day⟩ else none
  | _ => none

theorem numeral_zeroPad {width low high n : Nat} (hwidth : 0 < width) (hn : n < 10 ^ width)
    (hlow : low ≤ n) (hhigh : n ≤ high) :
    numeral width low high (zeroPad width n).toList = some n := by
  have hlen := length_zeroPad hwidth hn
  have hdigits : (zeroPad width n).toList.all Char.isDigit = true := by
    rw [List.all_eq_true]
    exact fun c hc => isDigit_zeroPad hc
  rw [numeral, ofDigitChars_zeroPad, if_pos ⟨by omega, by omega, hdigits, hlow, hhigh⟩]

theorem dayField_zeroPad {n : Nat} (hlow : 1 ≤ n) (hhigh : n ≤ 31) :
    dayField (zeroPad 2 n).toList = some n := by
  have hread := @numeral_zeroPad 2 1 31 n (by decide) (by omega) hlow hhigh
  cases hcs : (zeroPad 2 n).toList with
  | nil => rw [← hcs, ← hread, hcs]; rfl
  | cons c cs =>
      have hc : c ≠ ' ' := by
        rintro rfl
        have := @isDigit_zeroPad 2 n ' ' (by rw [hcs]; exact List.mem_cons_self)
        exact absurd this (by decide)
      rw [hcs] at hread
      rw [dayField]
      · exact hread
      · intro cs' heq
        exact hc (List.cons.inj heq).1

/-! ## The day of an index -/

/-- The day `_drop_old_indices` reads in the name of an index: what
follows `len(base) + 1` characters. -/
def indexDay (base name : String) : Option Date :=
  strptimeDate (String.ofList (name.toList.drop (base.length + 1)))

/-- The first ten characters of `isoformat()`, dashes turned to dots. -/
theorem take_isoformat (t : DateTime) :
    ((t.isoformat.toList.take 10).map fun c => if c = '-' then '.' else c) =
      ['.'].intercalate [(zeroPad 4 t.year).toList, (zeroPad 2 t.month).toList,
        (zeroPad 2 t.day).toList] := by
  obtain ⟨h₁, h₂, h₃, h₄, h₅, h₆, -⟩ := t.valid
  have hdays := daysInMonth_le t.year t.month
  have hy := @length_zeroPad 4 t.year (by decide) (by omega)
  have hm := @length_zeroPad 2 t.month (by decide) (by omega)
  have hd := @length_zeroPad 2 t.day (by decide) (by omega)
  have hsame : ∀ width n, (zeroPad width n).toList.map (fun c => if c = '-' then '.' else c)
      = (zeroPad width n).toList := by
    intro width n
    refine (List.map_congr_left fun c hc => if_neg ?_).trans (List.map_id _)
    rintro rfl
    exact absurd (isDigit_zeroPad hc) (by decide)
  obtain ⟨rest, hrest⟩ : ∃ rest, t.isoformat.toList =
      ((zeroPad 4 t.year).toList ++ '-' :: (zeroPad 2 t.month).toList
        ++ '-' :: (zeroPad 2 t.day).toList) ++ rest := by
    have hdash : "-".toList = ['-'] := rfl
    simp only [DateTime.isoformat, String.toList_append, List.append_assoc, hdash,
      List.cons_append, List.nil_append]
    exact ⟨_, rfl⟩
  rw [hrest, List.take_left' (by simp [hy, hm, hd])]
  simp [hsame, List.intercalate, List.intersperse]

/-- **The day of a daily index is the day of the instant it was named
after.** -/
theorem indexDay_dailyIndex (base : String) (t : DateTime) :
    indexDay base (dailyIndex base t.isoformat) = some t.date := by
  obtain ⟨h₁, h₂, h₃, h₄, h₅, h₆, -⟩ := t.valid
  have hdays : t.day ≤ 31 := Nat.le_trans h₆ (daysInMonth_le ..)
  have hdot : ∀ l ∈ [(zeroPad 4 t.year).toList, (zeroPad 2 t.month).toList,
      (zeroPad 2 t.day).toList], '.' ∉ l := by
    intro l hl hdot
    simp only [List.mem_cons, List.not_mem_nil, or_false] at hl
    rcases hl with rfl | rfl | rfl
    · exact absurd (isDigit_zeroPad hdot) (by decide)
    · exact absurd (isDigit_zeroPad hdot) (by decide)
    · exact absurd (isDigit_zeroPad hdot) (by decide)
  have hlen : ((t.isoformat.toList.take 10).map fun c => if c = '-' then '.' else c).length
      = 10 := by
    rw [take_isoformat]
    simp [List.intercalate, List.intersperse, @length_zeroPad 4 t.year (by decide) (by omega),
      @length_zeroPad 2 t.month (by decide) (by omega),
      @length_zeroPad 2 t.day (by decide) (by omega)]
  have hname : (dailyIndex base t.isoformat).toList.drop (base.length + 1)
      = (t.isoformat.toList.take 10).map fun c => if c = '-' then '.' else c := by
    simp only [dailyIndex, hlen, if_true, String.toList_append, String.toList_ofList]
    exact List.drop_left' (by simp [String.length_toList])
  have hyear : yearField (zeroPad 4 t.year).toList = some t.year := by
    rw [yearField, if_pos (length_zeroPad (by decide) (by omega))]
    exact numeral_zeroPad (by decide) (by omega) (Nat.zero_le _) h₂
  have hmonth : monthField (zeroPad 2 t.month).toList = some t.month :=
    numeral_zeroPad (by decide) (by omega) h₃ h₄
  rw [indexDay, hname, take_isoformat, strptimeDate, String.toList_ofList,
    List.splitOn_intercalate '.' hdot (by simp)]
  simp [hyear, hmonth, dayField_zeroPad h₅ hdays, h₁, h₆, DateTime.date]

/-! ## Dropping -/

/-- `indices.delete(index=name)`. -/
def SearchIndex.deleteIndex (x : SearchIndex) (name : String) : SearchIndex :=
  ⟨fun n i => if n = name then none else x.docs n i⟩

/-- Whether the day in the name of an index is before the cutoff's; a name
that does not end in a day is passed over. -/
def isOldIndex (base : String) (cutoff : DateTime) (name : String) : Bool :=
  match indexDay base name with
  | none => false
  | some idxDay => idxDay.before cutoff.date

/-- `_drop_old_indices(os_client, base, cutoff)`. The names
`indices.get` returns are `listing`, unless it raises; `deleted name` when
the deletion of that index takes effect, whether or not it raises. -/
def dropOldIndices (base : String) (cutoff : DateTime) (listing : Option (List String))
    (deleted : String → Bool) (x : SearchIndex) : SearchIndex :=
  match listing with
  | none => x
  | some names =>
      names.foldl (fun x name =>
        if isOldIndex base cutoff name && deleted name then x.deleteIndex name else x) x

/-- The indices a call takes away. -/
def DropsIndex (base : String) (cutoff : DateTime) (listing : Option (List String))
    (deleted : String → Bool) (name : String) : Prop :=
  name ∈ listing.getD [] ∧ isOldIndex base cutoff name = true ∧ deleted name = true

theorem docs_dropOldIndices {base : String} {cutoff : DateTime} {listing : Option (List String)}
    {deleted : String → Bool} {x : SearchIndex} {n : String} {i : Nat} {doc : IndexDoc} :
    (dropOldIndices base cutoff listing deleted x).docs n i = some doc ↔
      x.docs n i = some doc ∧ ¬DropsIndex base cutoff listing deleted n := by
  cases listing with
  | none => simp [dropOldIndices, DropsIndex]
  | some names =>
      simp only [dropOldIndices, DropsIndex, Option.getD_some]
      induction names generalizing x with
      | nil => simp
      | cons name names ih =>
          rw [List.foldl_cons, ih]
          by_cases hdrop : (isOldIndex base cutoff name && deleted name) = true
          · rw [if_pos hdrop]
            rw [Bool.and_eq_true] at hdrop
            by_cases hn : n = name
            · simp [SearchIndex.deleteIndex, hn, hdrop]
            · simp [SearchIndex.deleteIndex, hn]
          · rw [if_neg hdrop]
            rw [Bool.and_eq_true] at hdrop
            by_cases hn : n = name
            · subst hn
              simp [hdrop]
            · simp [hn]

/-- On a daily index the call decides by the day the message was signed. -/
theorem isOldIndex_dailyIndex (base : String) (cutoff t : DateTime) :
    isOldIndex base cutoff (dailyIndex base t.isoformat) = t.date.before cutoff.date := by
  rw [isOldIndex, indexDay_dailyIndex]

/-! ## Exactly the expired days -/

/-- What the worker relies on `indices.get(index=f"{base}-*")` for: an
index that holds something and has the prefix is among the names. -/
def ListsIndices (base : String) (x : SearchIndex) (names : List String) : Prop :=
  ∀ name id doc, x.docs name id = some doc →
    (base ++ "-").toList <+: name.toList → name ∈ names

theorem dailyIndex_startsWith (base iso : String) :
    (base ++ "-").toList <+: (dailyIndex base iso).toList := by
  simp only [dailyIndex]
  split
  · exact ⟨_, (String.toList_append ..).symm⟩
  · refine ⟨"unknown".toList, ?_⟩
    simp [String.toList_append]

/-- An index a call takes away is one of a day before the cutoff's. -/
theorem dropsIndex_dailyIndex {base : String} {cutoff t : DateTime}
    {listing : Option (List String)} {deleted : String → Bool}
    (h : DropsIndex base cutoff listing deleted (dailyIndex base t.isoformat)) :
    t.date.before cutoff.date = true := by
  rw [← isOldIndex_dailyIndex base cutoff t]
  exact h.2.1

/-- No call takes away a document signed at or after the cutoff, whatever
the listing says and whichever deletions succeed. -/
theorem docs_dropOldIndices_of_not_before {base : String} {cutoff t : DateTime}
    {listing : Option (List String)} {deleted : String → Bool} {x : SearchIndex} {dbId : Nat}
    {doc : IndexDoc} (hheld : x.docs (dailyIndex base t.isoformat) dbId = some doc)
    (hnew : t.before cutoff = false) :
    (dropOldIndices base cutoff listing deleted x).docs (dailyIndex base t.isoformat) dbId
      = some doc := by
  rw [docs_dropOldIndices]
  refine ⟨hheld, fun hdrop => ?_⟩
  have hbefore := before_of_date (dropsIndex_dailyIndex hdrop)
  rw [hnew] at hbefore
  cases hbefore

/-- **Index dropping removes exactly the expired days.** The daily index
that holds a document signed at `t` goes if and only if the day of `t` is
before the cutoff's; a document signed at or after the cutoff stays even
when the listing or some deletion fails. -/
theorem dropOldIndices_exact {base : String} {cutoff t : DateTime} {names : List String}
    {deleted : String → Bool} {x : SearchIndex} {dbId : Nat} {doc : IndexDoc}
    (harchived : doc.archivedAt = t.isoformat)
    (hheld : x.docs (dailyIndex base doc.archivedAt) dbId = some doc)
    (hlists : ListsIndices base x names) (hdeleted : ∀ name ∈ names, deleted name = true) :
    ((∀ id, (dropOldIndices base cutoff (some names) deleted x).docs
        (dailyIndex base doc.archivedAt) id = none) ↔ t.date.before cutoff.date = true) ∧
    ((dropOldIndices base cutoff (some names) deleted x).docs
        (dailyIndex base doc.archivedAt) dbId = some doc ↔ t.date.before cutoff.date = false) ∧
    (t.before cutoff = false → ∀ listing deleted',
      (dropOldIndices base cutoff listing deleted' x).docs
        (dailyIndex base doc.archivedAt) dbId = some doc) := by
  rw [harchived] at hheld ⊢
  have hlisted := hlists _ _ _ hheld (dailyIndex_startsWith base t.isoformat)
  have hdrops : DropsIndex base cutoff (some names) deleted (dailyIndex base t.isoformat) ↔
      t.date.before cutoff.date = true := by
    refine ⟨dropsIndex_dailyIndex, fun hold => ⟨hlisted, ?_, hdeleted _ hlisted⟩⟩
    rw [isOldIndex_dailyIndex, hold]
  refine ⟨⟨fun hgone => ?_, fun hold id => ?_⟩, ?_, fun hnew listing deleted' =>
    docs_dropOldIndices_of_not_before hheld hnew⟩
  · -- The document was there: it can only be gone with its index.
    rw [← hdrops]
    by_contra hkept
    have := docs_dropOldIndices.mpr ⟨hheld, hkept⟩
    rw [hgone dbId] at this
    cases this
  · rw [Option.eq_none_iff_forall_not_mem]
    intro d hd
    exact (docs_dropOldIndices.mp hd).2 (hdrops.mpr hold)
  · rw [docs_dropOldIndices, hdrops, Bool.not_eq_true]
    exact ⟨fun h => h.2, fun h => ⟨hheld, h⟩⟩

/-- The day before the sample instant. -/
def dayBefore : DateTime := { sampleTime with day := 13, valid := by decide }

/-- A document signed on that day. -/
def expiredDoc : IndexDoc where
  docId := some 1
  messageId := "m"
  date := dayBefore.isoformat
  archivedAt := dayBefore.isoformat
  fromAddr := "bob@x.fr"
  toAddrs := []
  ccAddrs := []
  subject := "s"
  body := "b"
  hasAttachment := false
  attachmentNames := []
  sizeBytes := 1
  retentionClass := "default"

theorem dropOldIndices_exact_sample :
    (dropOldIndices "messages" sampleTime (some ["messages-2026.03.13"]) (fun _ => true)
      (SearchIndex.empty.indexMessage "messages" 1 expiredDoc)).docs
        (dailyIndex "messages" expiredDoc.archivedAt) = fun _ => none := by
  have hname : dailyIndex "messages" expiredDoc.archivedAt = "messages-2026.03.13" := by
    decide +kernel
  have hheld : (SearchIndex.empty.indexMessage "messages" 1 expiredDoc).docs
      (dailyIndex "messages" expiredDoc.archivedAt) 1 = some expiredDoc := by
    rw [SearchIndex.docs_indexMessage, if_pos ⟨rfl, rfl⟩]
  have hlists : ListsIndices "messages"
      (SearchIndex.empty.indexMessage "messages" 1 expiredDoc) ["messages-2026.03.13"] := by
    intro name id doc hdoc _
    rw [SearchIndex.docs_indexMessage, hname] at hdoc
    split at hdoc
    · rename_i hat
      rw [hat.1]
      exact List.mem_singleton_self _
    · cases hdoc
  have hday : dayBefore.date.before sampleTime.date = true := by decide
  exact funext ((@dropOldIndices_exact "messages" sampleTime dayBefore ["messages-2026.03.13"]
    (fun _ => true) _ 1 expiredDoc rfl hheld hlists (fun _ _ => rfl)).1.mpr hday)

end MailArchiver

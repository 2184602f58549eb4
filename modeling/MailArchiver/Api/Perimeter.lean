import MailArchiver.ArchiverWorker.Job
import MailArchiver.Api.MailAccess
import MailArchiver.Api.Search

/-!
# Api — Perimeter

The accounts of `api/auth.py` and the two perimeter functions of
`api/main.py`, and how the three checks built on a perimeter compare: the
restriction of a search, the access check of a view or an export, and the
filter of the live stream. All three compare lower-cased addresses of the
perimeter; only the search compares them to addresses as written.
-/

namespace MailArchiver

/-- `AuthenticatedUser`. -/
structure AuthenticatedUser where
  username : String
  displayName : String
  role : String
  isAdmin : Bool
  email : Option String
  auditedEmails : Option (List String)
  deriving DecidableEq, Repr

variable (e : Engine) (lower : String → String)

/-- `_scope_addresses(user)`: no restriction for an administrator; an
auditor's audited addresses; a user's own address, if any. -/
def scopeAddresses (user : AuthenticatedUser) : Option (List String) :=
  if user.isAdmin then none
  else if user.role = "auditor" then some ((user.auditedEmails.getD []).map lower)
  else
    match user.email with
    | none => some []
    | some a => if a = "" then some [] else some [lower a]

/-- `_event_visible(event, user)`. -/
def eventVisible (event : LiveEvent) (user : AuthenticatedUser) : Bool :=
  match scopeAddresses lower user with
  | none => true
  | some [] => false
  | some (a :: as) =>
      (a :: as).any fun x => x ∈ parties lower event.fromAddr event.toAddrs event.ccAddrs

/-! ## The three checks -/

/-- The addresses of a mail, as `parse` extracts them. -/
def ParsedMail.addrs (mail : ParsedMail) : List String :=
  mail.fromAddr :: (mail.toAddrs ++ mail.ccAddrs)

variable {e lower} {env : Env}

theorem mem_parties {x fromAddr : String} {toAddrs ccAddrs : List String} :
    x ∈ parties lower fromAddr toAddrs ccAddrs ↔
      ∃ a ∈ fromAddr :: (toAddrs ++ ccAddrs), lower a = x := by
  rw [parties, ← List.map_append, ← List.map_cons, List.mem_map]

/-- The search shows the mail: an address as written is in the scope. -/
theorem withinScope_freshDoc (job : Job env) (id : Nat) (scope : List String) :
    withinScope e lower scope (job.freshDoc id) = true ↔
      ∃ a ∈ job.mail.addrs, a ∈ scope.map lower :=
  withinScope_iff ..

/-- A view is allowed: an address of the mail is one of the scope's, up to
lower-casing. -/
theorem canAccess_iff {msg : Message} {scope : List String} :
    canAccess lower msg (some scope) = true ↔
      ∃ x ∈ scope, ∃ a ∈ msg.fromAddr :: (msg.toAddrs ++ msg.ccAddrs), lower a = lower x := by
  have hany : canAccess lower msg (some scope) =
      scope.any fun x => lower x ∈ parties lower msg.fromAddr msg.toAddrs msg.ccAddrs := by
    cases scope <;> rfl
  simp only [hany, List.any_eq_true, decide_eq_true_eq, mem_parties]

theorem canAccess_msgRow (job : Job env) (id : Nat) (scope : List String) :
    canAccess lower (job.msgRow id) (some scope) = true ↔
      ∃ a ∈ job.mail.addrs, lower a ∈ scope.map lower := by
  simp only [canAccess_iff, List.mem_map]
  constructor
  · rintro ⟨x, hx, a, ha, hax⟩
    exact ⟨a, ha, x, hx, hax.symm⟩
  · rintro ⟨a, ha, x, hx, hxa⟩
    exact ⟨x, hx, a, ha, hxa.symm⟩

/-- The live stream shows the mail: a lower-cased address is in the scope. -/
theorem eventVisible_event (job : Job env) (id : Nat) {user : AuthenticatedUser}
    {scope : List String} (h : scopeAddresses lower user = some scope) :
    eventVisible lower (job.event id) user = true ↔ ∃ a ∈ job.mail.addrs, lower a ∈ scope := by
  have hany : eventVisible lower (job.event id) user =
      scope.any fun x => x ∈ parties lower job.mail.fromAddr job.mail.toAddrs
        job.mail.ccAddrs := by
    unfold eventVisible
    rw [h]
    cases scope <;> rfl
  simp only [hany, List.any_eq_true, decide_eq_true_eq, mem_parties, ParsedMail.addrs]
  constructor
  · rintro ⟨x, hx, a, ha, rfl⟩
    exact ⟨a, ha, hx⟩
  · rintro ⟨a, ha, hx⟩
    exact ⟨_, hx, a, ha, rfl⟩

/-- Lower-casing a perimeter again changes nothing. -/
theorem map_lower_scope (hlower : ∀ s, lower (lower s) = lower s) {user : AuthenticatedUser}
    {scope : List String} (h : scopeAddresses lower user = some scope) :
    scope.map lower = scope := by
  unfold scopeAddresses at h
  split at h
  · cases h
  · split at h
    · simp only [Option.some.injEq] at h
      rw [← h, List.map_map]
      exact List.map_congr_left fun a _ => hlower a
    · split at h
      · simp only [Option.some.injEq] at h
        rw [← h, List.map_nil]
      · split at h
        · simp only [Option.some.injEq] at h
          rw [← h, List.map_nil]
        · simp only [Option.some.injEq] at h
          rw [← h, List.map_singleton, hlower]

/-- **The three checks agree exactly on the mails that name the perimeter
in its own spelling, or not at all**: for every archived mail and every
account that is not an administrator's, search, view and live stream give
one answer iff some address of the mail is literally in the perimeter or
none is in it after lower-casing. -/
theorem access_checks_agree_iff (hlower : ∀ s, lower (lower s) = lower s) (job : Job env)
    (id : Nat) {user : AuthenticatedUser} {scope : List String}
    (hscope : scopeAddresses lower user = some scope) :
    ((withinScope e lower scope (job.freshDoc id) = true ↔
          canAccess lower (job.msgRow id) (some scope) = true)
        ∧ (canAccess lower (job.msgRow id) (some scope) = true ↔
          eventVisible lower (job.event id) user = true)) ↔
      ((∃ a ∈ job.mail.addrs, a ∈ scope) ∨ ¬ ∃ a ∈ job.mail.addrs, lower a ∈ scope) := by
  have hmap := map_lower_scope hlower hscope
  have hliteral : (∃ a ∈ job.mail.addrs, a ∈ scope) → ∃ a ∈ job.mail.addrs, lower a ∈ scope := by
    rintro ⟨a, ha, hs⟩
    refine ⟨a, ha, ?_⟩
    rw [← hmap]
    exact List.mem_map_of_mem hs
  rw [withinScope_freshDoc, canAccess_msgRow, eventVisible_event job id hscope, hmap]
  constructor
  · rintro ⟨hagree, -⟩
    by_cases hl : ∃ a ∈ job.mail.addrs, lower a ∈ scope
    · exact .inl (hagree.mpr hl)
    · exact .inr hl
  · rintro (hl | hnone)
    · exact ⟨⟨fun _ => hliteral hl, fun _ => hl⟩, Iff.rfl⟩
    · exact ⟨⟨hliteral, fun hl => absurd hl hnone⟩, Iff.rfl⟩

/-! ### An address with a capital -/

/-- The owner of the address `Bob@x.fr`. -/
def bob : AuthenticatedUser where
  username := "bob"
  displayName := "Bob"
  role := "user"
  isAdmin := false
  email := some "bob@x.fr"
  auditedEmails := none

/-- A search engine whose text and date clauses match nothing. -/
def sampleEngine : Engine where
  multiMatch := fun _ _ _ => false
  matchPhrase := fun _ _ _ => false
  dateRange := fun _ _ _ => false

/-- Bob may view the mail he sent, and sees it live, but no search of his
returns it. -/
theorem access_checks_disagree :
    scopeAddresses String.toLower bob = some ["bob@x.fr"]
      ∧ (prepare sampleEnv sampleTime sampleTime capitalMail).map (fun job =>
          (withinScope sampleEngine String.toLower ["bob@x.fr"] (job.freshDoc 1),
            canAccess String.toLower (job.msgRow 1) (some ["bob@x.fr"]),
            eventVisible String.toLower (job.event 1) bob))
        = .ok (false, true, true) :=
  ⟨by decide +kernel, by decide +kernel⟩

theorem charToLower_toLower (c : Char) : c.toLower.toLower = c.toLower := by
  delta Char.toLower
  by_cases h : c.val ≥ 'A'.val ∧ c.val ≤ 'Z'.val
  · rw [dif_pos h]
    refine dif_neg fun h' => ?_
    -- a lowered letter lies above `Z`
    simp only [ge_iff_le, UInt32.le_iff_toNat_le, UInt32.toNat_add, UInt32.toNat_sub,
      show 'A'.val.toNat = 65 from rfl, show 'Z'.val.toNat = 90 from rfl,
      show 'a'.val.toNat = 97 from rfl] at h h'
    omega
  · rw [dif_neg h, dif_neg h]

theorem toLower_toLower (s : String) : s.toLower.toLower = s.toLower := by
  show (s.map Char.toLower).map Char.toLower = s.map Char.toLower
  rw [String.map_map]
  congr 1
  funext c
  exact charToLower_toLower c

/-- A mail of Bob's, his address written as the perimeter spells it. -/
def bobMail : Bytes := encode "From: bob@x.fr\nTo: eve@x.fr\n\nx"

def bobEmail : EmailPackage where
  messageFromBytes := fun _ => .ok (.leaf
    (.reading [("From", "bob@x.fr"), ("To", "eve@x.fr")] "text/plain" none none (some "x")))
  getaddresses := fun v => .ok [("", v)]
  parsedateToDatetime := fun _ => .error (.valueError "Invalid date value or format")

/-- All three checks show it to him. -/
theorem access_checks_agree_bob : ∃ job : Job { sampleEnv with email := bobEmail },
    prepare { sampleEnv with email := bobEmail } sampleTime sampleTime bobMail = .ok job
      ∧ withinScope sampleEngine String.toLower ["bob@x.fr"] (job.freshDoc 1) = true
      ∧ canAccess String.toLower (job.msgRow 1) (some ["bob@x.fr"]) = true
      ∧ eventVisible String.toLower (job.event 1) bob = true := by
  have hok : (prepare { sampleEnv with email := bobEmail } sampleTime sampleTime bobMail).map
      (fun job => job.mail.addrs) = .ok ["bob@x.fr", "eve@x.fr"] := by decide +kernel
  obtain ⟨job, hjob, haddrs⟩ := map_eq_ok.mp hok
  have hscope : scopeAddresses String.toLower bob = some ["bob@x.fr"] := by decide +kernel
  have hliteral : ∃ a ∈ job.mail.addrs, a ∈ ["bob@x.fr"] :=
    ⟨"bob@x.fr", haddrs ▸ List.mem_cons_self, List.mem_singleton_self _⟩
  have hagree := (@access_checks_agree_iff sampleEngine _ _ toLower_toLower job 1 _ _ hscope).mpr
    (.inl hliteral)
  have hview : canAccess String.toLower (job.msgRow 1) (some ["bob@x.fr"]) = true := by
    rw [canAccess_msgRow, map_lower_scope toLower_toLower hscope]
    refine ⟨"bob@x.fr", haddrs ▸ List.mem_cons_self, ?_⟩
    decide +kernel
  exact ⟨job, hjob, hagree.1.mpr hview, hview, hagree.2.mp hview⟩

end MailArchiver

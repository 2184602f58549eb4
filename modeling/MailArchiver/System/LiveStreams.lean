import MailArchiver.System.Export
import MailArchiver.System.SearchResults

/-!
# System — LiveStreams

The live page: `events_stream` of `api/main.py`, which feeds each
connection from a queue of its own on the exchange `mail_events`, and
`LiveView.vue`, which shows the last 200 events. A stream starts where its
queue is bound. The broker drops the queue with its connection, and the
restored one is bound anew; the browser reconnects by itself. In between
events are missed, but none comes twice or out of its order.
-/

namespace MailArchiver

open Transition

variable {env : Env} (lower : String → String)

/-- A request of `GET /events/stream`. -/
structure Stream where
  /-- How many events had been published when its queue was first bound. -/
  since : Nat
  fresh : Bool
  bound : Bool
  /-- The queue has been there ever since. -/
  unbroken : Bool
  queue : List LiveEvent
  /-- `local`. -/
  localQueue : List LiveEvent
  /-- What the generator has yielded and the browser not received. -/
  wire : List LiveEvent
  delivered : List LiveEvent
  deriving DecidableEq, Repr

/-- A live page, under the token of an account. -/
structure Page where
  user : AuthenticatedUser
  stream : Option Stream
  /-- `live`. -/
  live : List LiveEvent
  /-- What it received from the streams before this one. -/
  earlier : List LiveEvent
  deriving DecidableEq, Repr

inductive StreamEvent where
  /-- The `EventSource` connects, or connects again. -/
  | connect
  /-- The queue is declared and bound, or restored. -/
  | bind
  /-- The broker loses the connection, and with it the queue. -/
  | lose
  /-- `on_message`. -/
  | deliver
  /-- A round of the generator that takes an event. -/
  | next
  /-- `es.onmessage`. -/
  | receive
  | disconnect
  deriving DecidableEq, Repr

/-- The stream of a request that was just accepted. -/
def Stream.opened (published : List LiveEvent) : Stream where
  since := published.length
  fresh := true
  bound := false
  unbroken := false
  queue := []
  localQueue := []
  wire := []
  delivered := []

/-- What the server does for a stream. -/
def Stream.step (user : AuthenticatedUser) (published : List LiveEvent) (st : Stream) :
    StreamEvent → Option Stream
  | .bind =>
      if st.bound then none
      else if st.fresh then some { st with
        since := published.length, fresh := false, bound := true, unbroken := true }
      else some { st with bound := true }
  | .lose => if st.bound then some { st with bound := false, unbroken := false, queue := [] } else none
  | .deliver =>
      match st.queue with
      | [] => none
      | m :: queue => some { st with queue := queue, localQueue := st.localQueue ++ [m] }
  | .next =>
      match st.localQueue with
      | [] => none
      | event :: localQueue => some { st with
          localQueue := localQueue
          wire := if eventVisible lower event user then st.wire ++ [event] else st.wire }
  | .connect | .receive | .disconnect => none

/-- The exchange puts a copy in every queue bound to it. -/
def Stream.fanout (more : List LiveEvent) (st : Stream) : Stream :=
  if st.bound then { st with queue := st.queue ++ more } else st

namespace Page

/-- `live.value.unshift(m)`, then `pop()` above 200. -/
def onmessage (live : List LiveEvent) (m : LiveEvent) : List LiveEvent :=
  let live := m :: live
  if 200 < live.length then live.dropLast else live

def step (published : List LiveEvent) (p : Page) (e : StreamEvent) : Option Page :=
  match p.stream, e with
  | none, .connect => some { p with stream := some (.opened published) }
  | none, _ => none
  | some st, .disconnect => some { p with stream := none, earlier := p.earlier ++ st.delivered }
  | some st, .receive =>
      match st.wire with
      | [] => none
      | m :: wire => some { p with
          stream := some { st with wire := wire, delivered := st.delivered ++ [m] }
          live := onmessage p.live m }
  | some st, e => (st.step lower p.user published e).map fun st => { p with stream := some st }

def fanout (more : List LiveEvent) (p : Page) : Page :=
  { p with stream := p.stream.map (·.fanout more) }

/-- All the events the page received. -/
def received (p : Page) : List LiveEvent :=
  p.earlier ++ match p.stream with
    | none => []
    | some st => st.delivered

end Page

/-- The archive, and the live pages open on it. -/
structure Watched (env : Env) where
  world : World env
  pages : List Page

inductive WatchedEvent where
  | archive (e : Event)
  | openPage (user : AuthenticatedUser)
  | page (i : Nat) (e : StreamEvent)

namespace Watched

def init (env : Env) : Watched env := ⟨.init env, []⟩

/-- What a step of the archive publishes goes to every page. -/
def step (s : Watched env) : WatchedEvent → Option (Watched env)
  | .archive e =>
      (s.world.step e).map fun w =>
        ⟨w, s.pages.map (·.fanout (w.stores.live.drop s.world.stores.live.length))⟩
  | .openPage user => some { s with pages := s.pages ++ [⟨user, none, [], []⟩] }
  | .page i e =>
      match s.pages[i]? with
      | none => none
      | some p => (p.step lower s.world.stores.live e).map fun p => { s with pages := s.pages.set i p }

end Watched

/-- The events of a list a user may see. -/
def visibleTo (user : AuthenticatedUser) (events : List LiveEvent) : List LiveEvent :=
  events.filter (eventVisible lower · user)

/-- What a stream has shown the browser and will show it. -/
def Stream.shows (user : AuthenticatedUser) (st : Stream) : List LiveEvent :=
  st.delivered ++ st.wire ++ visibleTo lower user (st.localQueue ++ st.queue)

/-- What the owner of a live page can rely on. -/
structure Page.Faithful (w : World env) (p : Page) : Prop where
  /-- It shows the last 200 of the events it received, the newest first. -/
  newest : p.live = p.received.reverse.take 200
  /-- Each at most once, in the order of publication. -/
  order : p.received.Sublist w.stores.live
  keys : (p.live.map (·.id)).Nodup
  /-- Only mails of the account's perimeter, which it may open. -/
  visible : ∀ e ∈ p.received, eventVisible lower e p.user = true
  announced : ∀ e ∈ p.received, w.Announced e
  opens : ∀ e ∈ p.received, ∀ m ∈ w.db.messages, m.id = e.id →
    canAccess lower m (scopeAddresses lower p.user) = true
  /-- All of them since its queue was bound, while the queue is not lost. -/
  complete : ∀ st, p.stream = some st → st.unbroken = true →
    st.shows lower p.user = visibleTo lower p.user (w.stores.live.drop st.since)

variable {lower}

/-! ## One stream -/

theorem visibleTo_append (user : AuthenticatedUser) (a b : List LiveEvent) :
    visibleTo lower user (a ++ b) = visibleTo lower user a ++ visibleTo lower user b :=
  List.filter_append ..

theorem visibleTo_sublist {user : AuthenticatedUser} {a b : List LiveEvent} (h : a.Sublist b) :
    (visibleTo lower user a).Sublist (visibleTo lower user b) := h.filter _

/-- A stream among the events published so far. -/
structure Stream.Inv (lower : String → String) (user : AuthenticatedUser)
    (published earlier : List LiveEvent) (st : Stream) : Prop where
  since : st.since ≤ published.length
  earlier : earlier.Sublist (visibleTo lower user (published.take st.since))
  fresh : st.fresh = true → st.bound = false ∧ st.unbroken = false ∧ st.shows lower user = []
  shows : (st.shows lower user).Sublist (visibleTo lower user (published.drop st.since))
  unbroken : st.unbroken = true →
    st.bound = true ∧ st.shows lower user = visibleTo lower user (published.drop st.since)

namespace Stream

variable {user : AuthenticatedUser} {published earlier : List LiveEvent} {st st' : Stream}

theorem inv_opened (h : earlier.Sublist (visibleTo lower user published)) :
    (opened published).Inv lower user published earlier where
  since := Nat.le_refl _
  earlier := by rwa [opened, List.take_length]
  fresh := fun _ => ⟨rfl, rfl, rfl⟩
  shows := List.nil_sublist _
  unbroken := fun h => by cases h

/-- All the events of a stream come after the earlier ones. -/
theorem Inv.sublist (h : st.Inv lower user published earlier) :
    (earlier ++ st.delivered).Sublist (visibleTo lower user published) := by
  have hdelivered : st.delivered.Sublist (visibleTo lower user (published.drop st.since)) := by
    refine List.Sublist.trans ?_ h.shows
    rw [Stream.shows, List.append_assoc]
    exact List.sublist_append_left ..
  have hboth := h.earlier.append hdelivered
  rwa [← visibleTo_append, List.take_append_drop] at hboth

/-- A step that moves events on, without losing or adding any. -/
theorem Inv.moved (h : st.Inv lower user published earlier) (hsince : st'.since = st.since)
    (hfresh : st'.fresh = st.fresh) (hbound : st'.bound = st.bound)
    (hunbroken : st'.unbroken = st.unbroken)
    (hshows : st'.shows lower user = st.shows lower user) :
    st'.Inv lower user published earlier where
  since := hsince ▸ h.since
  earlier := hsince ▸ h.earlier
  fresh := by
    rw [hfresh, hbound, hunbroken, hshows]
    exact h.fresh
  shows := by
    rw [hsince, hshows]
    exact h.shows
  unbroken := by
    rw [hunbroken, hbound, hsince, hshows]
    exact h.unbroken

theorem Inv.step (h : st.Inv lower user published earlier) {e : StreamEvent}
    (hs : st.step lower user published e = some st') : st'.Inv lower user published earlier := by
  cases e with
  | connect => cases hs
  | receive => cases hs
  | disconnect => cases hs
  | bind =>
      simp only [Stream.step] at hs
      split at hs
      · cases hs
      · split at hs
        · -- the first time: what it shows begins here
          rename_i hfresh
          obtain rfl := Option.some.inj hs
          obtain ⟨-, -, hnone⟩ := h.fresh hfresh
          have hnone' : Stream.shows lower user { st with
              since := published.length, fresh := false, bound := true, unbroken := true } = [] :=
            hnone
          have hdrop : published.drop published.length = [] := List.drop_length
          constructor
          case since => exact Nat.le_refl _
          case earlier =>
            rw [List.take_length]
            exact h.earlier.trans (visibleTo_sublist (List.take_sublist ..))
          case fresh => exact fun h => by cases h
          case shows =>
            rw [hnone']
            exact List.nil_sublist _
          case unbroken =>
            refine fun _ => ⟨rfl, ?_⟩
            rw [hnone', hdrop]
            rfl
        · rename_i hbound hfresh
          obtain rfl := Option.some.inj hs
          exact ⟨h.since, h.earlier, fun hf => absurd hf hfresh, h.shows,
            fun hu => ⟨rfl, (h.unbroken hu).2⟩⟩
  | lose =>
      simp only [Stream.step] at hs
      split at hs
      · rename_i hbound
        obtain rfl := Option.some.inj hs
        refine ⟨h.since, h.earlier, fun hf => ?_, ?_, fun hu => by cases hu⟩
        · rw [(h.fresh hf).1] at hbound
          cases hbound
        · refine List.Sublist.trans ?_ h.shows
          simp only [Stream.shows, List.append_nil, visibleTo_append]
          exact (List.Sublist.refl _).append (List.sublist_append_left ..)
      · cases hs
  | deliver =>
      simp only [Stream.step] at hs
      split at hs
      · cases hs
      · rename_i m queue hqueue
        obtain rfl := Option.some.inj hs
        exact h.moved rfl rfl rfl rfl (by simp [Stream.shows, hqueue])
  | next =>
      simp only [Stream.step] at hs
      split at hs
      · cases hs
      · rename_i m localQueue hlocal
        obtain rfl := Option.some.inj hs
        refine h.moved rfl rfl rfl rfl ?_
        by_cases hvisible : eventVisible lower m user = true
        · simp [Stream.shows, visibleTo, hlocal, hvisible]
        · simp [Stream.shows, visibleTo, hlocal, hvisible]

/-- More is published: it is shown, or missed. -/
theorem Inv.fanout (h : st.Inv lower user published earlier) (more : List LiveEvent) :
    (st.fanout more).Inv lower user (published ++ more) earlier := by
  have hdrop : (published ++ more).drop st.since = published.drop st.since ++ more :=
    List.drop_append_of_le_length h.since
  have htake : (published ++ more).take st.since = published.take st.since :=
    List.take_append_of_le_length h.since
  have hsince : st.since ≤ (published ++ more).length := by
    have := h.since
    rw [List.length_append]
    omega
  unfold Stream.fanout
  split
  · rename_i hbound
    have hshows : Stream.shows lower user { st with queue := st.queue ++ more }
        = st.shows lower user ++ visibleTo lower user more := by
      simp [Stream.shows, visibleTo_append]
    constructor
    case since => exact hsince
    case earlier => exact htake ▸ h.earlier
    case fresh =>
      intro hf
      rw [(h.fresh hf).1] at hbound
      cases hbound
    case shows =>
      rw [hshows, hdrop, visibleTo_append]
      exact h.shows.append (List.Sublist.refl _)
    case unbroken =>
      refine fun hu => ⟨hbound, ?_⟩
      rw [hshows, hdrop, visibleTo_append, (h.unbroken hu).2]
  · rename_i hbound
    constructor
    case since => exact hsince
    case earlier => exact htake ▸ h.earlier
    case fresh => exact h.fresh
    case shows =>
      rw [hdrop, visibleTo_append]
      exact h.shows.trans (List.sublist_append_left ..)
    case unbroken => exact fun hu => absurd (h.unbroken hu).1 hbound

end Stream

/-! ## One page -/

theorem Page.received_none {p : Page} (h : p.stream = none) : p.received = p.earlier := by
  rw [received, h, List.append_nil]

theorem Page.received_some {p : Page} {st : Stream} (h : p.stream = some st) :
    p.received = p.earlier ++ st.delivered := by
  rw [received, h]

/-- A page among the events published so far. -/
structure Page.Inv (lower : String → String) (published : List LiveEvent) (p : Page) : Prop where
  live : p.live = p.received.reverse.take 200
  idle : p.stream = none → p.earlier.Sublist (visibleTo lower p.user published)
  stream : ∀ st, p.stream = some st → st.Inv lower p.user published p.earlier

namespace Page

variable {published : List LiveEvent} {p p' : Page}

/-- The page keeps the last 200. -/
theorem onmessage_take (received : List LiveEvent) (m : LiveEvent) :
    onmessage (received.reverse.take 200) m = (received ++ [m]).reverse.take 200 := by
  rw [List.reverse_append, List.reverse_singleton, List.singleton_append, List.take_succ_cons]
  have hlen : (received.reverse.take 200).length = min 200 received.length := by simp
  unfold onmessage
  by_cases hfull : 200 ≤ received.length
  · rw [if_pos (by rw [List.length_cons, hlen]; omega),
      List.dropLast_cons_of_ne_nil (List.ne_nil_of_length_pos (by omega)), List.dropLast_eq_take, hlen,
      List.take_take]
    congr 2
    omega
  · rw [if_neg (by rw [List.length_cons, hlen]; omega),
      List.take_of_length_le (by rw [List.length_reverse]; omega),
      List.take_of_length_le (by rw [List.length_reverse]; omega)]

theorem Inv.received_sublist (h : p.Inv lower published) :
    p.received.Sublist (visibleTo lower p.user published) := by
  cases hstream : p.stream with
  | none => exact received_none hstream ▸ h.idle hstream
  | some st => exact received_some hstream ▸ (h.stream st hstream).sublist

/-- What the server does for its stream. -/
theorem Inv.withStream (h : p.Inv lower published) {st st' : Stream} (hst : p.stream = some st)
    (hinv : st'.Inv lower p.user published p.earlier) (hdelivered : st'.delivered = st.delivered) :
    Page.Inv lower published { p with stream := some st' } where
  live := by rw [received_some rfl, hdelivered, ← received_some hst, h.live]
  idle := fun hnone => by cases hnone
  stream := by
    rintro st'' hst''
    obtain rfl := Option.some.inj hst''
    exact hinv

theorem delivered_of_step {user : AuthenticatedUser} {st st' : Stream} {e : StreamEvent}
    (hs : st.step lower user published e = some st') : st'.delivered = st.delivered := by
  cases e with
  | connect | receive | disconnect => cases hs
  | bind =>
      simp only [Stream.step] at hs
      split at hs
      · cases hs
      · split at hs
        · exact Option.some.inj hs ▸ rfl
        · exact Option.some.inj hs ▸ rfl
  | lose =>
      simp only [Stream.step] at hs
      split at hs
      · exact Option.some.inj hs ▸ rfl
      · cases hs
  | deliver =>
      simp only [Stream.step] at hs
      split at hs
      · cases hs
      · exact Option.some.inj hs ▸ rfl
  | next =>
      simp only [Stream.step] at hs
      split at hs
      · cases hs
      · exact Option.some.inj hs ▸ rfl

/-- What a step of a page can be. -/
theorem step_cases {e : StreamEvent} (hs : p.step lower published e = some p') :
    (p.stream = none ∧ p' = { p with stream := some (.opened published) }) ∨
    ∃ st, p.stream = some st ∧
      (p' = { p with stream := none, earlier := p.earlier ++ st.delivered } ∨
      (∃ m wire, st.wire = m :: wire ∧ p' = { p with
        stream := some { st with wire := wire, delivered := st.delivered ++ [m] }
        live := onmessage p.live m }) ∨
      ∃ st', st.step lower p.user published e = some st' ∧ p' = { p with stream := some st' }) := by
  cases hstream : p.stream with
  | none =>
      cases e with
      | connect => exact .inl ⟨rfl, by simpa [Page.step, hstream] using hs.symm⟩
      | bind | lose | deliver | next | receive | disconnect => simp [Page.step, hstream] at hs
  | some st =>
      refine .inr ⟨st, rfl, ?_⟩
      cases e with
      | disconnect => exact .inl (by simpa [Page.step, hstream] using hs.symm)
      | receive =>
          right
          left
          cases hwire : st.wire with
          | nil => simp [Page.step, hstream, hwire] at hs
          | cons m wire => exact ⟨m, wire, rfl, by simpa [Page.step, hstream, hwire] using hs.symm⟩
      | connect | bind | lose | deliver | next =>
          right
          right
          simp only [Page.step, hstream, Option.map_eq_some_iff] at hs
          obtain ⟨st', hst', rfl⟩ := hs
          exact ⟨st', hst', rfl⟩

theorem Inv.step (h : p.Inv lower published) {e : StreamEvent}
    (hs : p.step lower published e = some p') : p'.Inv lower published := by
  obtain ⟨hnone, rfl⟩ | ⟨st, hst, rfl | ⟨m, wire, hwire, rfl⟩ | ⟨st', hst', rfl⟩⟩ := step_cases hs
  · -- connect
    refine ⟨?_, fun hnone => (by cases hnone), ?_⟩
    · rw [h.live, received_none hnone, received_some rfl]
      exact congrArg (fun l => (List.reverse l).take 200) (List.append_nil _).symm
    · rintro st hst
      obtain rfl := Option.some.inj hst
      exact Stream.inv_opened (h.idle hnone)
  · -- disconnect
    refine ⟨?_, fun _ => (h.stream st hst).sublist, fun st' hst' => by cases hst'⟩
    show p.live = (p.earlier ++ st.delivered ++ []).reverse.take 200
    rw [List.append_nil, ← received_some hst, h.live]
  · -- receive
    refine ⟨?_, fun hnone => (by cases hnone), ?_⟩
    · show onmessage p.live m = _
      rw [h.live, onmessage_take, received_some hst, received_some rfl, List.append_assoc]
    · rintro st' hst'
      obtain rfl := Option.some.inj hst'
      exact (h.stream st hst).moved rfl rfl rfl rfl (by simp [Stream.shows, hwire])
  · exact h.withStream hst ((h.stream st hst).step hst') (delivered_of_step hst')

theorem Inv.fanout (h : p.Inv lower published) (more : List LiveEvent) :
    (p.fanout more).Inv lower (published ++ more) := by
  cases hstream : p.stream with
  | none =>
      have hsame : p.fanout more = p := by
        rw [Page.fanout, hstream, Option.map_none, ← hstream]
      rw [hsame]
      refine ⟨h.live, fun hnone => ?_, fun st hst => ?_⟩
      · exact (h.idle hnone).trans (visibleTo_sublist (List.sublist_append_left ..))
      · rw [hstream] at hst
        cases hst
  | some st =>
      have hfan := (h.stream st hstream).fanout more
      have hdelivered : (st.fanout more).delivered = st.delivered := by
        unfold Stream.fanout
        split
        · rfl
        · rfl
      unfold Page.fanout
      rw [hstream, Option.map_some]
      constructor
      case live => rw [received_some rfl, hdelivered, ← received_some hstream, h.live]
      case idle => exact fun hnone => by cases hnone
      case stream =>
        rintro st' hst'
        obtain rfl := Option.some.inj hst'
        exact hfan

end Page

/-! ## Every page of every reachable state -/

namespace Watched

variable {s s' : Watched env}

structure Inv (lower : String → String) (s : Watched env) : Prop where
  world : s.world.Sound ∧ s.world.IndexSound ∧ s.world.LiveSound
  pages : ∀ p ∈ s.pages, p.Inv lower s.world.stores.live

theorem inv_init (env : Env) : (init env).Inv lower where
  world := World.reachable_indexSound ⟨[], rfl⟩
  pages := by simp [init]

theorem Inv.step (h : s.Inv lower) {e : WatchedEvent} (hs : s.step lower e = some s') :
    s'.Inv lower := by
  cases e with
  | archive e =>
      obtain ⟨w, hw, rfl⟩ := Option.map_eq_some_iff.mp hs
      obtain ⟨hsound, hindex, hlive⟩ := h.world
      refine ⟨⟨hsound.step hw, hindex.step hsound hw, hlive.step hsound hw⟩, ?_⟩
      -- the archive only publishes more
      obtain ⟨more, hmore⟩ : ∃ more, w.stores.live = s.world.stores.live ++ more := by
        rcases World.live_step hw with hsame | ⟨c, call, id, -, -, hone, -⟩
        · exact ⟨[], by rw [hsame, List.append_nil]⟩
        · exact ⟨_, hone⟩
      rintro p hp
      obtain ⟨q, hq, rfl⟩ := List.mem_map.mp hp
      show Page.Inv lower w.stores.live _
      rw [hmore, List.drop_left]
      exact (h.pages q hq).fanout more
  | openPage user =>
      obtain rfl := Option.some.inj hs
      refine ⟨h.world, fun p hp => ?_⟩
      rcases List.mem_append.mp hp with hp | hp
      · exact h.pages p hp
      · obtain rfl := List.mem_singleton.mp hp
        exact ⟨rfl, fun _ => List.nil_sublist _, fun st hst => by cases hst⟩
  | page i e =>
      simp only [Watched.step] at hs
      split at hs
      · cases hs
      · rename_i p hp
        obtain ⟨p', hp', rfl⟩ := Option.map_eq_some_iff.mp hs
        refine ⟨h.world, fun q hq => ?_⟩
        rcases List.mem_or_eq_of_mem_set hq with hq | rfl
        · exact h.pages q hq
        · exact (h.pages p (List.mem_of_getElem? hp)).step hp'

/-- **The live page shows the mails of its account as they are archived**:
each once and in their order, across the reconnections of the browser and
of the broker; each one archived, indexed (as long as no daily index is
dropped), and open to the account; and none missed while the queue of its
stream is there. -/
theorem live_page_faithful (hlower : ∀ x, lower (lower x) = lower x)
    (h : Reachable (step lower) (init env) s) : ∀ p ∈ s.pages, p.Faithful lower s.world := by
  intro p hp
  have hinv := h.invariant (I := fun s : Watched env => s.Inv lower) (inv_init env)
    fun _ _ _ hI hs => hI.step hs
  obtain ⟨hsound, -, hlive⟩ := hinv.world
  have hpage := hinv.pages p hp
  have hreceived := hpage.received_sublist
  have horder : p.received.Sublist s.world.stores.live := hreceived.trans List.filter_sublist
  have hvisible : ∀ e ∈ p.received, eventVisible lower e p.user = true := fun e he =>
    (List.mem_filter.mp (hreceived.subset he)).2
  constructor
  case newest => exact hpage.live
  case order => exact horder
  case keys =>
    rw [hpage.live]
    have hnodup : (p.received.map (·.id)).Nodup := hlive.once.sublist (horder.map _)
    rw [List.map_take, List.map_reverse]
    exact (List.nodup_reverse.mpr hnodup).sublist (List.take_sublist ..)
  case visible => exact hvisible
  case announced => exact fun e he => hlive.announced e (horder.subset he)
  case opens =>
    intro e he m hm hid
    obtain ⟨c, call, hcall, -, hcom, heq, -⟩ := hlive.announced e (horder.subset he)
    have hrow := World.ArchivedAs.row hsound hm ⟨c, call, hcall, hid ▸ hcom, rfl⟩
    rw [hrow.canAccess, Job.openTo_iff]
    cases hscope : scopeAddresses lower p.user with
    | none => trivial
    | some scope =>
        have hseen := hvisible e he
        rw [heq, eventVisible_event call.job _ hscope] at hseen
        show ∃ a ∈ call.job.mail.addrs, lower a ∈ scope.map lower
        rw [map_lower_scope hlower hscope]
        exact hseen
  case complete => exact fun st hst hunbroken => ((hpage.stream st hst).unbroken hunbroken).2

/-- Bob's page is open while his mail is archived, and reconnects after
he received it. -/
def bobWatches : List WatchedEvent :=
  [.openPage bob, .page 0 .connect, .page 0 .bind]
    ++ (sampleCall 0 bobMail sampleTime 7).map .archive
    ++ [.page 0 .deliver, .page 0 .next, .page 0 .receive, .page 0 .disconnect, .page 0 .connect,
      .page 0 .bind]

theorem live_page_faithful_bob : ∃ (s : Watched bobEnv) (p : Page),
    run (step String.toLower) (init bobEnv) bobWatches = some s ∧ p ∈ s.pages
      ∧ p.live.map (·.id) = [1] ∧ p.Faithful String.toLower s.world := by
  have hany : (run (step String.toLower) (init bobEnv) bobWatches).any (fun s =>
      decide (s.pages.map (fun p => p.live.map (·.id)) = [[1]])) = true := by
    decide +kernel
  obtain ⟨s, hrun, hs⟩ := (Option.any_eq_true _ _).mp hany
  have hmem : [1] ∈ s.pages.map (fun p => p.live.map (·.id)) :=
    of_decide_eq_true hs ▸ List.mem_singleton_self _
  obtain ⟨p, hp, hlive⟩ := List.mem_map.mp hmem
  exact ⟨s, p, hrun, hp, hlive, live_page_faithful toLower_toLower ⟨_, hrun⟩ p hp⟩

end Watched

end MailArchiver

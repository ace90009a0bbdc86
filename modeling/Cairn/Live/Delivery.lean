import Cairn.Live.Folding

/-!
Owns what every client holds at any time: the current events of the part of the log that it
loaded, in the order of their ids, and what each of its actions does to that.

Does not own the comparison of two clients.
-/

set_option autoImplicit false

namespace Cairn.Live

open Cairn.Library.Steps

variable {sizes : Sizes} {log seen received rows events batch page : List Event} {event row : Event}
  {oldest cursor : Nat} {viewer : Viewer} {before : Option Nat} {more : Bool}

/-! ### The delivered part of a log -/

/-- The events up to a cursor. -/
def upTo (log : List Event) (cursor : Nat) : List Event :=
  log.filter fun event => decide (event.id ≤ cursor)

theorem mem_upTo : event ∈ upTo log cursor ↔ event ∈ log ∧ event.id ≤ cursor := by
  simp [upTo]

theorem upTo_append (ordered : Ordered log) (cursor : Nat) :
    upTo log cursor ++ log.filter (fun event => decide (cursor < event.id)) = log := by
  induction log with
  | nil => rfl
  | cons head tail inductionHypothesis =>
      obtain ⟨newer, orderedTail⟩ := List.pairwise_cons.mp ordered
      unfold upTo at inductionHypothesis ⊢
      by_cases delivered : head.id ≤ cursor
      · rw [List.filter_cons_of_pos (by simpa using delivered),
          List.filter_cons_of_neg (by simpa using delivered), List.cons_append,
          inductionHypothesis orderedTail]
      · have behind : ∀ event ∈ tail, cursor < event.id := fun event member =>
          (not_le.mp delivered).trans (newer event member)
        rw [List.filter_cons_of_neg (by simpa using delivered),
          List.filter_cons_of_pos (by simpa using delivered),
          List.filter_eq_nil_iff.mpr fun event member => by simpa using behind event member,
          List.filter_eq_self.mpr fun event member => by simpa using behind event member,
          List.nil_append]

theorem upTo_start (ordered : Ordered log) (cursor : Nat) : upTo log cursor <+: log :=
  ⟨_, upTo_append ordered cursor⟩

@[simp] theorem lastId_concat : lastId (log ++ [event]) = event.id := by
  simp [lastId]

theorem le_lastId (ordered : Ordered log) (member : event ∈ log) : event.id ≤ lastId log := by
  rcases List.eq_nil_or_concat log with rfl | ⟨before, last, rfl⟩
  · exact absurd member List.not_mem_nil
  · rw [List.concat_eq_append] at member ordered ⊢
    rw [lastId_concat]
    rcases List.mem_append.mp member with old | new
    · exact ((List.pairwise_append.mp ordered).2.2 event old last (List.mem_singleton_self last)).le
    · rw [List.mem_singleton.mp new]

theorem lastId_mem (nonempty : log ≠ []) : ∃ event ∈ log, event.id = lastId log := by
  obtain ⟨before, last, rfl⟩ := (List.eq_nil_or_concat log).resolve_left nonempty
  rw [List.concat_eq_append]
  exact ⟨last, by simp, lastId_concat.symm⟩

theorem Stored.mem_start (stored : Stored log) (part : seen <+: log) (member : event ∈ log)
    (delivered : event.id ≤ lastId seen) : event ∈ seen := by
  obtain ⟨rest, rfl⟩ := part
  rcases List.mem_append.mp member with old | new
  · exact old
  · by_cases empty : seen = []
    · subst empty
      have positive := stored.positive event member
      exact absurd positive (not_lt.mpr delivered)
    · obtain ⟨last, lastMember, isLast⟩ := lastId_mem empty
      have newer := (List.pairwise_append.mp stored.ordered).2.2 last lastMember event new
      omega

theorem Stored.upTo_lastId (stored : Stored log) (part : seen <+: log) :
    upTo log (lastId seen) = seen := by
  obtain ⟨rest, whole⟩ := part
  have kept : ∀ event ∈ seen, event.id ≤ lastId seen := fun event member =>
    le_lastId (stored.of_start ⟨rest, whole⟩).ordered member
  have left : ∀ event ∈ rest, ¬ event.id ≤ lastId seen := by
    intro event member delivered
    have twice := stored.mem_start ⟨rest, whole⟩ (by rw [← whole]; exact List.mem_append_right _ member)
      delivered
    have ordered := stored.ordered
    rw [← whole] at ordered
    exact Nat.lt_irrefl _ ((List.pairwise_append.mp ordered).2.2 event twice event member)
  rw [← whole, upTo, List.filter_append, List.filter_eq_self.mpr fun event member => by
      simpa using kept event member,
    List.filter_eq_nil_iff.mpr fun event member => by simpa using left event member, List.append_nil]

theorem firstId_start (part : seen <+: log) (nonempty : seen ≠ []) : firstId seen = firstId log := by
  obtain ⟨rest, rfl⟩ := part
  cases seen with
  | nil => exact absurd rfl nonempty
  | cons head tail => rfl

/-- The log up to the end of a batch. -/
theorem upTo_batch (stored : Stored log)
    (part : batch <+: log.filter fun event => decide (cursor < event.id)) :
    upTo log ((batch.getLast?.map Event.id).getD cursor) = upTo log cursor ++ batch := by
  obtain ⟨rest, whole⟩ := part
  have split : (upTo log cursor ++ batch) ++ rest = log := by
    rw [List.append_assoc, whole, upTo_append stored.ordered]
  rcases List.eq_nil_or_concat batch with rfl | ⟨before, last, rfl⟩
  · rw [List.append_nil]
    rfl
  · have isLast : lastId (upTo log cursor ++ (before.concat last)) = last.id := by
      rw [List.concat_eq_append, ← List.append_assoc, lastId_concat]
    have cursorIs : ((before.concat last).getLast?.map Event.id).getD cursor = last.id := by simp
    rw [cursorIs, ← isLast]
    exact stored.upTo_lastId ⟨rest, split⟩

namespace Closed

/-- The events that follow the delivered part leave it closed. -/
theorem append (closed : Closed log received) (ordered : Ordered (log ++ events)) :
    Closed (log ++ events) (received ++ events) := by
  have below : ∀ old ∈ log, ∀ new ∈ events, old.id < new.id := (List.pairwise_append.mp ordered).2.2
  refine ⟨fun event member => ?_, fun event member marker held starts after => ?_,
    fun event member later supersedes => ?_⟩
  · rcases List.mem_append.mp member with old | new
    · exact List.mem_append_left _ (closed.stored event old)
    · exact List.mem_append_right _ new
  · rcases List.mem_append.mp held with oldMarker | newMarker
    · rcases List.mem_append.mp member with old | new
      · exact List.mem_append_left _ (closed.markers event old marker oldMarker starts after)
      · exact absurd after (Nat.lt_asymm (below marker oldMarker event new))
    · exact List.mem_append_right _ newMarker
  · rcases List.mem_append.mp supersedes.stored with oldLater | newLater
    · rcases List.mem_append.mp member with old | new
      · exact List.mem_append_left _ (closed.newer event old later
          (supersedes.to_start (List.prefix_append _ _) oldLater))
      · exact absurd supersedes.after (Nat.lt_asymm (below later oldLater event new))
    · exact List.mem_append_right _ newLater

/-- So does leaving out what is older than some id. -/
theorem trim (closed : Closed log received) (oldest : Nat) :
    Closed log (received.filter fun event => decide (oldest ≤ event.id)) := by
  have kept : ∀ event ∈ received.filter fun event => decide (oldest ≤ event.id),
      event ∈ received ∧ oldest ≤ event.id := fun event member => by simpa using member
  have keep : ∀ event ∈ received, ∀ later ∈ received, oldest ≤ event.id → event.id < later.id →
      later ∈ received.filter fun event => decide (oldest ≤ event.id) := by
    intro event _ later member recent after
    exact List.mem_filter.mpr ⟨member, by simpa using recent.trans after.le⟩
  refine ⟨fun event member => closed.stored event (kept event member).1,
    fun event member marker held starts after => ?_, fun event member later supersedes => ?_⟩
  · obtain ⟨old, recent⟩ := kept event member
    exact keep event old marker (closed.markers event old marker held starts after) recent after
  · obtain ⟨old, recent⟩ := kept event member
    exact keep event old later (closed.newer event old later supersedes) recent supersedes.after

end Closed

/-! ### The invariant -/

/-- Rows show the current events from some id on, as far as they were delivered. -/
structure Covers (log : List Event) (oldest cursor : Nat) (received rows : List Event) : Prop where
  closed : Closed (upTo log cursor) received
  since : ∀ event ∈ received, oldest ≤ event.id
  loaded : ∀ event, Latest log event → oldest ≤ event.id → event.id ≤ cursor → event ∈ received
  ordered : Ordered rows
  plain : ∀ row ∈ rows, row.Plain
  bound : oldest ≤ cursor + 1
  empty : cursor = 0 → oldest = 0
  reached : cursor = 0 ∨ ∃ event ∈ log, event.id = cursor

/-- A cached fold is one of the same log. -/
structure Keeps (log : List Event) (cached : CachedHistory) (saved : Saved) : Prop where
  covers : Covers log saved.oldest cached.cursor cached.received cached.events
  history : 0 < cached.cursor → saved.history = firstId log

/-- An older page holds what the log had when it was asked for; all later events are received
by the stream. -/
structure Awaits (log : List Event) (viewer : Viewer) (pending : Pending) (seen : List Event) :
    Prop where
  started : 0 < viewer.session.cursor
  before : pending.before = viewer.oldest
  part : seen <+: log
  window : Window seen (some pending.before) pending.page.events pending.page.hasOlder
  oldest : pending.page.oldest = some (reach (some pending.before) pending.page.events)
  bound : pending.before ≤ lastId seen + 1
  later : ∀ event ∈ log, lastId seen < event.id → event.id ≤ viewer.session.cursor →
    event ∈ viewer.session.received

structure Viewing (log : List Event) (viewer : Viewer) : Prop where
  tracks : viewer.session.Tracks Event.shown Event.shown
  covers : Covers log viewer.oldest viewer.session.cursor viewer.session.received
    viewer.session.rows
  history : 0 < viewer.session.cursor → ∀ history, viewer.history = some history →
    history = firstId log
  shown : viewer.complete = true → viewer.events = viewer.session.rows
  cached : ∀ cached saved, viewer.session.cached = some cached → viewer.saved = some saved →
    Keeps log cached saved
  pending : ∀ pending, viewer.pending = some pending → ∃ seen, Awaits log viewer pending seen

namespace Covers

theorem stored (covers : Covers log oldest cursor received rows) (member : event ∈ received) :
    event ∈ log ∧ event.id ≤ cursor :=
  mem_upTo.mp (covers.closed.stored event member)

/-- What is recorded later was not delivered. -/
theorem undelivered (covers : Covers log oldest cursor received rows)
    (stored : Stored (log ++ [event])) : cursor < event.id := by
  rcases covers.reached with started | ⟨last, member, isLast⟩
  · rw [started]
    exact stored.positive event (by simp)
  · rw [← isLast]
    exact (List.pairwise_append.mp stored.ordered).2.2 last member event (List.mem_singleton_self event)

theorem record (covers : Covers log oldest cursor received rows) (stored : Stored (log ++ [event])) :
    Covers (log ++ [event]) oldest cursor received rows := by
  have undelivered := covers.undelivered stored
  have same : upTo (log ++ [event]) cursor = upTo log cursor := by
    rw [upTo, List.filter_append, List.filter_singleton]
    simp [upTo, not_le.mpr undelivered]
  refine { covers with closed := same ▸ covers.closed, loaded := fun other latest since below => ?_, reached := ?_ }
  · rcases List.mem_append.mp latest.stored with old | new
    · exact covers.loaded other (latest.to_start stored.ordered (List.prefix_append _ _) old) since below
    · rw [List.mem_singleton.mp new] at below
      exact absurd undelivered (not_lt.mpr below)
  · rcases covers.reached with started | ⟨last, member, isLast⟩
    · exact .inl started
    · exact .inr ⟨last, List.mem_append_left _ member, isLast⟩

/-- After the whole log was delivered, the current events from some id on are received. -/
theorem latest (covers : Covers log oldest (lastId log) received rows) (stored : Stored log) :
    Latest received event ↔ Latest log event ∧ oldest ≤ event.id := by
  have closed := covers.closed
  rw [stored.upTo_lastId (List.prefix_refl log)] at closed
  constructor
  · intro latest
    refine ⟨⟨closed.stored event latest.stored, fun later supersedes => ?_⟩,
      covers.since event latest.stored⟩
    exact latest.unsuperseded later ⟨closed.newer event latest.stored later supersedes,
      supersedes.message, supersedes.same, supersedes.after, fun marker member =>
        supersedes.turn marker (closed.stored marker member)⟩
  · rintro ⟨latest, since⟩
    have member := covers.loaded event latest since (le_lastId stored.ordered latest.stored)
    refine ⟨member, fun later supersedes => latest.unsuperseded later ?_⟩
    refine ⟨closed.stored later supersedes.stored, supersedes.message, supersedes.same,
      supersedes.after, fun marker held starts after => ?_⟩
    exact supersedes.turn marker (closed.markers event member marker held starts after) starts after

theorem opened (stored : Stored log) : Covers log 0 0 [] [] where
  closed := ⟨fun _ member => absurd member List.not_mem_nil,
    fun _ member => absurd member List.not_mem_nil, fun _ member => absurd member List.not_mem_nil⟩
  since := fun _ member => absurd member List.not_mem_nil
  loaded := fun event latest _ below =>
    absurd (stored.positive event latest.stored) (not_lt.mpr below)
  ordered := .nil
  plain := fun _ member => absurd member List.not_mem_nil
  bound := Nat.zero_le _
  empty := fun _ => rfl
  reached := .inl rfl

/-- Nothing is received before anything is delivered. -/
theorem received_nil (covers : Covers log oldest 0 received rows) (stored : Stored log) :
    received = [] := by
  refine List.eq_nil_iff_forall_not_mem.mpr fun event member => ?_
  obtain ⟨held, below⟩ := covers.stored member
  exact absurd (stored.positive event held) (not_lt.mpr below)

/-- The part of the rows that a cache keeps. -/
theorem trim (covers : Covers log oldest cursor received rows) {from' : Nat} (later : oldest ≤ from')
    (bound : from' ≤ cursor + 1) (empty : cursor = 0 → from' = 0) :
    Covers log from' cursor (received.filter fun event => decide (from' ≤ event.id))
      (rows.filter fun row => decide (from' ≤ row.id)) where
  closed := covers.closed.trim from'
  since := fun event member => by simpa using (List.mem_filter.mp member).2
  loaded := fun event latest since below => List.mem_filter.mpr
    ⟨covers.loaded event latest (later.trans since) below, by simpa using since⟩
  ordered := covers.ordered.sublist List.filter_sublist
  plain := fun row member => covers.plain row (List.mem_filter.mp member).1
  bound := bound
  empty := empty
  reached := covers.reached

end Covers

/-! ### Pages -/

theorem reach_le (ordered : Ordered events) (member : event ∈ events) :
    reach before events ≤ event.id := by
  cases events with
  | nil => exact absurd member List.not_mem_nil
  | cons head tail =>
      rw [reach, List.head?_cons, Option.map_some, Option.getD_some]
      rcases List.mem_cons.mp member with rfl | behind
      · exact Nat.le_refl _
      · exact ((List.pairwise_cons.mp ordered).1 event behind).le

namespace Window

variable (window : Window seen before events more) (stored : Stored seen)

include window

/-- The turn markers behind an event of the page are in the page. -/
theorem markers (member : event ∈ events) {marker : Event} (held : marker ∈ seen)
    (marked : marker.Marked) (starts : marker.startsTurn) (isOlder : olderThan before marker = true)
    (after : event.id < marker.id) : marker ∈ events :=
  window.reached marker (latest_of_marker held marked starts) isOlder
    ((reach_le window.ordered member).trans after.le)

include stored

/-- No message is in a page twice in one turn. -/
theorem unrepeated {first rest : List Event} {message : String}
    (split : events = first ++ event :: rest) (own : event.message? = some message) :
    lastSnapshot first message = none := by
  refine Option.eq_none_iff_forall_not_mem.mpr fun held current => ?_
  have ordered := window.ordered
  rw [split] at ordered
  have orderedFirst : Ordered first := ordered.sublist (List.sublist_append_left _ _)
  obtain ⟨heldMember, heldOwn, unfollowed⟩ := (lastSnapshot_eq_some orderedFirst).mp current
  have inPage : ∀ old ∈ first, old ∈ events := fun old member => by
    rw [split]
    exact List.mem_append_left _ member
  have eventMember : event ∈ events := by simp [split]
  refine (window.latest held (inPage held heldMember)).1.unsuperseded event
    ⟨(window.latest event eventMember).1.stored, by rw [heldOwn]; rfl, own.trans heldOwn.symm,
      ordered.split.1 held heldMember, fun marker member starts after => ?_⟩
  rcases Nat.lt_trichotomy event.id marker.id with behind | same | between
  · exact behind
  · -- the event is no turn marker
    obtain rfl := stored.ordered.eq_of_id (window.latest event eventMember).1.stored member same
    rw [stored.marked event member starts] at own
    cases own
  · have isOlder : olderThan before marker = true := by
      have eventOlder := (window.latest event eventMember).2
      unfold olderThan at eventOlder ⊢
      cases before with
      | none => rfl
      | some bound =>
          have less : event.id < bound := by simpa using eventOlder
          simpa using between.trans less
    have held' := window.markers (inPage held heldMember) member (stored.marked marker member) starts
      isOlder after
    rw [split] at held'
    have goes := (unfollowed marker ((ordered).mem_before held' between) after).2
    rw [starts] at goes
    cases goes

theorem newer : Newer 0 events where
  ordered := window.ordered
  fresh := fun event member => stored.positive event (window.latest event member).1.stored
  marked := fun event member => stored.marked event (window.latest event member).1.stored

/-- The newest page reaches the end of the log. -/
theorem lastId (newest : before = none) : lastId events = Live.lastId seen := by
  subst newest
  by_cases empty : seen = []
  · subst empty
    have none : events = [] := List.eq_nil_iff_forall_not_mem.mpr fun event member =>
      absurd (window.latest event member).1.stored List.not_mem_nil
    rw [none]
  · obtain ⟨last, member, isLast⟩ := lastId_mem empty
    have latest : Latest seen last := by
      refine ⟨member, fun later supersedes => ?_⟩
      have atMost := le_lastId stored.ordered supersedes.stored
      rw [← isLast] at atMost
      exact absurd supersedes.after (not_lt.mpr atMost)
    have nonempty : events ≠ [] := fun none => by
      have impossible := window.nonempty none last latest
      cases impossible
    have inPage : last ∈ events := by
      refine window.reached last latest rfl ?_
      obtain ⟨first, firstMember, isFirst⟩ := lastId_mem nonempty
      have atMost := le_lastId stored.ordered (window.latest first firstMember).1.stored
      have least : reach none events ≤ first.id := reach_le window.ordered firstMember
      omega
    obtain ⟨final, finalMember, isFinal⟩ := lastId_mem nonempty
    have atMost := le_lastId stored.ordered (window.latest final finalMember).1.stored
    have atLeast := le_lastId window.ordered inPage
    omega

theorem closed (newest : before = none) : Closed seen events where
  stored := fun event member => (window.latest event member).1.stored
  markers := fun event member marker held starts after =>
    window.markers member held (stored.marked marker held) starts (by subst newest; rfl) after
  newer := fun event member later supersedes =>
    absurd supersedes ((window.latest event member).1.unsuperseded later)

end Window

/-! ### One action -/

theorem readPage_live {after : Nat} {expected : Option Nat} (started : 0 < after)
    (first : firstId log ≤ after) (last : after ≤ lastId log)
    (history : ∀ known, expected = some known → known = firstId log) :
    readPage sizes log after expected none = .ok {
      events := eventBatch sizes log after
      reset := false
      more := decide (((eventBatch sizes log after).getLast?.map Event.id).getD after < lastId log)
      history := firstId log
      oldest := none
      hasOlder := false } := by
  have kept : expected.any (· != firstId log) = false := by
    cases expected with
    | none => rfl
    | some known => simp [history known rfl]
  unfold readPage
  simp [kept, started.ne', not_lt.mpr first, not_lt.mpr last]

theorem readPage_tail (expected : Option Nat) :
    readPage sizes log 0 expected none = .ok {
      events := (eventsBefore sizes log none).1
      reset := expected.any (· != firstId log)
      more := decide (lastId (eventsBefore sizes log none).1 < lastId log)
      history := firstId log
      oldest := some (reach none (eventsBefore sizes log none).1)
      hasOlder := (eventsBefore sizes log none).2 } := by
  unfold readPage
  simp [lastId, reach]
  rfl

theorem readPage_older {page : Page} {known bound : Nat}
    (read : readPage sizes log 0 (some known) (some bound) = .ok page) :
    page.events = (eventsBefore sizes log (some bound)).1 ∧
      page.hasOlder = (eventsBefore sizes log (some bound)).2 ∧
      page.oldest = some (reach (some bound) page.events) := by
  unfold readPage at read
  dsimp only at read
  split at read
  · cases read
  · obtain rfl := Except.ok.inj read
    simp [reach]

namespace Viewing

variable (viewing : Viewing log viewer) (stored : Stored log)

theorem opened (stored : Stored log) : Viewing log .opened where
  tracks := .start
  covers := .opened stored
  history := fun started => absurd started (Nat.lt_irrefl _)
  shown := fun complete => by cases complete
  cached := fun _ _ found => by cases found
  pending := fun _ found => by cases found

include viewing

theorem record (stored : Stored (log ++ [event])) : Viewing (log ++ [event]) viewer := by
  have sameFirst : ∀ {cursor oldest : Nat} {received rows : List Event},
      Covers log oldest cursor received rows → 0 < cursor → firstId (log ++ [event]) = firstId log := by
    intro cursor oldest received rows covers started
    obtain ⟨old, member, -⟩ := covers.reached.resolve_left started.ne'
    exact (firstId_start (List.prefix_append log [event]) (List.ne_nil_of_mem member)).symm
  refine { viewing with covers := viewing.covers.record stored, history := ?_, cached := ?_, pending := ?_ }
  · intro started known isKnown
    rw [sameFirst viewing.covers started]
    exact viewing.history started known isKnown
  · intro cached saved isCached isSaved
    have keeps := viewing.cached cached saved isCached isSaved
    refine ⟨keeps.covers.record stored, fun started => ?_⟩
    rw [sameFirst keeps.covers started]
    exact keeps.history started
  · intro pending isPending
    obtain ⟨seen, awaits⟩ := viewing.pending pending isPending
    refine ⟨seen, { awaits with part := ?_, later := fun other member newer delivered => ?_ }⟩
    · exact awaits.part.trans (List.prefix_append log [event])
    · rcases List.mem_append.mp member with old | new
      · exact awaits.later other old newer delivered
      · rw [List.mem_singleton.mp new] at delivered
        exact absurd (viewing.covers.undelivered stored) (not_lt.mpr delivered)

/-- A client that received the same awaits the same page. -/
theorem awaiting {other : Viewer} (cursor : other.session.cursor = viewer.session.cursor)
    (oldest : other.oldest = viewer.oldest) (received : other.session.received = viewer.session.received)
    (pending : Pending) (isPending : viewer.pending = some pending) :
    ∃ seen, Awaits log other pending seen := by
  obtain ⟨seen, awaits⟩ := viewing.pending pending isPending
  refine ⟨seen, ?_, ?_, awaits.part, awaits.window, awaits.oldest, awaits.bound, ?_⟩
  · rw [cursor]
    exact awaits.started
  · rw [oldest]
    exact awaits.before
  · rw [cursor, received]
    exact awaits.later

theorem forget : Viewing log viewer.forget where
  tracks := { viewing.tracks with cached := fun _ found => by cases found }
  covers := viewing.covers
  history := viewing.history
  shown := viewing.shown
  cached := fun _ _ found => by cases found
  pending := viewing.awaiting rfl rfl rfl

theorem reconnect : Viewing log viewer.reconnect where
  tracks := viewing.tracks.reconnect
  covers := viewing.covers
  history := viewing.history
  shown := viewing.shown
  cached := viewing.cached
  pending := viewing.awaiting rfl rfl rfl

/-- The request is dropped, whatever its answer. -/
theorem answered : Viewing log { viewer with pending := none } :=
  { viewing with pending := fun _ found => by cases found }

/-! ### The cache -/

omit viewing in
theorem keeps_trim {oldest : Nat} {saved : Saved}
    (covers : Covers log oldest viewer.session.cursor
      (viewer.session.received.filter fun event => decide (oldest ≤ event.id))
      (viewer.session.rows.filter fun row => decide (oldest ≤ row.id)))
    (isOldest : saved.oldest = oldest)
    (history : 0 < viewer.session.cursor → saved.history = firstId log) :
    ∀ cached, (viewer.session.save oldest).cached = some cached → Keeps log cached saved := by
  intro cached isCached
  obtain rfl := Option.some.inj isCached
  exact ⟨isOldest ▸ covers, history⟩

include stored

theorem rows_nil (unstarted : viewer.session.cursor = 0) : viewer.session.rows = [] := by
  have covers := viewing.covers
  rw [unstarted] at covers
  have nothing := covers.received_nil stored
  refine List.eq_nil_iff_forall_not_mem.mpr fun row member => ?_
  obtain ⟨event, latest, -⟩ := viewing.tracks.shows.sound row member
  rw [nothing] at latest
  exact absurd latest.stored List.not_mem_nil

theorem save (state : Nat) : Viewing log (viewer.save sizes state) := by
  unfold Viewer.save
  cases isHistory : viewer.history with
  | none => exact viewing
  | some history =>
      dsimp only
      by_cases incomplete : (!viewer.complete) = true
      · rw [if_pos incomplete]
        exact viewing
      rw [if_neg incomplete, sorted_eq viewing.covers.ordered]
      have known : 0 < viewer.session.cursor → history = firstId log := fun started =>
        viewing.history started history isHistory
      have same : 0 < viewer.session.cursor → ∀ other, some history = some other →
          other = firstId log := fun started other isOther =>
        viewing.history started other (isHistory.trans isOther)
      obtain ⟨start, isStart, within⟩ : ∃ start, viewer.session.rows.length -
          Viewer.fitting sizes (state * 2 + 4096) 0 viewer.session.rows.reverse = start ∧
            start ≤ viewer.session.rows.length := ⟨_, rfl, Nat.sub_le _ _⟩
      rw [isStart]
      by_cases whole : start = 0
      · rw [if_pos whole]
        refine { viewing with
          tracks := viewing.tracks.save 0
          history := same
          cached := fun cached saved isCached isSaved => ?_
          pending := viewing.awaiting rfl rfl rfl }
        obtain rfl := Option.some.inj isSaved
        obtain rfl := Option.some.inj isCached
        have everything : ∀ events : List Event,
            events.filter (fun event => decide (0 ≤ event.id)) = events := fun events => by simp
        refine ⟨?_, known⟩
        show Covers log viewer.oldest viewer.session.cursor (viewer.session.received.filter _)
          (viewer.session.rows.filter _)
        rw [everything, everything]
        exact viewing.covers
      · rw [if_neg whole]
        refine { viewing with
          tracks := viewing.tracks.save _
          history := same
          cached := fun cached saved isCached isSaved => ?_
          pending := viewing.awaiting rfl rfl rfl }
        obtain rfl := Option.some.inj isSaved
        refine keeps_trim (viewing.covers.trim ?_ ?_ ?_) rfl known cached isCached
        · cases isFirst : viewer.session.rows[start]? with
          | none => exact viewing.covers.bound
          | some first =>
              obtain ⟨event, latest, displays⟩ :=
                viewing.tracks.shows.sound first (List.mem_of_getElem? isFirst)
              show viewer.oldest ≤ first.id
              rw [displays.id]
              exact viewing.covers.since event latest.stored
        · cases isFirst : viewer.session.rows[start]? with
          | none => exact Nat.le_refl _
          | some first =>
              obtain ⟨event, latest, displays⟩ :=
                viewing.tracks.shows.sound first (List.mem_of_getElem? isFirst)
              show first.id ≤ viewer.session.cursor + 1
              rw [displays.id]
              exact (viewing.covers.stored latest.stored).2.trans (Nat.le_succ _)
        · intro unstarted
          rw [viewing.rows_nil stored unstarted, List.length_nil] at within
          exact absurd (Nat.le_zero.mp within) whole

omit stored in
theorem reopen (stored : Stored log) : Viewing log viewer.reopen := by
  unfold Viewer.reopen
  cases isCached : viewer.session.cached with
  | none => exact .opened stored
  | some cached =>
      cases isSaved : viewer.saved with
      | none => exact .opened stored
      | some saved =>
          have keeps := viewing.cached cached saved isCached isSaved
          have tracks : viewer.session.reload.Tracks Event.shown Event.shown :=
            viewing.tracks.reload.elim id id
          have reloaded : viewer.session.reload = { viewer.session with
              deltas := ∅
              cursor := cached.cursor
              accumulator := .restore cached.events cached.cursor
              rows := cached.events
              cached := some cached
              sent := []
              received := cached.received } := by
            unfold Session.reload
            rw [isCached]
          dsimp only
          rw [reloaded] at tracks ⊢
          refine ⟨tracks, keeps.covers, fun started known isKnown => ?_, fun _ => rfl,
            fun other kept isOther isKept => ?_, fun _ found => by cases found⟩
          · obtain rfl := Option.some.inj isKnown
            exact keeps.history started
          · exact viewing.cached other kept (isCached.trans isOther) (isSaved.trans isKept)

end Viewing

/-! ### A batch -/

section Tail

variable {session : Session} (tracks : session.Tracks Event.shown Event.shown)
  (nothing : session.received = []) (unstarted : session.cursor = 0)
  (window : Window seen none events more) (stored : Stored seen)

include tracks nothing unstarted window stored

/-- The start of the newest page goes to a client that has received nothing. -/
theorem extends_page (part : page <+: events) (plain : ∀ event ∈ page, event.Plain) :
    Extends session (session.deliver page false) page := by
  have noRows : session.rows = [] := List.eq_nil_iff_forall_not_mem.mpr fun row member => by
    obtain ⟨event, latest, -⟩ := tracks.shows.sound row member
    rw [nothing] at latest
    exact absurd latest.stored List.not_mem_nil
  have noneSent : session.sent = [] := by
    have ending := tracks.connection
    rw [nothing] at ending
    exact List.suffix_nil.mp ending
  have ordered : Ordered session.rows := by rw [noRows]; exact .nil
  have plainRows : ∀ row ∈ session.rows, row.Plain := fun row member => by
    rw [noRows] at member
    exact absurd member List.not_mem_nil
  have newer : Newer session.cursor page := by
    rw [unstarted]
    have whole := window.newer stored
    exact ⟨whole.ordered.sublist part.sublist, fun event member => whole.fresh event (part.subset member),
      fun event member => whole.marked event (part.subset member)⟩
  refine extends_batch tracks ordered plainRows newer fun first event rest split => ?_
  have member : event ∈ page := by simp [split]
  obtain ⟨after, isPage⟩ := part
  have unrepeated : ∀ message, event.message? = some message → lastSnapshot first message = none :=
    fun message own => window.unrepeated stored
      (show events = first ++ event :: (rest ++ after) by
        rw [← isPage, split, List.append_assoc, List.cons_append]) own
  rw [noneSent, nothing, List.nil_append]
  constructor
  · unfold Faithful
    cases extended : baseline first event with
    | none =>
        dsimp only
        intro delta isDelta
        rw [show event.snapshot?.bind Item.delta = none from plain event member] at isDelta
        cases isDelta
    | some previous =>
        simp only [baseline, Option.bind_eq_bind, Option.bind_eq_some_iff] at extended
        obtain ⟨item, snapshot, content, -, text, written, -⟩ := extended
        obtain ⟨held, current⟩ : ∃ held, lastSnapshot ([] ++ first) item.id = some held :=
          lastSnapshot_of_lastText written
        rw [List.nil_append, unrepeated item.id (message_of_snapshot snapshot)] at current
        cases current
  · intro message own held current
    rw [unrepeated message own] at current
    cases current

theorem extends_tail (plain : ∀ event ∈ seen, event.Plain) :
    Extends session (session.deliver events false) events :=
  extends_page tracks nothing unstarted window stored (List.prefix_refl events) fun event member =>
    plain event (window.latest event member).1.stored

end Tail

/-- What the newest page covers. -/
theorem covers_tail (stored : Stored log) (part : seen <+: log) (window : Window seen none events more)
    (ordered : Ordered rows) (plain : ∀ row ∈ rows, row.Plain) :
    Covers log (reach none events) (lastId events) events rows := by
  have storedSeen := stored.of_start part
  have ends := window.lastId storedSeen rfl
  have member : ∀ event ∈ events, event ∈ seen := fun event held => (window.latest event held).1.stored
  refine ⟨?_, fun event held => reach_le window.ordered held, fun event latest since below => ?_,
    ordered, plain, ?_, fun none => ?_, ?_⟩
  · rw [ends, stored.upTo_lastId part]
    exact window.closed storedSeen rfl
  · rw [ends] at below
    have held := stored.mem_start part latest.stored below
    exact window.reached event (latest.to_start stored.ordered part held) rfl since
  · by_cases empty : events = []
    · rw [empty]
      exact Nat.zero_le _
    · obtain ⟨last, held, isLast⟩ := lastId_mem empty
      have least : reach none events ≤ last.id := reach_le window.ordered held
      omega
  · by_cases empty : events = []
    · rw [empty]
      rfl
    · obtain ⟨last, held, isLast⟩ := lastId_mem empty
      have positive := storedSeen.positive last (member last held)
      omega
  · by_cases empty : events = []
    · rw [empty]
      exact .inl rfl
    · obtain ⟨last, held, isLast⟩ := lastId_mem empty
      exact .inr ⟨last, part.subset (member last held), isLast⟩

/-- What a batch of the stream adds. -/
theorem covers_batch (covers : Covers log oldest cursor received rows) (stored : Stored log)
    (part : batch <+: log.filter fun event => decide (cursor < event.id)) (started : 0 < cursor)
    {next : List Event} (ordered : Ordered next) (plain : ∀ row ∈ next, row.Plain) :
    Covers log oldest ((batch.getLast?.map Event.id).getD cursor) (received ++ batch) next := by
  have delivered := upTo_batch stored part
  have isBatch : ∀ event ∈ batch, event ∈ log ∧ cursor < event.id := fun event member => by
    simpa using part.subset member
  have further : cursor ≤ (batch.getLast?.map Event.id).getD cursor ∧
      (batch.getLast?.map Event.id).getD cursor = cursor ∨
        ∃ event ∈ batch, event.id = (batch.getLast?.map Event.id).getD cursor := by
    cases isLast : batch.getLast? with
    | none => exact .inl ⟨Nat.le_refl _, rfl⟩
    | some last => exact .inr ⟨last, List.mem_of_getLast? isLast, rfl⟩
  have onward : cursor ≤ (batch.getLast?.map Event.id).getD cursor := by
    rcases further with ⟨same, -⟩ | ⟨event, member, isLast⟩
    · exact same
    · rw [← isLast]
      exact (isBatch event member).2.le
  refine ⟨?_, fun event member => ?_, fun event latest since below => ?_, ordered, plain, ?_, ?_, ?_⟩
  · rw [delivered]
    refine covers.closed.append ?_
    rw [← delivered]
    exact stored.ordered.sublist List.filter_sublist
  · rcases List.mem_append.mp member with old | new
    · exact covers.since event old
    · have newer := (isBatch event new).2
      have bound := covers.bound
      omega
  · have held : event ∈ upTo log ((batch.getLast?.map Event.id).getD cursor) :=
      mem_upTo.mpr ⟨latest.stored, below⟩
    rw [delivered] at held
    rcases List.mem_append.mp held with old | new
    · exact List.mem_append_left _ (covers.loaded event latest since (mem_upTo.mp old).2)
    · exact List.mem_append_right _ new
  · have bound := covers.bound
    omega
  · intro unstarted
    omega
  · right
    rcases further with ⟨-, same⟩ | ⟨event, member, isLast⟩
    · rw [same]
      exact covers.reached.resolve_left started.ne'
    · exact ⟨event, (isBatch event member).1, isLast⟩

theorem firstId_le (ordered : Ordered log) (member : event ∈ log) : firstId log ≤ event.id := by
  cases log with
  | nil => exact absurd member List.not_mem_nil
  | cons head tail =>
      show head.id ≤ event.id
      rcases List.mem_cons.mp member with rfl | behind
      · exact Nat.le_refl _
      · exact ((List.pairwise_cons.mp ordered).1 event behind).le

namespace Viewing

variable (viewing : Viewing log viewer) (stored : Stored log)

include viewing stored

/-- A first batch, or one after a reset, is the newest page. -/
theorem accept_tail (part : seen <+: log) (window : Window seen none events more)
    (plain : ∀ event ∈ log, event.Plain) (unstarted : viewer.session.cursor = 0) (reset next : Bool) :
    Viewing log (viewer.accept {
      events
      reset
      more := next
      history := firstId seen
      oldest := some (reach none events)
      hasOlder := more }) := by
  have storedSeen := stored.of_start part
  have plainSeen : ∀ event ∈ seen, event.Plain := fun event member => plain event (part.subset member)
  have covers := viewing.covers
  rw [unstarted] at covers
  have nothing := covers.received_nil stored
  -- with or without the reset, the page goes to a client that has received nothing
  obtain ⟨kept, base, isKept, keeps, tracks, received, cursor, same, cached⟩ : ∃ (kept : Viewer) (base : Session),
      (if reset then viewer.forget else viewer) = kept ∧ Viewing log kept ∧
        base.Tracks Event.shown Event.shown ∧ base.received = [] ∧ base.cursor = 0 ∧
        kept.session.deliver events reset = base.deliver events false ∧
        base.cached = kept.session.cached := by
    cases reset with
    | false =>
        exact ⟨viewer, viewer.session, rfl, viewing, viewing.tracks, nothing, unstarted, rfl, rfl⟩
    | true =>
        exact ⟨viewer.forget, viewer.forget.session.deliver [] true, rfl, viewing.forget,
          viewing.forget.tracks.reset, rfl, rfl, Session.deliver_reset _ _, Session.deliver_cached _ _ _⟩
  have extended := extends_tail tracks received cursor window storedSeen plainSeen
  have receives : (base.deliver events false).received = events := by
    rw [extended.received, received, List.nil_append]
  have ends : (base.deliver events false).cursor = lastId events := by
    rw [extended.cursor, cursor]
    rfl
  unfold Viewer.accept
  dsimp only
  rw [isKept, same]
  refine ⟨extended.tracks, ?_, fun started known isKnown => ?_, fun complete => ?_,
    fun other saved isCached isSaved => ?_, fun pending isPending => ?_⟩
  · rw [receives, ends]
    exact covers_tail stored part window extended.ordered extended.plain
  · rw [ends, window.lastId storedSeen rfl] at started
    obtain rfl := Option.some.inj isKnown
    refine firstId_start part fun empty => ?_
    rw [empty] at started
    exact absurd started (Nat.lt_irrefl _)
  · cases next with
    | true => cases complete
    | false => rfl
  · rw [extended.cached, cached] at isCached
    exact keeps.cached other saved isCached isSaved
  · have before : viewer.pending = some pending := by
      rw [← isPending, ← isKept]
      cases reset <;> rfl
    obtain ⟨_, awaits⟩ := viewing.pending pending before
    have started := awaits.started
    rw [unstarted] at started
    exact absurd started (Nat.lt_irrefl _)

/-- A later batch is what the log holds after the cursor. -/
theorem accept_batch (settled : Settled log)
    (part : batch <+: log.filter fun event => decide (viewer.session.cursor < event.id))
    (started : 0 < viewer.session.cursor) (next : Bool) :
    Viewing log (viewer.accept {
      events := batch
      reset := false
      more := next
      history := firstId log
      oldest := none
      hasOlder := false }) := by
  have covers := viewing.covers
  have sublist : batch.Sublist log := part.sublist.trans List.filter_sublist
  have newer : Newer viewer.session.cursor batch := by
    refine ⟨stored.ordered.sublist sublist, fun event member => ?_,
      fun event member => stored.marked event (sublist.subset member)⟩
    exact of_decide_eq_true (List.mem_filter.mp (part.subset member)).2
  have extended := extends_batch viewing.tracks covers.ordered covers.plain newer
    fun first event rest split => by
      obtain ⟨behind, whole⟩ := part
      have divided : log = (upTo log viewer.session.cursor ++ first) ++ event :: (rest ++ behind) := by
        conv_lhs => rw [← upTo_append stored.ordered viewer.session.cursor, ← whole, split]
        simp
      have settles := settled _ event _ divided
      have ordered : Ordered (upTo log viewer.session.cursor ++ first) := by
        have sorted := stored.ordered
        rw [divided] at sorted
        exact sorted.sublist (List.sublist_append_left _ _)
      have closed := covers.closed.append ordered
      have orderedReceived : Ordered (viewer.session.received ++ first) := by
        refine List.pairwise_append.mpr ⟨viewing.tracks.ordered,
          (List.pairwise_append.mp ordered).2.1, fun old member new held => ?_⟩
        exact (List.pairwise_append.mp ordered).2.2 old (covers.closed.stored old member) new held
      refine closed.settles ordered orderedReceived settles ?_
      obtain ⟨prior, isReceived⟩ := viewing.tracks.connection
      exact ⟨prior, by rw [← isReceived, List.append_assoc]⟩
  unfold Viewer.accept
  dsimp only
  have onward : viewer.session.cursor ≤ (viewer.session.deliver batch false).cursor := by
    rw [extended.cursor]
    cases isLast : batch.getLast? with
    | none => exact Nat.le_refl _
    | some last => exact (newer.fresh last (List.mem_of_getLast? isLast)).le
  refine ⟨extended.tracks, ?_, fun _ known isKnown => (Option.some.inj isKnown).symm, fun complete => ?_,
    fun other saved isCached isSaved => ?_, fun pending isPending => ?_⟩
  · show Covers log viewer.oldest (viewer.session.deliver batch false).cursor
      (viewer.session.deliver batch false).received (viewer.session.deliver batch false).rows
    rw [extended.received, extended.cursor]
    exact covers_batch covers stored part started extended.ordered extended.plain
  · cases next with
    | true => cases complete
    | false => rfl
  · rw [Session.deliver_cached] at isCached
    exact viewing.cached other saved isCached isSaved
  · obtain ⟨seen, awaits⟩ := viewing.pending pending isPending
    refine ⟨seen, { awaits with
      started := lt_of_lt_of_le started onward
      later := fun event member above delivered => ?_ }⟩
    show event ∈ (viewer.session.deliver batch false).received
    rw [extended.received]
    have held : event ∈ upTo log (viewer.session.deliver batch false).cursor :=
      mem_upTo.mpr ⟨member, delivered⟩
    rw [extended.cursor, upTo_batch stored part] at held
    rcases List.mem_append.mp held with old | new
    · exact List.mem_append_left _ (awaits.later event member above (mem_upTo.mp old).2)
    · exact List.mem_append_right _ new

/-- A batch of the stream, read when the log held less. -/
theorem poll (part : seen <+: log) (delivered : viewer.session.cursor ≤ lastId seen)
    (plain : ∀ event ∈ log, event.Plain) (settled : 0 < viewer.session.cursor → Settled log) :
    Viewing log (viewer.poll sizes seen) := by
  have storedSeen := stored.of_start part
  unfold Viewer.poll
  rcases Nat.eq_zero_or_pos viewer.session.cursor with unstarted | started
  · rw [unstarted, readPage_tail]
    exact viewing.accept_tail stored part (eventsBefore_window sizes storedSeen.ordered none) plain
      unstarted _ _
  · obtain ⟨last, member, isLast⟩ := viewing.covers.reached.resolve_left started.ne'
    have held : last ∈ seen := stored.mem_start part member (isLast ▸ delivered)
    have first : firstId seen = firstId log := firstId_start part (List.ne_nil_of_mem held)
    rw [readPage_live started (isLast ▸ firstId_le storedSeen.ordered held) delivered
      fun known isKnown => (viewing.history started known isKnown).trans first.symm, first]
    exact viewing.accept_batch stored (settled started)
      ((eventBatch_start sizes seen viewer.session.cursor).trans (part.filter _)) started _

end Viewing

/-! ### An older page -/

/-- An element of two lists in a row is in the first or in the second. -/
theorem append_eq_split {first second prior rest : List Event} {event : Event}
    (split : first ++ second = prior ++ event :: rest) :
    (∃ others, first = prior ++ event :: others) ∨
      ∃ others, prior = first ++ others ∧ second = others ++ event :: rest := by
  rcases List.append_eq_append_iff.mp split with behind | ⟨others, isFirst, isRest⟩
  · exact .inr behind
  · cases others with
    | nil =>
        rw [List.append_nil] at isFirst
        rw [List.nil_append] at isRest
        exact .inr ⟨[], by rw [isFirst, List.append_nil], isRest.symm⟩
    | cons head tail =>
        obtain ⟨rfl, -⟩ := List.cons.inj isRest
        exact .inl ⟨tail, isFirst⟩

namespace Awaits

variable {pending : Pending} (awaits : Awaits log viewer pending seen) (viewing : Viewing log viewer)
  (stored : Stored log)

include awaits viewing stored

theorem behind : Behind pending.page.events viewer.session.received viewer.session.rows where
  older := awaits.window.newer (stored.of_start awaits.part)
  recent := ⟨viewing.tracks.ordered, fun event member =>
    stored.positive event (viewing.covers.stored member).1, viewing.tracks.marked⟩
  shows := viewing.tracks.shows
  ordered := viewing.covers.ordered
  below := fun older member event held => by
    have less : older.id < pending.before := by
      simpa [olderThan] using (awaits.window.latest older member).2
    have since := viewing.covers.since event held
    rw [← awaits.before] at since
    exact lt_of_lt_of_le less since

omit stored in
theorem page_stored {event : Event} (member : event ∈ pending.page.events) :
    event ∈ log ∧ event.id ≤ viewer.session.cursor := by
  have less : event.id < pending.before := by
    simpa [olderThan] using (awaits.window.latest event member).2
  have bound := viewing.covers.bound
  rw [← awaits.before] at bound
  exact ⟨awaits.part.subset (awaits.window.latest event member).1.stored, by omega⟩

/-- The page and what was received are closed together. -/
theorem joined : Closed (upTo log viewer.session.cursor)
    (pending.page.events ++ viewer.session.received) := by
  have closed := viewing.covers.closed
  have part := upTo_start stored.ordered viewer.session.cursor
  refine ⟨fun event member => ?_, fun event member marker held starts after => ?_,
    fun event member later supersedes => ?_⟩
  · rcases List.mem_append.mp member with old | new
    · exact mem_upTo.mpr (awaits.page_stored viewing old)
    · exact closed.stored event new
  · obtain ⟨isStored, delivered⟩ := mem_upTo.mp held
    rcases List.mem_append.mp member with old | new
    · rcases Nat.lt_or_ge marker.id pending.before with isOlder | isNewer
      · have inSeen : marker ∈ seen := stored.mem_start awaits.part isStored (by
          have bound := awaits.bound
          omega)
        exact List.mem_append_left _ (awaits.window.markers old inSeen (stored.marked marker isStored)
          starts (by simpa [olderThan] using isOlder) after)
      · rw [awaits.before] at isNewer
        exact List.mem_append_right _ (viewing.covers.loaded marker
          (latest_of_marker isStored (stored.marked marker isStored) starts) isNewer delivered)
    · exact List.mem_append_right _ (closed.markers event new marker held starts after)
  · obtain ⟨isStored, delivered⟩ := mem_upTo.mp supersedes.stored
    rcases List.mem_append.mp member with old | new
    · rcases Nat.lt_or_ge (lastId seen) later.id with isNewer | inSeen
      · exact List.mem_append_right _ (awaits.later later isStored isNewer delivered)
      · have whole := supersedes.of_start stored.ordered part
        exact absurd (whole.to_start awaits.part (stored.mem_start awaits.part isStored inSeen))
          ((awaits.window.latest event old).1.unsuperseded later)
    · exact List.mem_append_right _ (closed.newer event new later supersedes)

/-- Nothing in the page or the rows separates a row from its message in the page. -/
theorem follows (adjacent : ∀ held ∈ pending.page.events, ∀ later, Supersedes log held later →
      ∀ other ∈ log, held.id < other.id → other.id < later.id → other.message? = held.message?)
    {first rest : List Event} {event : Event}
    (split : pending.page.events ++ viewer.session.rows = first ++ event :: rest) :
    Follows first event := by
  have behind := awaits.behind viewing stored
  have ordered := behind.newer.ordered
  have joined := awaits.joined viewing stored
  rcases append_eq_split split with ⟨rest', isPage⟩ | ⟨shown, isFirst, isRows⟩
  · intro message own held current
    rw [awaits.window.unrepeated (stored.of_start awaits.part) isPage own] at current
    cases current
  · have isRow : event ∈ viewer.session.rows := by rw [isRows]; simp
    obtain ⟨origin, latest, id, named, -⟩ := behind.origin isRow
    rw [split] at ordered
    have inFirst : ∀ other ∈ pending.page.events ++ viewer.session.rows, other.id < event.id →
        other ∈ first := fun other member less => ordered.mem_before (split ▸ member) less
    intro message own held current old oldMember
    have orderedFirst : Ordered first := ordered.sublist (List.sublist_append_left _ _)
    obtain ⟨heldMember, heldOwn, unfollowed⟩ := (lastSnapshot_eq_some orderedFirst).mp current
    have heldBelow := ordered.split.1 held heldMember
    have originOwn : origin.message? = some message := named ▸ own
    -- a turn marker between them would be in the page or have a row
    have unmarked : ∀ marker ∈ pending.page.events ++ viewer.session.received, marker.startsTurn →
        held.id < marker.id → origin.id < marker.id := by
      intro marker member starts after
      rcases Nat.lt_trichotomy origin.id marker.id with beyond | same | between
      · exact beyond
      · have isOrigin : origin = marker := behind.ordered_received.eq_of_id
          (List.mem_append_right _ latest.stored) member same
        have unnamed := stored.marked marker
          (isOrigin ▸ (viewing.covers.stored latest.stored).1) starts
        rw [← isOrigin, originOwn] at unnamed
        cases unnamed
      · rw [← id] at between
        rcases List.mem_append.mp member with older | recent
        · have goes := (unfollowed marker (inFirst marker (List.mem_append_left _ older) between) after).2
          rw [starts] at goes
          cases goes
        · obtain ⟨row, rowMember, sameId, isMarker⟩ := behind.marker recent starts
          rw [← sameId] at between after
          have goes := (unfollowed row (inFirst row (List.mem_append_right _ rowMember) between) after).2
          rw [isMarker] at goes
          cases goes
    rw [isFirst] at heldMember
    rcases List.mem_append.mp heldMember with inPage | isShown
    · by_contra above
      have supersedes : Supersedes log held origin :=
        ⟨(viewing.covers.stored latest.stored).1, by rw [heldOwn]; rfl, originOwn.trans heldOwn.symm,
          id ▸ heldBelow, fun marker member starts after => by
            by_contra notBeyond
            have delivered : marker.id ≤ viewer.session.cursor :=
              (not_lt.mp notBeyond).trans (viewing.covers.stored latest.stored).2
            have inJoined := joined.markers held (List.mem_append_left _ inPage) marker
              (mem_upTo.mpr ⟨member, delivered⟩) starts after
            exact notBeyond (unmarked marker inJoined starts after)⟩
      have below := ordered.split.1 old oldMember
      have sameMessage : old.message? = held.message? := by
        rw [isFirst] at oldMember
        rcases List.mem_append.mp oldMember with older | isOther
        · exact adjacent held inPage origin supersedes old (awaits.page_stored viewing older).1
            (not_le.mp above) (id ▸ below)
        · have otherRow : old ∈ viewer.session.rows := by
            rw [isRows]
            exact List.mem_append_left _ isOther
          obtain ⟨other, otherLatest, otherId, otherNamed, -⟩ := behind.origin otherRow
          rw [otherNamed]
          exact adjacent held inPage origin supersedes other
            (viewing.covers.stored otherLatest.stored).1 (otherId ▸ not_le.mp above)
            (otherId ▸ id ▸ below)
      exact (unfollowed old oldMember (not_le.mp above)).1 (sameMessage.trans heldOwn)
    · have heldRow : held ∈ viewer.session.rows := by
        rw [isRows]
        exact List.mem_append_left _ isShown
      obtain ⟨heldOrigin, heldLatest, heldId, heldNamed, -⟩ := behind.origin heldRow
      refine absurd ⟨latest.stored, ?_, ?_, ?_, fun marker member starts after => ?_⟩
        (heldLatest.unsuperseded origin)
      · rw [← heldNamed, heldOwn]
        rfl
      · rw [← heldNamed, heldOwn, originOwn]
      · rw [← heldId, ← id]
        exact heldBelow
      · exact unmarked marker (List.mem_append_right _ member) starts (heldId ▸ after)

/-- The answer is merged into the rows. -/
theorem merges (plain : ∀ event ∈ log, event.Plain)
    (adjacent : ∀ held ∈ pending.page.events, ∀ later, Supersedes log held later →
      ∀ other ∈ log, held.id < other.id → other.id < later.id → other.message? = held.message?) :
    ∃ live rows, Viewer.merged pending.page.events viewer.session.rows = .ok (live, rows) ∧
      Viewing log { viewer with
        session := Viewer.extended viewer.session pending.page.events rows
        oldest := pending.page.oldest.getD 0
        hasOlder := pending.page.hasOlder
        events := rows
        pending := none } := by
  have behind := awaits.behind viewing stored
  have joined := awaits.joined viewing stored
  obtain ⟨live, rows, merges, shows', ordered, plainRows⟩ := behind.merged_shows
    (fun event member => plain event (awaits.page_stored viewing member).1) viewing.covers.plain
    fun first event rest split => awaits.follows viewing stored adjacent split
  have tracks := viewing.tracks
  have covers := viewing.covers
  have marked : ∀ event ∈ pending.page.events ++ viewer.session.received, event.Marked :=
    fun event member => stored.marked event (mem_upTo.mp (joined.stored event member)).1
  refine ⟨live, rows, merges, ⟨?_, ?_, viewing.history, fun _ => rfl, viewing.cached,
    fun _ found => by cases found⟩⟩
  · obtain ⟨prior, isReceived⟩ := tracks.connection
    exact {
      unbroken := tracks.unbroken
      ordered := behind.ordered_received
      bounded := fun event member => (mem_upTo.mp (joined.stored event member)).2
      marked
      cursor := rfl
      encoder := tracks.encoder
      connection := ⟨pending.page.events ++ prior, by
        rw [List.append_assoc]
        exact congrArg (pending.page.events ++ ·) isReceived⟩
      shows := shows'
      indexed := shows'.restore behind.ordered_received marked viewer.session.cursor
      cached := tracks.cached }
  · rw [awaits.oldest, Option.getD_some]
    have reaches : reach (some pending.before) pending.page.events ≤ viewer.oldest := by
      rw [← awaits.before]
      by_cases empty : pending.page.events = []
      · rw [empty]
        exact Nat.le_refl _
      · obtain ⟨last, member, -⟩ := lastId_mem empty
        have less : last.id < pending.before := by
          simpa [olderThan] using (awaits.window.latest last member).2
        exact (reach_le awaits.window.ordered member).trans less.le
    refine ⟨joined, fun event member => ?_, fun event latest since delivered => ?_, ordered, plainRows,
      reaches.trans covers.bound, fun unstarted => ?_, covers.reached⟩
    · rcases List.mem_append.mp member with old | new
      · exact reach_le awaits.window.ordered old
      · exact reaches.trans (covers.since event new)
    · rcases Nat.lt_or_ge event.id pending.before with isOlder | isNewer
      · have inSeen : event ∈ seen := stored.mem_start awaits.part latest.stored (by
          have bound := awaits.bound
          omega)
        exact List.mem_append_left _ (awaits.window.reached event
          (latest.to_start stored.ordered awaits.part inSeen) (by simpa [olderThan] using isOlder) since)
      · rw [awaits.before] at isNewer
        exact List.mem_append_right _ (covers.loaded event latest isNewer delivered)
    · exact absurd awaits.started (by
        rw [show viewer.session.cursor = 0 from unstarted]
        exact Nat.lt_irrefl 0)

end Awaits

namespace Viewing

variable (viewing : Viewing log viewer) (stored : Stored log)

include viewing stored

theorem requestOlder : Viewing log (viewer.requestOlder sizes log) := by
  unfold Viewer.requestOlder
  cases isHistory : viewer.history with
  | none => exact viewing
  | some history =>
      dsimp only
      split
      · exact viewing
      rename_i allowed
      have below : viewer.oldest ≠ 0 := fun zero => allowed (by simp [zero])
      cases read : readPage sizes log 0 (some history) (some viewer.oldest) with
      | error => exact viewing
      | ok page =>
          obtain ⟨events, hasOlder, oldest⟩ := readPage_older read
          dsimp only
          refine { viewing with
            history := fun started other isOther =>
              viewing.history started other (isHistory.trans isOther)
            pending := fun pending isPending => ?_ }
          obtain rfl := Option.some.inj isPending
          have covers := viewing.covers
          refine ⟨log, Nat.pos_of_ne_zero fun unstarted => below (covers.empty unstarted), rfl,
            List.prefix_refl log, ?_, oldest, ?_, fun event member above _ =>
              absurd above (not_lt.mpr (le_lastId stored.ordered member))⟩
          · show Window log (some viewer.oldest) page.events page.hasOlder
            rw [events, hasOlder]
            exact eventsBefore_window sizes stored.ordered (some viewer.oldest)
          · have bound := covers.bound
            rcases covers.reached with unstarted | ⟨last, member, isLast⟩
            · exact absurd (covers.empty unstarted) below
            · have atMost := le_lastId stored.ordered member
              show viewer.oldest ≤ lastId log + 1
              omega

theorem receiveOlder (plain : ∀ event ∈ log, event.Plain) (settled : Settled log) :
    Viewing log viewer.receiveOlder := by
  unfold Viewer.receiveOlder
  cases isPending : viewer.pending with
  | none => exact viewing
  | some pending =>
      obtain ⟨seen, awaits⟩ := viewing.pending pending isPending
      dsimp only
      split
      · exact viewing.answered
      · obtain ⟨live, rows, merged, after⟩ := awaits.merges viewing stored plain
          fun held member later supersedes other isStored above below =>
            settled.between stored.ordered supersedes isStored above below
              (awaits.page_stored viewing member).1
        rw [merged]
        exact after

end Viewing

/-! ### Runs -/

/-- An action only extends the log. -/
theorem World.step_log {world next : World} {action : Action}
    (stepped : world.step sizes action = some next) : world.log <+: next.log := by
  cases action with
  | record event =>
      simp only [World.step] at stepped
      split at stepped
      · obtain rfl := Option.some.inj stepped
        exact List.prefix_append _ _
      · cases stepped
  | poll count =>
      simp only [World.step] at stepped
      split at stepped
      · obtain rfl := Option.some.inj stepped
        exact List.prefix_refl _
      · cases stepped
  | reconnect => obtain rfl := Option.some.inj stepped; exact List.prefix_refl _
  | requestOlder => obtain rfl := Option.some.inj stepped; exact List.prefix_refl _
  | receiveOlder => obtain rfl := Option.some.inj stepped; exact List.prefix_refl _
  | save state => obtain rfl := Option.some.inj stepped; exact List.prefix_refl _
  | forget => obtain rfl := Option.some.inj stepped; exact List.prefix_refl _
  | reopen => obtain rfl := Option.some.inj stepped; exact List.prefix_refl _

theorem Stored.record (stored : Stored log) (newer : lastId log < event.id) (marked : event.Marked) :
    Stored (log ++ [event]) where
  ordered := stored.ordered.concat fun old member => (le_lastId stored.ordered member).trans_lt newer
  positive := fun other member => by
    rcases List.mem_append.mp member with old | new
    · exact stored.positive other old
    · rw [List.mem_singleton.mp new]
      exact Nat.zero_lt_of_lt newer
  marked := fun other member => by
    rcases List.mem_append.mp member with old | new
    · exact stored.marked other old
    · rw [List.mem_singleton.mp new]
      exact marked

/-- What every action preserves while the log stays settled. -/
theorem Viewing.step {world next : World} {action : Action} (viewing : Viewing world.log world.viewer)
    (stored : Stored world.log) (settled : Settled world.log)
    (stepped : world.step sizes action = some next) :
    Stored next.log ∧ Viewing next.log next.viewer := by
  have plain : ∀ event ∈ world.log, event.Plain := fun event => settled.plain
  cases action with
  | record event =>
      simp only [World.step] at stepped
      split at stepped
      · rename_i admitted
        obtain rfl := Option.some.inj stepped
        have longer := stored.record admitted.1 admitted.2
        exact ⟨longer, viewing.record longer⟩
      · cases stepped
  | poll count =>
      simp only [World.step] at stepped
      split at stepped
      · rename_i delivered
        obtain rfl := Option.some.inj stepped
        have part : world.log.take count <+: world.log := List.take_prefix _ _
        exact ⟨stored, viewing.poll stored part delivered plain fun _ => settled⟩
      · cases stepped
  | reconnect => obtain rfl := Option.some.inj stepped; exact ⟨stored, viewing.reconnect⟩
  | requestOlder => obtain rfl := Option.some.inj stepped; exact ⟨stored, viewing.requestOlder stored⟩
  | receiveOlder =>
      obtain rfl := Option.some.inj stepped
      exact ⟨stored, viewing.receiveOlder stored plain settled⟩
  | save state => obtain rfl := Option.some.inj stepped; exact ⟨stored, viewing.save stored state⟩
  | forget => obtain rfl := Option.some.inj stepped; exact ⟨stored, viewing.forget⟩
  | reopen => obtain rfl := Option.some.inj stepped; exact ⟨stored, viewing.reopen stored⟩

/-- Every client of a settled log holds the current events of the part that it loaded. -/
theorem viewing_of_obtains (settled : Settled log) (obtained : Obtains sizes log viewer) :
    Stored log ∧ Viewing log viewer := by
  obtain ⟨actions, run⟩ := obtained
  induction actions using List.reverseRecOn generalizing log viewer with
  | nil =>
      obtain ⟨rfl, rfl⟩ := World.mk.inj (Option.some.inj run)
      have stored : Stored [] := ⟨.nil, fun _ member => absurd member List.not_mem_nil,
        fun _ member => absurd member List.not_mem_nil⟩
      exact ⟨stored, .opened stored⟩
  | append_singleton actions action inductionHypothesis =>
      obtain ⟨⟨before, client⟩, reached, last⟩ := execute_append.mp run
      obtain ⟨next, stepped, ends⟩ := execute_cons.mp last
      obtain rfl := Option.some.inj ends
      have settledBefore : Settled before := settled.of_start (World.step_log stepped)
      obtain ⟨stored, viewing⟩ := inductionHypothesis settledBefore reached
      exact viewing.step stored settledBefore stepped

/-! ### Displays -/

/-- Rows in the order of their ids are determined by what they display. -/
theorem eq_of_displays {first second : List Display}
    (orderedFirst : first.Pairwise fun earlier later => earlier.id < later.id)
    (orderedSecond : second.Pairwise fun earlier later => earlier.id < later.id)
    (same : ∀ display, display ∈ first ↔ display ∈ second) : first = second := by
  have distinct : ∀ {displays : List Display},
      displays.Pairwise (fun earlier later => earlier.id < later.id) → displays.Nodup :=
    fun ordered => ordered.imp fun {earlier later} less (equal : earlier = later) =>
      Nat.lt_irrefl later.id (equal ▸ less)
  have perm : first.Perm second :=
    (List.perm_ext_iff_of_nodup (distinct orderedFirst) (distinct orderedSecond)).mpr same
  exact perm.eq_of_pairwise (fun _ _ _ _ below above => absurd below (Nat.lt_asymm above))
    orderedFirst orderedSecond

/-- A client that the whole log was delivered to displays its current events. -/
theorem Viewing.displays (viewing : Viewing log viewer) (stored : Stored log)
    (caughtUp : viewer.CaughtUp log) {from' : Nat} (loaded : viewer.oldest ≤ from') :
    viewer.displays from' =
      ((current log).filter fun event => decide (from' ≤ event.id)).map Event.display := by
  have covers := viewing.covers
  rw [caughtUp.2] at covers
  rw [Viewer.displays, viewing.shown caughtUp.1]
  have ordered : ∀ {events : List Event}, Ordered events →
      ((events.filter fun event => decide (from' ≤ event.id)).map Event.display).Pairwise
        fun earlier later => earlier.id < later.id := fun ordered =>
    List.pairwise_map.mpr (ordered.sublist List.filter_sublist)
  refine eq_of_displays (ordered covers.ordered) (ordered (current_ordered stored.ordered))
    fun display => ?_
  simp only [List.mem_map, List.mem_filter, decide_eq_true_eq, mem_current stored.ordered]
  have shown : ∀ {row event : Event}, Displays event.shown row event → row.display = event.display :=
    fun displays => by
      unfold Event.display
      rw [displays.id, displays.type, displays.message, displays.shown]
  constructor
  · rintro ⟨row, ⟨member, since⟩, rfl⟩
    obtain ⟨event, latest, displays⟩ := viewing.tracks.shows.sound row member
    exact ⟨event, ⟨((covers.latest stored).mp latest).1, displays.id ▸ since⟩, (shown displays).symm⟩
  · rintro ⟨event, ⟨latest, since⟩, rfl⟩
    obtain ⟨row, member, displays⟩ := viewing.tracks.shows.complete event
      ((covers.latest stored).mpr ⟨latest, loaded.trans since⟩)
    exact ⟨row, ⟨member, displays.id.symm ▸ since⟩, shown displays⟩

/-- All clients of a settled log display it the same way. -/
theorem Settled.independent (settled : Settled log) : Independent sizes log := by
  intro first second firstObtains secondObtains
  obtain ⟨stored, firstViewing⟩ := viewing_of_obtains settled firstObtains
  obtain ⟨-, secondViewing⟩ := viewing_of_obtains settled secondObtains
  refine ⟨firstViewing.tracks.unbroken, fun firstCaughtUp secondCaughtUp => ?_⟩
  rw [firstViewing.displays stored firstCaughtUp (le_max_left _ _),
    secondViewing.displays stored secondCaughtUp (le_max_right _ _)]

end Cairn.Live

import Cairn.Error
import Cairn.Live.Snapshots

/-!
Owns the reads of a run's event log (`event_slice` of `store.rs`, `read_page` of `live.rs`):
which events a page holds, and what it leaves to an older one.

Does not own what a client does with a page. Every request here asks for a window.
-/

set_option autoImplicit false

namespace Cairn.Live

/-- What only the size limits read of an event: the bytes of its payload and of its row. -/
structure Sizes where
  payload : Event → Nat
  row : Event → Nat

/-- `text.len() + payload.len() + 256`. -/
def Event.weight (sizes : Sizes) (event : Event) : Nat :=
  (event.text.map Char.utf8Size).sum + sizes.payload event + 256

/-! ### The queries -/

/-- The id of the first turn marker after an event. -/
def turnEnd (log : List Event) (event : Event) : Option Nat :=
  (log.find? fun marker => marker.startsTurn && decide (event.id < marker.id)).map Event.id

/-- A newer snapshot of the same message in the same turn. -/
def newer (log : List Event) (event later : Event) : Bool :=
  later.message? == event.message? && decide (event.id < later.id) &&
    (turnEnd log event).all fun ends => decide (later.id < ends)

/-- The events that no newer snapshot hides. -/
def current (log : List Event) : List Event :=
  log.filter fun event => event.message?.isNone || !log.any (newer log event)

/-- No bound stands for `i64::MAX`, which no id reaches. -/
def olderThan (before : Option Nat) (event : Event) : Bool :=
  before.all fun bound => decide (event.id < bound)

/-- The loop ends with the event that reaches a limit. -/
def takeEvents (sizes : Sizes) (limit maxBytes bytes count : Nat) : List Event → List Event
  | [] => []
  | event :: rows =>
      let bytes := bytes + event.weight sizes
      if maxBytes ≤ bytes ∨ limit ≤ count + 1 then [event]
      else event :: takeEvents sizes limit maxBytes bytes (count + 1) rows

/-- Newest first, with one row more than the limit. -/
def eventsBefore (sizes : Sizes) (log : List Event) (before : Option Nat) : List Event × Bool :=
  let limit := 100
  let rows := ((current log).filter (olderThan before)).reverse.take (limit + 1)
  let events := takeEvents sizes limit (256 * 1024) 0 0 rows
  (events.reverse, decide (events.length < rows.length))

def pageEvents : Nat := 100

def pageBytes : Nat := 256 * 1024

def eventBatch (sizes : Sizes) (log : List Event) (after : Nat) : List Event :=
  takeEvents sizes pageEvents pageBytes 0 0
    ((log.filter fun event => decide (after < event.id)).take pageEvents)

/-! ### A page -/

/-- The oldest and the newest retained id, 0 when there is none. -/
def firstId (log : List Event) : Nat := (log.head?.map Event.id).getD 0

def lastId (log : List Event) : Nat := (log.getLast?.map Event.id).getD 0

/-- `history` is the version of the run's history: the oldest retained id. -/
structure Page where
  events : List Event
  reset : Bool
  more : Bool
  history : Nat
  oldest : Option Nat
  hasOlder : Bool
deriving DecidableEq, Repr

def readPage (sizes : Sizes) (log : List Event) (after : Nat) (expected before : Option Nat) :
    Except Error Page :=
  let history := firstId log
  let reset := decide (lastId log < after) || (decide (0 < after) && decide (after < firstId log)) ||
    expected.any (· != history)
  if before.isSome && reset then
    .error (.conflict "History changed. Reconnect before loading older messages.")
  else
    let start := if reset then 0 else after
    let tail := before.isSome || decide (after = 0) || reset
    let (events, hasOlder) :=
      if tail then eventsBefore sizes log before else (eventBatch sizes log start, false)
    let cursor := (events.getLast?.map Event.id).getD start
    .ok {
      events
      reset
      more := decide (cursor < lastId log)
      history
      oldest := if tail then some ((events.head?.map Event.id).getD (before.getD 0)) else none
      hasOlder }

/-! ### The events of a slice -/

variable {sizes : Sizes} {log events rows : List Event} {event later : Event}
  {limit maxBytes bytes count : Nat} {before : Option Nat}

theorem takeEvents_start (sizes : Sizes) (limit maxBytes bytes count : Nat) (rows : List Event) :
    takeEvents sizes limit maxBytes bytes count rows <+: rows := by
  induction rows generalizing bytes count with
  | nil => exact List.prefix_refl []
  | cons event rows inductionHypothesis =>
      unfold takeEvents
      dsimp only
      split
      · exact ⟨rows, rfl⟩
      · exact List.cons_prefix_cons.mpr ⟨rfl, inductionHypothesis _ _⟩

/-- A slice of some rows holds at least one. -/
theorem takeEvents_eq_nil : takeEvents sizes limit maxBytes bytes count rows = [] ↔ rows = [] := by
  cases rows with
  | nil => simp [takeEvents]
  | cons event rows =>
      unfold takeEvents
      dsimp only
      split <;> simp

theorem takeEvents_length (room : count < limit) :
    (takeEvents sizes limit maxBytes bytes count rows).length ≤ limit - count := by
  induction rows generalizing bytes count with
  | nil => simp [takeEvents]
  | cons event rows inductionHypothesis =>
      unfold takeEvents
      dsimp only
      split
      · rw [List.length_singleton]
        omega
      · rename_i continues
        have rest := @inductionHypothesis (bytes + event.weight sizes) (count + 1) (by omega)
        rw [List.length_cons]
        omega

/-! ### The current events -/

theorem turnEnd_all (ordered : Ordered log) (event : Event) (id : Nat) :
    ((turnEnd log event).all fun ends => decide (id < ends)) = true ↔
      ∀ marker ∈ log, marker.startsTurn → event.id < marker.id → id < marker.id := by
  unfold turnEnd
  cases found : log.find? fun marker => marker.startsTurn && decide (event.id < marker.id) with
  | none =>
      refine ⟨fun _ marker member starts after => ?_, fun _ => rfl⟩
      have refused := List.find?_eq_none.mp found marker member
      simp [starts, after] at refused
  | some first =>
      obtain ⟨isMarker, prior, rest, split, none⟩ := List.find?_eq_some_iff_append.mp found
      have isMarker : first.startsTurn = true ∧ event.id < first.id := by simpa using isMarker
      constructor
      · intro below marker member starts after
        have below : id < first.id := by simpa using below
        subst split
        rcases List.mem_append.mp member with earlier | fromFirst
        · have refused := none marker earlier
          simp [starts, after] at refused
        · rcases List.mem_cons.mp fromFirst with rfl | behind
          · exact below
          · have sorted := (List.pairwise_append.mp ordered).2.1
            exact lt_trans below ((List.pairwise_cons.mp sorted).1 marker behind)
      · intro every
        have member : first ∈ log := by simp [split]
        simpa using every first member isMarker.1 isMarker.2

/-- The query hides what a later snapshot supersedes. -/
theorem any_newer (ordered : Ordered log) (named : event.message?.isSome) :
    log.any (newer log event) = true ↔ ∃ later, Supersedes log event later := by
  rw [List.any_eq_true]
  constructor
  · rintro ⟨later, member, hides⟩
    unfold newer at hides
    rw [Bool.and_eq_true, Bool.and_eq_true, turnEnd_all ordered] at hides
    exact ⟨later, member, named, by simpa using hides.1.1, by simpa using hides.1.2, hides.2⟩
  · rintro ⟨later, supersedes⟩
    refine ⟨later, supersedes.stored, ?_⟩
    unfold newer
    rw [Bool.and_eq_true, Bool.and_eq_true, turnEnd_all ordered]
    exact ⟨⟨by simpa using supersedes.same, by simpa using supersedes.after⟩, supersedes.turn⟩

theorem mem_current (ordered : Ordered log) : event ∈ current log ↔ Latest log event := by
  unfold current
  rw [List.mem_filter]
  cases named : event.message? with
  | none =>
      refine ⟨fun kept => ⟨kept.1, fun later supersedes => ?_⟩, fun latest => ⟨latest.stored, rfl⟩⟩
      have isNamed := supersedes.message
      rw [named] at isNamed
      cases isNamed
  | some message =>
      have isNamed : event.message?.isSome := by rw [named]; rfl
      have superseded := any_newer ordered isNamed
      constructor
      · rintro ⟨member, unhidden⟩
        refine ⟨member, fun later supersedes => ?_⟩
        rw [superseded.mpr ⟨later, supersedes⟩] at unhidden
        simp at unhidden
      · intro latest
        refine ⟨latest.stored, ?_⟩
        cases hidden : log.any (newer log event) with
        | false => simp
        | true =>
            obtain ⟨later, supersedes⟩ := superseded.mp hidden
            exact absurd supersedes (latest.unsuperseded later)

theorem current_ordered (ordered : Ordered log) : Ordered (current log) :=
  ordered.sublist List.filter_sublist

/-! ### A window of the log -/

/-- The oldest id that a page reaches down to. -/
def reach (before : Option Nat) (events : List Event) : Nat :=
  (events.head?.map Event.id).getD (before.getD 0)

/-- The newest current events before a bound; `more` tells whether there are older ones. -/
structure Window (log : List Event) (before : Option Nat) (events : List Event) (more : Bool) :
    Prop where
  ordered : Ordered events
  latest : ∀ event ∈ events, Latest log event ∧ olderThan before event = true
  reached : ∀ event, Latest log event → olderThan before event = true →
    reach before events ≤ event.id → event ∈ events
  nonempty : events = [] → ∀ event, Latest log event → olderThan before event = false
  complete : more = false → ∀ event, Latest log event → olderThan before event = true →
    event ∈ events

theorem eventsBefore_window (sizes : Sizes) (ordered : Ordered log) (before : Option Nat) :
    Window log before (eventsBefore sizes log before).1 (eventsBefore sizes log before).2 := by
  have selected : ∀ event, event ∈ (current log).filter (olderThan before) ↔
      Latest log event ∧ olderThan before event = true := fun event => by
    rw [List.mem_filter, mem_current ordered]
  have sorted : Ordered ((current log).filter (olderThan before)) :=
    (current_ordered ordered).sublist List.filter_sublist
  unfold eventsBefore
  dsimp only
  generalize (current log).filter (olderThan before) = rows at selected sorted
  have taken := takeEvents_start sizes 100 (256 * 1024) 0 0 (rows.reverse.take (100 + 1))
  have empty := @takeEvents_eq_nil sizes (rows.reverse.take (100 + 1)) 100 (256 * 1024) 0 0
  have short := @takeEvents_length sizes (rows.reverse.take (100 + 1)) 100 (256 * 1024) 0 0 (by decide)
  generalize takeEvents sizes 100 (256 * 1024) 0 0 (rows.reverse.take (100 + 1)) = events at taken empty short
  obtain ⟨hidden, split⟩ : ∃ hidden, rows = hidden ++ events.reverse := by
    have limited : rows.reverse.take (100 + 1) <+: rows.reverse := List.take_prefix _ _
    obtain ⟨rest, whole⟩ := taken.trans limited
    exact ⟨rest.reverse, by rw [← List.reverse_append, whole, List.reverse_reverse]⟩
  rw [split] at sorted
  obtain ⟨-, sortedEvents, below⟩ := List.pairwise_append.mp sorted
  refine ⟨sortedEvents, fun event member => ?_, fun event latest isOlder reached => ?_,
    fun isEmpty event latest => ?_, fun more event latest isOlder => ?_⟩
  · exact (selected event).mp (by rw [split]; exact List.mem_append_right _ member)
  · have member := (selected event).mpr ⟨latest, isOlder⟩
    rw [split] at member
    rcases List.mem_append.mp member with isHidden | isTaken
    · cases first : events.reverse with
      | nil =>
          -- an empty page leaves nothing out
          have none : rows.reverse.take (100 + 1) = [] := empty.mp (List.reverse_eq_nil_iff.mp first)
          have noRows : rows = [] := by simpa using none
          rw [noRows] at split
          have noHidden : hidden = [] := (List.append_eq_nil_iff.mp split.symm).1
          rw [noHidden] at isHidden
          exact absurd isHidden List.not_mem_nil
      | cons head rest =>
          rw [first, reach, List.head?_cons, Option.map_some, Option.getD_some] at reached
          exact absurd (below event isHidden head (by simp [first])) (not_lt.mpr reached)
    · exact isTaken
  · have none : rows.reverse.take (100 + 1) = [] := empty.mp (List.reverse_eq_nil_iff.mp isEmpty)
    have noRows : rows = [] := by simpa using none
    refine Bool.eq_false_iff.mpr fun isOlder => ?_
    have member := (selected event).mpr ⟨latest, isOlder⟩
    rw [noRows] at member
    exact absurd member List.not_mem_nil
  · have whole : events.length = (rows.reverse.take (100 + 1)).length := by
      have atMost := taken.length_le
      have notFewer := of_decide_eq_false more
      omega
    have same : events = rows.reverse.take (100 + 1) := taken.eq_of_length whole
    have few : rows.length ≤ 101 := by
      have := congrArg List.length same
      rw [List.length_take, List.length_reverse] at this
      omega
    have member := (selected event).mpr ⟨latest, isOlder⟩
    rw [same, List.take_of_length_le (by rw [List.length_reverse]; exact few), List.reverse_reverse]
    exact member

/-! ### A batch of the log -/

/-- A batch is what the log holds right after the cursor. -/
theorem eventBatch_start (sizes : Sizes) (log : List Event) (after : Nat) :
    eventBatch sizes log after <+: log.filter fun event => decide (after < event.id) := by
  have limited : (log.filter fun event => decide (after < event.id)).take pageEvents <+:
      log.filter fun event => decide (after < event.id) := List.take_prefix _ _
  exact (takeEvents_start _ _ _ _ _ _).trans limited

end Cairn.Live

import Cairn.Library.Steps
import Cairn.Live.Snapshots

/-!
Owns a client's session with the live stream: batches with or without a reset,
reconnections, and reloads from the cached fold; and what one event does to the rows.

Does not own the pages the store reads, or the older history the client asks for.
-/

set_option autoImplicit false

namespace Cairn.Live

open Cairn.Library.HashMaps

/-- The cached fold: its cursor, its rows, and the events they fold, which no code reads. -/
structure CachedHistory where
  cursor : Nat
  events : List Event
  received : List Event

/-- The encoder and cursor of the connection, the client's fold and rows, its cache.
`sent` is what this connection encoded since its last baseline and `received` what the rows
fold; no code reads either. A fold that threw is `broken`. -/
structure Session where
  deltas : TextDeltas
  cursor : Nat
  accumulator : LiveEvents
  rows : List Event
  cached : Option CachedHistory
  broken : Bool
  sent : List Event
  received : List Event

namespace Session

def start : Session := ⟨∅, 0, .new, [], none, false, [], []⟩

/-- What a reset drops, on the server and in the client. -/
def cleared (session : Session) : Session :=
  { session with cursor := 0, accumulator := .new, rows := [], sent := [], received := [] }

/-- One batch: `Subscription::poll` encodes its events, the batch handler folds them. -/
def deliver (session : Session) (events : List Event) (reset : Bool) : Session :=
  let base := if reset then session.cleared else session
  let (deltas, incoming) := session.deltas.encode events reset
  let next := { base with
    deltas
    cursor := (events.getLast?.map Event.id).getD base.cursor
    sent := base.sent ++ events
    received := base.received ++ events }
  match base.accumulator.append base.rows incoming with
  | .ok (accumulator, rows) => { next with accumulator, rows }
  | .error _ => { next with broken := true }

/-- A new connection resumes after the client's cursor and establishes its own baseline. -/
def reconnect (session : Session) : Session :=
  { session with deltas := ∅, sent := [] }

/-- `recentHistory` keeps the rows from some id on. -/
def recentHistory (session : Session) (oldest : Nat) : CachedHistory where
  cursor := session.cursor
  events := session.rows.filter fun event => oldest ≤ event.id
  received := session.received.filter fun event => oldest ≤ event.id

def save (session : Session) (oldest : Nat) : Session :=
  { session with cached := some (session.recentHistory oldest) }

/-- The page is opened again and starts from the cached fold. -/
def reload (session : Session) : Session :=
  match session.cached with
  | none => session
  | some cached =>
      { session with
        deltas := ∅
        cursor := cached.cursor
        accumulator := .restore cached.events cached.cursor
        rows := cached.events
        sent := []
        received := cached.received }

end Session

inductive Step where
  | deliver (events : List Event) (reset : Bool)
  | reconnect
  | save (oldest : Nat)
  | reload
deriving DecidableEq, Repr

def Session.step (session : Session) : Step → Session
  | .deliver events reset => session.deliver events reset
  | .reconnect => session.reconnect
  | .save oldest => session.save oldest
  | .reload => session.reload

/-! ### Divisions into batches -/

/-- What a session is fed, whatever the batches: events, resets and connections. -/
inductive Feed where
  | event (event : Event)
  | reset
  | reconnect
  | save (oldest : Nat)
  | reload
deriving DecidableEq, Repr

def Step.feed : Step → List Feed
  | .deliver events reset => (if reset then [.reset] else []) ++ events.map .event
  | .reconnect => [.reconnect]
  | .save oldest => [.save oldest]
  | .reload => [.reload]

/-- The division that delivers every event in a batch of its own. -/
def Feed.step : Feed → Step
  | .event stored => .deliver [stored] false
  | .reset => .deliver [] true
  | .reconnect => .reconnect
  | .save oldest => .save oldest
  | .reload => .reload

theorem flatMap_feed (feed : List Feed) : (feed.map Feed.step).flatMap Step.feed = feed := by
  induction feed with
  | nil => rfl
  | cons head tail inductionHypothesis =>
      rw [List.map_cons, List.flatMap_cons, inductionHypothesis]
      cases head <;> rfl

/-- Two sessions that no client tells apart: the same, or both failed. -/
def Session.Same (first second : Session) : Prop :=
  first = second ∨ (first.broken = true ∧ second.broken = true)

theorem Session.Same.trans {first second third : Session} (head : first.Same second)
    (tail : second.Same third) : first.Same third := by
  rcases head with rfl | ⟨firstBroken, secondBroken⟩
  · exact tail
  rcases tail with rfl | ⟨-, thirdBroken⟩
  · exact .inr ⟨firstBroken, secondBroken⟩
  · exact .inr ⟨firstBroken, thirdBroken⟩

namespace Session

variable {session : Session} {event sent : Event} {events : List Event} {deltas : TextDeltas}
  {accumulator : LiveEvents} {rows : List Event} {failure : String}

theorem deliver_reset (session : Session) (events : List Event) :
    session.deliver events true = (session.deliver [] true).deliver events false := rfl

/-- The session after an event whose wire form was folded. -/
def folded (session : Session) (deltas : TextDeltas) (event : Event) (accumulator : LiveEvents)
    (rows : List Event) : Session :=
  { session with
    deltas
    cursor := event.id
    accumulator
    rows
    sent := session.sent ++ [event]
    received := session.received ++ [event] }

theorem deliver_ok (encoded : session.deltas.encodeEvent event = (deltas, sent))
    (appended : session.accumulator.appendEvent session.rows sent = .ok (accumulator, rows)) :
    session.deliver [event] false = session.folded deltas event accumulator rows := by
  simp [deliver, folded, TextDeltas.encode, TextDeltas.encodeEvents, LiveEvents.append, encoded,
    appended]

theorem deliver_error (encoded : session.deltas.encodeEvent event = (deltas, sent))
    (thrown : session.accumulator.appendEvent session.rows sent = .error failure) :
    (session.deliver [event] false).broken = true := by
  simp [deliver, TextDeltas.encode, TextDeltas.encodeEvents, LiveEvents.append, encoded, thrown]

/-- A fold that threw stays broken. -/
theorem broken_lasts (broken : session.broken = true) (step : Step) :
    (session.step step).broken = true := by
  cases step with
  | deliver events reset =>
      dsimp only [Session.step, deliver]
      split
      · cases reset <;> simpa [cleared] using broken
      · rfl
  | reconnect => exact broken
  | save oldest => exact broken
  | reload =>
      dsimp only [Session.step, reload]
      split <;> exact broken

theorem Same.step {first second : Session} (same : first.Same second) (step : Step) :
    (first.step step).Same (second.step step) := by
  rcases same with rfl | ⟨firstBroken, secondBroken⟩
  · exact .inl rfl
  · exact .inr ⟨broken_lasts firstBroken step, broken_lasts secondBroken step⟩

theorem Same.foldl {first second : Session} (same : first.Same second)
    (steps : List Step) : (steps.foldl Session.step first).Same (steps.foldl Session.step second) := by
  induction steps generalizing first second with
  | nil => exact same
  | cons head tail inductionHypothesis => exact inductionHypothesis (same.step head)

/-- A batch is its first event and then the others. -/
theorem deliver_cons (session : Session) (event : Event) (events : List Event) :
    (session.deliver (event :: events) false).Same
      ((session.deliver [event] false).deliver events false) := by
  cases encoded : session.deltas.encodeEvent event with
  | mk deltas sent =>
  have encodedAll : session.deltas.encodeEvents (event :: events) =
      ((deltas.encodeEvents events).1, sent :: (deltas.encodeEvents events).2) := by
    simp [TextDeltas.encodeEvents, encoded]
  have appended : session.accumulator.append session.rows (sent :: (deltas.encodeEvents events).2) =
      (session.accumulator.appendEvent session.rows sent).bind fun next =>
        next.1.append next.2 (deltas.encodeEvents events).2 := by
    simp only [LiveEvents.append, List.foldlM_cons, Prod.mk.eta]
    rfl
  cases first : session.accumulator.appendEvent session.rows sent with
  | error failure =>
      refine .inr ⟨?_, broken_lasts (deliver_error encoded first) (.deliver events false)⟩
      simp only [deliver, TextDeltas.encode, encodedAll, Bool.false_eq_true, if_false, appended,
        first, Except.bind]
  | ok next =>
      obtain ⟨accumulator, rows⟩ := next
      rw [deliver_ok encoded first]
      have newest : ((event :: events).getLast?.map Event.id).getD session.cursor =
          (events.getLast?.map Event.id).getD event.id := by
        rw [List.getLast?_cons]
        cases events.getLast? <;> rfl
      cases rest : accumulator.append rows (deltas.encodeEvents events).2 with
      | error failure =>
          right
          simp only [deliver, folded, encodedAll, Bool.false_eq_true, if_false, appended, first,
            Except.bind, rest, TextDeltas.encode, and_self]
      | ok final =>
          left
          simp only [deliver, folded, encodedAll, Bool.false_eq_true, if_false, appended, first,
            Except.bind, rest, TextDeltas.encode, newest, List.append_assoc, List.singleton_append]

/-- A batch leaves the session as its events one by one do. -/
theorem deliver_events (session : Session) (events : List Event) :
    (session.deliver events false).Same
      (((events.map Feed.event).map Feed.step).foldl Session.step session) := by
  induction events generalizing session with
  | nil =>
      left
      simp [deliver, TextDeltas.encode, TextDeltas.encodeEvents, LiveEvents.append, pure, Except.pure]
  | cons head tail inductionHypothesis =>
      exact (deliver_cons session head tail).trans (inductionHypothesis _)

/-- A step leaves the session as its parts do. -/
theorem step_feed (session : Session) (step : Step) :
    (session.step step).Same ((step.feed.map Feed.step).foldl Session.step session) := by
  cases step with
  | deliver events reset =>
      cases reset with
      | false => exact deliver_events session events
      | true =>
          have rest := deliver_events (session.deliver [] true) events
          rw [← deliver_reset] at rest
          exact rest
  | reconnect => exact .inl rfl
  | save oldest => exact .inl rfl
  | reload => exact .inl rfl

/-- The division into batches makes no difference. -/
theorem foldl_step_feed (session : Session) (steps : List Step) :
    (steps.foldl Session.step session).Same
      (((steps.flatMap Step.feed).map Feed.step).foldl Session.step session) := by
  induction steps generalizing session with
  | nil => exact .inl rfl
  | cons head tail inductionHypothesis =>
      rw [List.flatMap_cons, List.map_append, List.foldl_append, List.foldl_cons]
      exact ((step_feed session head).foldl tail).trans (inductionHypothesis _)

end Session

end Cairn.Live

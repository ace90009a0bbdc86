import Mathlib.Data.List.Sort
import Cairn.Library.Steps
import Cairn.Live.Pages
import Cairn.Live.Session

/-!
Owns a client that shows a run (`use-live-run.ts`, `history-cache.ts`): the batches it polls,
the older pages it loads, what it caches and starts from again, while the log grows.

Does not own the state that accompanies the events, the reading position, or the connection's
timers; the one HTTP read of installations without a stream is left out.
-/

set_option autoImplicit false

namespace Cairn.Live

open Cairn.Library.Steps

/-- What the cache keeps beside the fold. -/
structure Saved where
  history : Nat
  oldest : Nat
  hasOlder : Bool
deriving DecidableEq, Repr

/-- An older page that was read and not yet merged. -/
structure Pending where
  before : Nat
  history : Nat
  page : Page
deriving DecidableEq, Repr

/-- `events` is what is shown, `session.rows` the fold that the next batch goes to. -/
structure Viewer where
  session : Session
  history : Option Nat
  oldest : Nat
  hasOlder : Bool
  complete : Bool
  events : List Event
  pending : Option Pending
  saved : Option Saved

namespace Viewer

/-- The page is opened for the first time. -/
def opened : Viewer where
  session := .start
  history := none
  oldest := 0
  hasOlder := false
  complete := false
  events := []
  pending := none
  saved := none

/-- `removeHistory`, and every other loss of the cached entry. -/
def forget (viewer : Viewer) : Viewer :=
  { viewer with session := { viewer.session with cached := none }, saved := none }

/-- The batch handler. The server compares the same history version as the client does, so
`reset` is that of the page. -/
def accept (viewer : Viewer) (page : Page) : Viewer :=
  let kept := if page.reset then viewer.forget else viewer
  let session := kept.session.deliver page.events page.reset
  { kept with
    session
    history := some page.history
    oldest := page.oldest.getD viewer.oldest
    hasOlder := if page.oldest.isSome then page.hasOlder else viewer.hasOlder
    complete := !page.more
    events := if page.more then viewer.events else session.rows }

/-- A batch of the stream: `Subscription::poll` and then `accept`. -/
def poll (sizes : Sizes) (log : List Event) (viewer : Viewer) : Viewer :=
  match readPage sizes log viewer.session.cursor viewer.history none with
  | .error _ => viewer
  | .ok page => viewer.accept page

/-- A new connection resumes after the cursor. -/
def reconnect (viewer : Viewer) : Viewer := { viewer with session := viewer.session.reconnect }

/-! ### Older pages -/

/-- `new Map(…)` by id: the place of the first and the value of the last. -/
def put (held : List Event) (event : Event) : List Event :=
  if held.any (·.id == event.id) then held.map fun old => if old.id == event.id then event else old
  else held ++ [event]

/-- `.sort((a, b) => a.id - b.id)`. -/
def sorted (events : List Event) : List Event :=
  events.insertionSort fun first second => first.id ≤ second.id

/-- The fold of a page of history and the rows. -/
def merged (page rows : List Event) : Except String (LiveEvents × List Event) :=
  LiveEvents.new.append [] (sorted ((page ++ rows).foldl put []))

/-- The session with the older events in front. -/
def extended (session : Session) (page rows : List Event) : Session :=
  { session with
    accumulator := .restore rows session.cursor
    rows
    received := page ++ session.received }

/-- `fetchOlder` up to its answer. A request that fails leaves everything as it is. -/
def requestOlder (sizes : Sizes) (log : List Event) (viewer : Viewer) : Viewer :=
  match viewer.history with
  | none => viewer
  | some history =>
      if !viewer.hasOlder || viewer.pending.isSome || viewer.oldest == 0 then viewer
      else match readPage sizes log 0 (some history) (some viewer.oldest) with
        | .error _ => viewer
        | .ok page => { viewer with pending := some { before := viewer.oldest, history, page } }

/-- The rest of `fetchOlder`: the rows are those at the time of the answer. -/
def receiveOlder (viewer : Viewer) : Viewer :=
  match viewer.pending with
  | none => viewer
  | some { before, history, page } =>
      let answered := { viewer with pending := none }
      let oldest := page.oldest.getD 0
      if viewer.history != some history || (page.hasOlder && decide (before ≤ oldest)) then answered
      else match merged page.events viewer.session.rows with
        | .error _ => answered
        | .ok (_, rows) =>
            { answered with
              session := extended viewer.session page.events rows
              oldest
              hasOlder := page.hasOlder
              events := rows }

/-! ### The cache -/

/-- How many of the newest rows fit: at most 200, within 3 MiB. -/
def fitting (sizes : Sizes) (size count : Nat) : List Event → Nat
  | [] => count
  | row :: rows =>
      let bytes := sizes.row row * 2 + 2
      if 200 ≤ count ∨ 3 * 1024 * 1024 < size + bytes then count
      else fitting sizes (size + bytes) (count + 1) rows

/-- `recentHistory` of the entry, with the length of the state's JSON. -/
def save (sizes : Sizes) (state : Nat) (viewer : Viewer) : Viewer :=
  match viewer.history with
  | none => viewer
  | some history =>
      if !viewer.complete then viewer
      else
        let ordered := sorted viewer.session.rows
        let start := ordered.length - fitting sizes (state * 2 + 4096) 0 ordered.reverse
        if start = 0 then
          { viewer with
            session := viewer.session.save 0
            saved := some { history, oldest := viewer.oldest, hasOlder := viewer.hasOlder } }
        else
          let oldest := (ordered[start]?.map Event.id).getD (viewer.session.cursor + 1)
          { viewer with
            session := viewer.session.save oldest
            saved := some { history, oldest, hasOlder := true } }

/-- The page is opened again, from the cached entry if there is one. -/
def reopen (viewer : Viewer) : Viewer :=
  match viewer.session.cached, viewer.saved with
  | some cached, some saved =>
      { viewer with
        session := viewer.session.reload
        history := some saved.history
        oldest := saved.oldest
        hasOlder := saved.hasOlder
        complete := true
        events := cached.events
        pending := none }
  | _, _ => opened

end Viewer

/-! ### Runs -/

/-- `record` is the run's own progress, the rest is the client's. A batch was read when the log
held its first `stored` events. -/
inductive Action where
  | record (event : Event)
  | poll (stored : Nat)
  | reconnect
  | requestOlder
  | receiveOlder
  | save (state : Nat)
  | forget
  | reopen
deriving DecidableEq, Repr

/-- The log as the store holds it, and one client of it. -/
structure World where
  log : List Event
  viewer : Viewer

namespace World

def start : World := ⟨[], .opened⟩

/-- Ids only grow, and a turn marker is no snapshot. A connection never reads less of the log
than the client's cursor tells. -/
def step (sizes : Sizes) (world : World) : Action → Option World
  | .record event =>
      if lastId world.log < event.id ∧ (event.startsTurn → event.message? = none) then
        some { world with log := world.log ++ [event] }
      else none
  | .poll stored =>
      if world.viewer.session.cursor ≤ lastId (world.log.take stored) then
        some { world with viewer := world.viewer.poll sizes (world.log.take stored) }
      else none
  | .reconnect => some { world with viewer := world.viewer.reconnect }
  | .requestOlder => some { world with viewer := world.viewer.requestOlder sizes world.log }
  | .receiveOlder => some { world with viewer := world.viewer.receiveOlder }
  | .save state => some { world with viewer := world.viewer.save sizes state }
  | .forget => some { world with viewer := world.viewer.forget }
  | .reopen => some { world with viewer := world.viewer.reopen }

end World

/-- A way for a client to obtain the log. -/
def Obtains (sizes : Sizes) (log : List Event) (viewer : Viewer) : Prop :=
  ∃ actions, execute (World.step sizes) World.start actions = some ⟨log, viewer⟩

/-! ### What is displayed -/

/-- A message or tool event as it is displayed: which it is, and its text. -/
structure Display where
  id : Nat
  type : String
  message : Option String
  text : Text
deriving DecidableEq, Repr

def Event.display (row : Event) : Display := ⟨row.id, row.type, row.message?, row.shown⟩

namespace Viewer

/-- The displays of the part of the log from some id on, in order. -/
def displays (viewer : Viewer) (oldest : Nat) : List Display :=
  (viewer.events.filter fun row => oldest ≤ row.id).map Event.display

/-- The whole log was delivered. -/
def CaughtUp (log : List Event) (viewer : Viewer) : Prop :=
  viewer.complete = true ∧ viewer.session.cursor = lastId log

instance (log : List Event) (viewer : Viewer) : Decidable (viewer.CaughtUp log) :=
  inferInstanceAs (Decidable (_ ∧ _))

end Viewer

/-- No way to obtain the log fails to fold it, and any two display the part that both loaded
the same way. -/
def Independent (sizes : Sizes) (log : List Event) : Prop :=
  ∀ first second, Obtains sizes log first → Obtains sizes log second →
    first.session.broken = false ∧
      (first.CaughtUp log → second.CaughtUp log →
        first.displays (max first.oldest second.oldest) =
          second.displays (max first.oldest second.oldest))

end Cairn.Live

import Mathlib.Logic.Function.Basic
import Cairn.Library.Records
import Cairn.Library.Steps
import Cairn.Nodes.SharedBlocksStorage

/-!
Owns the model of what a publication of `nodes/publication.rs` leaves outside the
master: the local files that precede its uploads, the keys it may have put, and the
transactions of `commit`, `collect_unused` and the collector that pass a key on. The
master may stop between any two steps.

A file is the point it holds. Publications and collections of one run exclude each
other by its operation lock.

A put takes effect when it is sent. Does not own the content of the files, nor who pins
a point.
-/

set_option autoImplicit false

namespace Cairn.Nodes.RemoteKeys

open Cairn.Library
open Cairn.Nodes.SharedBlocks

/-- `manifest_key`. -/
def manifestKey (run point : String) : String := s!"node-backups/{run}/{point}.json"

/-- The remote manifest of a point. -/
def manifest (point : Point) : Remote := (point.location, manifestKey point.runId point.id)

/-- The remote object of an upload. -/
def uploadOf (point : Point) (object : Object) : Remote :=
  (point.location, key object.hash object.id)

/-- How far a publication is. -/
inductive Stage where
  /-- `write_intent` has reserved the objects. -/
  | reserved
  /-- `write_intent` has renamed its file, but not synced the directories. -/
  | renamed
  /-- `transfer_blocks`, with the objects whose upload was confirmed. -/
  | uploading (uploaded : List String)
  /-- `publish_manifest` has settled the uploads. -/
  | settled
  /-- The upload of the manifest was confirmed. -/
  | published

/-- A publication that holds the operation lock of its run. -/
structure Flight where
  point : Point
  blocks : List Block
  objects : List Object
  stage : Stage

/-- How far `collect_unused` is, once it has decided what to keep. -/
inductive Collection where
  /-- The loop of `retire_points`, before its first point. -/
  | retiring (superseded : List Point)
  /-- The same loop, once the manifest of the point is queued or has a local file. -/
  | retired (point : Point) (superseded : List Point)
  /-- The loop of `queue_abandoned_intents`, before its first file. -/
  | abandoning (files : List Point)
  /-- The same loop, once the manifest of the file is queued. -/
  | abandoned (point : Point) (files : List Point)

/-- What holds the operation lock of a run. -/
inductive Operation where
  | publishing (flight : Flight)
  | collecting (keep : List String) (collection : Collection)

/-- The master and its bucket. -/
structure State where
  /-- The shared inventory. -/
  db : Db := {}
  /-- `node-backups`. -/
  points : List Point := []
  /-- `backup.id` of each run. -/
  heads : String → Option String := fun _ => none
  /-- The points of each run that a grant or a move pins. -/
  pins : String → List String := fun _ => []
  /-- The local files whose entry is durable. -/
  intents : List Point := []
  /-- The local files whose entry is not durable yet. -/
  unsynced : List Point := []
  /-- The removed files whose removal is not durable yet. -/
  unlinked : List Point := []
  /-- The keys that may have been put and were not purged since. -/
  remote : List Remote := []
  operations : String → Option Operation := fun _ => none
  /-- The deletions of the collector, and whether each was purged. -/
  collector : Option (List (Deletion × Bool)) := none
  /-- The points of all publications so far. -/
  drawn : List Point := []

namespace State

/-- The local files of a run. -/
def files (state : State) (run : String) : List Point :=
  (state.intents ++ state.unsynced).filter fun file => file.runId = run

/-- Whether the `{id}.json` of a run exists. -/
def hasFile (state : State) (run id : String) : Bool :=
  (state.files run).any fun file => file.id = id

/-- The points of a run. -/
def pointsOf (state : State) (run : String) : List Point :=
  state.points.filter fun point => point.runId = run

/-- `retained`: the publications to keep, unless cleanup is deferred. -/
def retained (state : State) (run : String) : Option (List String) :=
  let keep := state.pins run ++ (state.heads run).toList
  if (state.heads run).isNone && !(state.pointsOf run).isEmpty then none
  else if keep.any fun id => (state.pointsOf run).all fun point => point.id ≠ id then none
  else some keep

/-- Queue the deletion of the manifest of a point. -/
def queueManifest (digests : Digests) (point : Point) (state : State) : State :=
  { state with
    db := queue digests point.location (manifestKey point.runId point.id) false state.db }

/-- The first half of a round of `retire_points`. -/
def retirePoint (digests : Digests) (point : Point) (state : State) : State :=
  if state.hasFile point.runId point.id then state else state.queueManifest digests point

/-- The transaction of a round of `retire_points`. -/
def removePoint (point : Point) (now : Int) (state : State) : State :=
  { state with
    db := release point.id now state.db
    points := Records.remove Point.id point.id state.points }

/-- The removal of a round of `queue_abandoned_intents`. -/
def unlinkFile (file : Point) (state : State) : State :=
  { state with
    intents := state.intents.filter fun other => other ≠ file
    unsynced := state.unsynced.filter fun other => other ≠ file
    unlinked := file :: state.unlinked }

/-- The operation lock of a run passes on. -/
def hold (run : String) (operation : Option Operation) (state : State) : State :=
  { state with operations := Function.update state.operations run operation }

/-- The master stops. Entries that were not durable may be lost, and removed ones may
come back. -/
def crash (lasting returned : List Point) (state : State) : State :=
  { state with
    intents := lasting ++ returned ++ state.intents
    unsynced := []
    unlinked := []
    operations := fun _ => none
    collector := none }

end State

/-- A step of a publication, of a collection or of the collector, or a stop of the
master. -/
inductive Step where
  | reserve (point : Point) (ids : Nat → String) (blocks : List Block)
  | rename (run : String)
  | sync (run : String)
  | upload (run : String) (object : Object) (confirmed : Bool)
  | settle (run : String) (clock : Nat → Int)
  | publish (run : String) (confirmed : Bool)
  | commit (run : String)
  /-- The publication or the collection of the run returns. -/
  | stop (run : String)
  | pin (run : String) (ids : List String)
  | collect (run : String)
  | retire (run : String)
  | remove (run : String) (now : Int)
  | inventory (run : String)
  | abandon (run : String)
  | unlink (run : String)
  | release (run : String) (clock : Nat → Int)
  | invalidate (object : String)
  | claim (cutoff : Int) (clock : Nat → Int)
  | purge (deletion : Deletion)
  | finish (completed : List Deletion)
  | crash (lasting returned : List Point)

/-- The deletions a collector holds. -/
def State.claimed (state : State) : List (Deletion × Bool) := state.collector.getD []

/-- One step. Every identifier that a publication draws is new. -/
def State.step (digests : Digests) (state : State) : Step → Option State
  | .reserve point ids blocks =>
      if (state.operations point.runId).isNone ∧ '/' ∉ point.runId.toList ∧
          ∀ other ∈ state.drawn, other.id ≠ point.id then do
        let (db, objects, rewritten) ←
          (SharedBlocks.reserve digests point ids blocks state.db).toOption
        if ∀ object ∈ objects, object.ready = false →
            ∀ entry ∈ state.claimed, entry.1.shared = true → entry.1.id ≠ object.id then
          some (State.hold point.runId (some (.publishing ⟨point, rewritten, objects, .reserved⟩))
            { state with db, drawn := point :: state.drawn })
        else none
      else none
  | .rename run =>
      match state.operations run with
      | some (.publishing ⟨point, blocks, objects, .reserved⟩) =>
          some (State.hold run (some (.publishing ⟨point, blocks, objects, .renamed⟩))
            { state with unsynced := point :: state.unsynced })
      | _ => none
  | .sync run =>
      match state.operations run with
      | some (.publishing ⟨point, blocks, objects, .renamed⟩) =>
          some (State.hold run (some (.publishing ⟨point, blocks, objects, .uploading []⟩))
            { state with
              intents := state.unsynced.filter (fun file => file.runId = run) ++ state.intents
              unsynced := state.unsynced.filter fun file => file.runId ≠ run
              unlinked := state.unlinked.filter fun file => file.runId ≠ run })
      | _ => none
  | .upload run object confirmed =>
      match state.operations run with
      | some (.publishing ⟨point, blocks, objects, .uploading uploaded⟩) =>
          if object ∈ objects ∧ object.ready = false then
            let uploaded := if confirmed then object.id :: uploaded else uploaded
            some (State.hold run (some (.publishing ⟨point, blocks, objects, .uploading uploaded⟩))
              { state with remote := uploadOf point object :: state.remote })
          else none
      | _ => none
  | .settle run clock =>
      match state.operations run with
      | some (.publishing ⟨point, blocks, objects, .uploading uploaded⟩) =>
          if ∀ object ∈ objects, object.ready = false → object.id ∈ uploaded then do
            let (db, rewritten) ← (completeUploads point.id clock blocks state.db).toOption
            some (State.hold run (some (.publishing ⟨point, rewritten, objects, .settled⟩))
              { state with db })
          else none
      | _ => none
  | .publish run confirmed =>
      match state.operations run with
      | some (.publishing ⟨point, blocks, objects, .settled⟩) =>
          let stage : Stage := if confirmed then .published else .settled
          some (State.hold run (some (.publishing ⟨point, blocks, objects, stage⟩))
            { state with remote := manifest point :: state.remote })
      | _ => none
  | .commit run =>
      match state.operations run with
      | some (.publishing ⟨point, _, _, .published⟩) => do
          let _ ← (verified point.id state.db).toOption
          some (State.hold run none
            { state with
              points := Records.put Point.id point state.points
              heads := Function.update state.heads run (some point.id) })
      | _ => none
  | .stop run => some (state.hold run none)
  | .pin run ids => some { state with pins := Function.update state.pins run ids }
  | .collect run =>
      if (state.operations run).isNone then do
        let keep ← state.retained run
        let superseded := (state.pointsOf run).filter fun point => point.id ∉ keep
        some (state.hold run (some (.collecting keep (.retiring superseded))))
      else none
  | .retire run =>
      match state.operations run with
      | some (.collecting keep (.retiring (point :: rest))) =>
          some ((state.retirePoint digests point).hold run
            (some (.collecting keep (.retired point rest))))
      | _ => none
  | .remove run now =>
      match state.operations run with
      | some (.collecting keep (.retired point rest)) =>
          some ((state.removePoint point now).hold run (some (.collecting keep (.retiring rest))))
      | _ => none
  | .inventory run =>
      match state.operations run with
      | some (.collecting keep (.retiring [])) =>
          let files := (state.files run).filter fun file => file.id ∉ keep
          some (state.hold run (some (.collecting keep (.abandoning files))))
      | _ => none
  | .abandon run =>
      match state.operations run with
      | some (.collecting keep (.abandoning (file :: rest))) =>
          some ((state.queueManifest digests file).hold run
            (some (.collecting keep (.abandoned file rest))))
      | _ => none
  | .unlink run =>
      match state.operations run with
      | some (.collecting keep (.abandoned file rest)) =>
          some ((state.unlinkFile file).hold run (some (.collecting keep (.abandoning rest))))
      | _ => none
  | .release run clock =>
      match state.operations run with
      | some (.collecting keep (.abandoning [])) =>
          some (State.hold run none { state with db := releaseRun run keep clock state.db })
      | _ => none
  | .invalidate object => some { state with db := SharedBlocks.invalidate object state.db }
  | .claim cutoff clock =>
      if state.collector.isNone then
        let (db, claimed) := SharedBlocks.claim cutoff clock state.db
        some { state with db, collector := some (claimed.map fun deletion => (deletion, false)) }
      else none
  | .purge deletion =>
      if (deletion, false) ∈ state.claimed then
        some { state with
          remote := state.remote.filter fun remote => remote ≠ deletion.remote
          collector := state.collector.map fun claimed =>
            claimed.map fun entry => if entry.1 = deletion then (deletion, true) else entry }
      else none
  | .finish completed =>
      if state.collector.isSome ∧ ∀ deletion ∈ completed, (deletion, true) ∈ state.claimed then
        some { state with db := SharedBlocks.finish completed state.db, collector := none }
      else none
  | .crash lasting returned =>
      if lasting ⊆ state.unsynced ∧ returned ⊆ state.unlinked then
        some (state.crash lasting returned)
      else none

end Cairn.Nodes.RemoteKeys

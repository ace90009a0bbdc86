import Cairn.Nodes.RemoteKeys

/-!
Owns the invariant of the remote keys: in every state, durable or not, each key that may
have been put is named by an object row, a local file, a point or a queued deletion that
the collector has not purged yet.

Does not own that a key is deleted in the end.
-/

set_option autoImplicit false

namespace Cairn.Nodes.RemoteKeys

open Cairn.Library
open Cairn.Library.Steps
open Cairn.Nodes.SharedBlocks

/-! ### Keys -/

theorem manifestKey_eq (run point : String) :
    manifestKey run point = "node-backups/" ++ run ++ "/" ++ point ++ ".json" := rfl

theorem key_eq (hash object : String) :
    key hash object = "shared-blocks/v1/" ++ hash ++ "/" ++ object := rfl

/-- A separator splits a text in one way only. -/
theorem split_inj {first second firstRest secondRest : List Char} {separator : Char}
    (firstPlain : separator ∉ first) (secondPlain : separator ∉ second)
    (same : first ++ separator :: firstRest = second ++ separator :: secondRest) :
    first = second ∧ firstRest = secondRest := by
  induction first generalizing second with
  | nil =>
      cases second with
      | nil => exact ⟨rfl, (List.cons.inj same).2⟩
      | cons head tail => exact absurd ((List.cons.inj same).1 ▸ List.mem_cons_self) secondPlain
  | cons head tail inductionHypothesis =>
      cases second with
      | nil =>
          exact absurd ((List.cons.inj same).1.symm ▸ List.mem_cons_self) firstPlain
      | cons other rest =>
          obtain ⟨rfl, equal⟩ := List.cons.inj same
          obtain ⟨rfl, rest⟩ := inductionHypothesis (fun inTail => firstPlain (.tail _ inTail))
            (fun inRest => secondPlain (.tail _ inRest)) equal
          exact ⟨rfl, rest⟩

theorem manifestKey_inj {run other point second : String} (plain : '/' ∉ run.toList)
    (otherPlain : '/' ∉ other.toList) (same : manifestKey run point = manifestKey other second) :
    run = other ∧ point = second := by
  have listed := congrArg String.toList same
  simp only [manifestKey_eq, String.toList_append, List.append_assoc] at listed
  have rest := List.append_cancel_left listed
  obtain ⟨runs, points⟩ := split_inj plain otherPlain rest
  exact ⟨String.toList_inj.mp runs, String.toList_inj.mp (List.append_cancel_right points)⟩

theorem uploadOf_ne_manifest (point other : Point) (object : Object) :
    uploadOf point object ≠ manifest other := by
  intro same
  have listed := congrArg (fun remote => remote.2.toList.head?) same
  simp [uploadOf, manifest, key_eq, manifestKey_eq] at listed

/-! ### The invariant -/

namespace State

/-- The collector has purged the key of a row. -/
def Purged (state : State) (shared : Bool) (id : String) : Prop :=
  ∃ deletion, (deletion, true) ∈ state.claimed ∧ deletion.shared = shared ∧ deletion.id = id

/-- Something that a finished collection leaves names the key. -/
def Covers (state : State) (remote : Remote) : Prop :=
  (∃ row ∈ state.db.objects, row.remote = remote ∧ ¬ state.Purged true row.id) ∨
    (∃ file ∈ state.intents, manifest file = remote) ∨
    (∃ point ∈ state.points, manifest point = remote) ∨
    (∃ row ∈ state.db.deletions, row.remote = remote ∧ ¬ state.Purged false row.id)

/-- The manifest of a point is gone or queued. -/
def Queued (state : State) (point : Point) : Prop :=
  manifest point ∈ state.remote →
    ∃ row ∈ state.db.deletions, row.remote = manifest point ∧ ¬ state.Purged false row.id

/-- The uploads of a publication have rows that no collector has claimed. -/
def Transferring (state : State) (flight : Flight) : Prop :=
  ∀ object ∈ flight.objects, object.ready = false → Uploads flight.point state.db object ∧
    ∀ entry ∈ state.claimed, entry.1.shared = true → entry.1.id ≠ object.id

/-- The local file of a publication is durable. -/
def Filed (state : State) (point : Point) : Prop :=
  point ∈ state.intents ∧ point ∉ state.unsynced

end State

/-- What a publication relies on in its stage. -/
def Stage.Valid (state : State) (flight : Flight) : Stage → Prop
  | .reserved => state.Transferring flight
  | .renamed => state.Transferring flight ∧ flight.point ∈ state.unsynced
  | .uploading _ => state.Transferring flight ∧ state.Filed flight.point
  | .settled => state.Filed flight.point
  | .published => state.Filed flight.point

/-- The points of a collection are points of its run. -/
def Own (state : State) (run : String) (point : Point) : Prop :=
  point ∈ state.drawn ∧ point.runId = run

/-- What a collection relies on. -/
def Collection.Valid (state : State) (run : String) : Collection → Prop
  | .retiring superseded => ∀ point ∈ superseded, Own state run point ∧ point ∉ state.unsynced
  | .retired point superseded =>
      (Own state run point ∧ (point ∈ state.intents ∨ state.Queued point)) ∧
        ∀ point ∈ superseded, Own state run point ∧ point ∉ state.unsynced
  | .abandoning files => ∀ file ∈ files, Own state run file
  | .abandoned file files =>
      (Own state run file ∧ state.Queued file) ∧ ∀ file ∈ files, Own state run file

/-- What the holder of an operation lock relies on. -/
def Operation.Valid (state : State) (run : String) : Operation → Prop
  | .publishing flight =>
      Own state run flight.point ∧
        (∀ row ∈ state.db.deletions, row.remote ≠ manifest flight.point) ∧
        flight.stage.Valid state flight
  | .collecting _ collection => collection.Valid state run

/-- The digests of different deletions differ. -/
def CollisionFree (digests : Digests) : Prop :=
  ∀ location key whole otherLocation otherKey otherWhole,
    digests.deletion location key whole = digests.deletion otherLocation otherKey otherWhole →
      location = otherLocation ∧ key = otherKey ∧ whole = otherWhole

/-- The invariant of the remote keys. -/
structure State.Sound (digests : Digests) (state : State) : Prop where
  inventory : SharedBlocks.Sound state.db
  ids : (state.drawn.map Point.id).Nodup
  plain : ∀ point ∈ state.drawn, '/' ∉ point.runId.toList
  points : state.points ⊆ state.drawn
  files : state.intents ++ state.unsynced ++ state.unlinked ⊆ state.drawn
  committed : ∀ point ∈ state.points, point ∉ state.unsynced
  publications : ∀ row ∈ state.db.publications,
    ∃ point ∈ state.drawn, point.id = row.id ∧ point.runId = row.runId
  deletions : ∀ row ∈ state.db.deletions,
    row.id = digests.deletion row.location row.key row.whole ∧
      ∃ point ∈ state.drawn, row.remote = manifest point
  claimedShared : ∀ entry ∈ state.claimed, entry.1.shared = true →
    ∃ row ∈ state.db.objects, row.id = entry.1.id ∧ row.remote = entry.1.remote
  claimedQueued : ∀ entry ∈ state.claimed, entry.1.shared = false →
    ∃ row ∈ state.db.deletions, row.id = entry.1.id ∧ row.remote = entry.1.remote
  purged : ∀ deletion, (deletion, true) ∈ state.claimed → deletion.shared = false →
    deletion.remote ∉ state.remote
  covered : ∀ remote ∈ state.remote, state.Covers remote
  operations : ∀ run operation, state.operations run = some operation → operation.Valid state run

theorem State.Sound.initial (digests : Digests) : State.Sound digests {} := by
  refine ⟨.empty, List.nodup_nil, ?_, ?_, ?_, ?_, ?_, ?_, ?_, ?_, ?_, ?_, ?_⟩ <;>
    simp [State.claimed]

end Cairn.Nodes.RemoteKeys

import Mathlib.Algebra.Order.Ring.Nat
import Cairn.Error
import Cairn.Nodes.DiskGrants

/-!
Owns the model of the demand side of `nodes/publication.rs`: the pointer of a run to
its published disk, the request counter beside it, every transaction that writes
either, and when the scheduler finds a run due. `record_status` of
`nodes/storage.rs`, which writes the same pointer, stands with them.

A transaction is a function on the run's document; the other records it reads are
arguments. A field that is read with a conversion holds what the conversion returns.

Does not own the order of these transactions.
-/

set_option autoImplicit false

namespace Cairn.Nodes.Publication

open Cairn.Nodes.DiskGrants (ownerNode)

/-- `BackupStatus`. -/
inductive BackupStatus where
  | pending
  | saving
  | ready
  | error
deriving DecidableEq, Repr

/-- `run.backup`. -/
structure Backup where
  id : Option String := none
  snapshotId : Option String := none
  capturedAt : Option Int := none
  uploadedBytes : Option Nat := none
  status : Option BackupStatus := none
  error : Option String := none
  requestedRevision : Option Nat := none
  acknowledgedRevision : Option Nat := none
deriving DecidableEq, Repr

/-- `run.storage`, the status its node reported last. -/
structure Storage where
  mode : Option String := none
  dirtyBytes : Option Nat := none
  backupSeconds : Option Int := none
  backupUrgent : Bool := false
deriving DecidableEq, Repr

/-- What publication reads of a run's document. -/
structure Run where
  id : String
  nodeId : Option String := none
  isolated : Bool := true
  sessionId : Option String := none
  moveRequest : Bool := false
  storage : Storage := {}
  backup : Backup := {}
deriving DecidableEq, Repr

/-- `PublishedPointer`. -/
structure PublishedPointer where
  id : String
  snapshotId : Option String
  capturedAt : Option Int
  uploadedBytes : Option Nat
  status : BackupStatus

/-- `ON_DEMAND`. -/
def onDemandMode : String := "on-demand"

namespace Backup

/-- `requestedRevision`, zero before the first request. -/
def requestedCount (backup : Backup) : Nat := backup.requestedRevision.getD 0

/-- `acknowledgedRevision`, zero before the first acknowledgement. -/
def acknowledgedCount (backup : Backup) : Nat := backup.acknowledgedRevision.getD 0

/-- `requested`. -/
def requested (backup : Backup) : Bool := backup.requestedCount > backup.acknowledgedCount

/-- The document of a pointer laid over the current one. -/
def extend (pointer : PublishedPointer) (backup : Backup) : Backup :=
  { backup with
    id := some pointer.id
    snapshotId := pointer.snapshotId
    capturedAt := pointer.capturedAt
    uploadedBytes := pointer.uploadedBytes.or backup.uploadedBytes
    status := some pointer.status
    error := none }

end Backup

/-- `request`. -/
def request (backup : Backup) : Except Error Backup :=
  if backup.requestedCount + 1 < 2 ^ 64 then
    .ok { backup with
      requestedRevision := some (backup.requestedCount + 1)
      status := some .pending }
  else .error (Error.conflict "Publication revision exhausted.")

/-- The patches `attempt` and `forget_baseline` give to `update_status`. -/
inductive StatusPatch where
  | saving
  | pending
  | error (message : String)
  | forgetBaseline

/-- `update_status`. -/
def updateStatus (patch : StatusPatch) (backup : Backup) : Backup :=
  match patch with
  | .saving => { backup with status := some .saving }
  | .pending => { backup with status := some .pending, error := none }
  | .error message => { backup with status := some .error, error := some message, snapshotId := none }
  | .forgetBaseline => { backup with snapshotId := none }

/-- `complete_request`. -/
def completeRequest (revision : Nat) (backup : Backup) : Backup :=
  { backup with
    acknowledgedRevision := some revision
    status := some (if backup.requestedCount > revision then .pending else .ready)
    error := none }

/-- The snapshot a node answers a capture with. -/
structure Snapshot where
  id : String
  alreadyPublished : Bool
  onDemand : Bool
  grantId : Option String
  capturedAt : Option Int
deriving DecidableEq, Repr

/-- What a publication holds of its run, read under the operation lock. -/
structure Capture where
  revision : Nat
  attempt : String
  node : Option String
deriving DecidableEq, Repr

/-- The records `commit` reads beside the run: the checkpoint, the disk grant and the
outcome of `shared_blocks::verified`. -/
structure CommitReads where
  runnerId : String
  nodeId : Option String
  grant : Option (String × Option String)
  verified : Except Error Unit

/-- The pointer `commit` moves the run to. -/
def committedPointer (snapshot : Snapshot) (backupId : String) (uploaded : Nat) :
    PublishedPointer where
  id := backupId
  snapshotId := some snapshot.id
  capturedAt := snapshot.capturedAt
  uploadedBytes := some uploaded
  status := if snapshot.onDemand then .saving else .ready

/-- Whether the disk a snapshot was taken of is still the run's. -/
def sameDisk (run : Run) (capture : Capture) (snapshot : Snapshot) (reads : CommitReads) : Bool :=
  if snapshot.onDemand then
    match snapshot.grantId, reads.grant with
    | some _, some (grantRun, grantNode) => grantRun = run.id ∧ grantNode = capture.node
    | _, _ => false
  else reads.runnerId = capture.attempt

/-- `commit`. -/
def commit (capture : Capture) (snapshot : Snapshot) (backupId : String) (uploaded : Nat)
    (reads : CommitReads) (run : Run) : Except Error Run := do
  if !sameDisk run capture snapshot reads || reads.nodeId ≠ capture.node then
    .error (Error.conflict "Disk owner changed during publication.")
  else
    reads.verified
    .ok { run with backup := run.backup.extend (committedPointer snapshot backupId uploaded) }

/-- A recovery point a node reports as mounted. -/
structure MountedPoint where
  id : String
  snapshotId : Option String
  capturedAt : Option Int
deriving DecidableEq, Repr

/-- `record_status`. -/
def recordStatus (node : String) (status : Storage) (point : Option MountedPoint) (run : Run) :
    Run :=
  if ownerNode run.nodeId ≠ node then run
  else
    let recorded := { run with storage := status }
    match point with
    | none => recorded
    | some point =>
        if status.dirtyBytes = some 0 ∧
            point.capturedAt.getD 0 ≥ run.backup.capturedAt.getD 0 then
          { recorded with
            backup := run.backup.extend
              { id := point.id
                snapshotId := point.snapshotId
                capturedAt := point.capturedAt
                uploadedBytes := none
                status := if run.backup.requested then .pending else .ready } }
        else recorded

/-- `MAX_RETRY_DELAY_MS`. -/
def maxRetryDelayMs : Int := 30 * 60 * 1000

/-- `retry_delay_ms`. -/
def retryDelayMs (failures : Nat) : Int :=
  if failures = 0 then 0 else min (60000 * 2 ^ min (failures - 1) 16) maxRetryDelayMs

/-- `protected`. -/
def isProtected (run : Run) : Bool := run.isolated

/-- `publication_due`. -/
def publicationDue (run : Run) (sinceLastMs defaultIntervalMs : Int) (failures : Nat) : Bool :=
  let onDemand : Bool := run.storage.mode = some onDemandMode
  let synchronized : Bool :=
    onDemand && run.storage.dirtyBytes = some 0 && run.backup.status = some .ready
  let interval := (run.storage.backupSeconds.map (· * 1000)).getD defaultIntervalMs
  let wait := if run.backup.requested || run.storage.backupUrgent then 5000 else interval
  isProtected run &&
    (run.sessionId.isSome || onDemand) &&
    (!run.moveRequest || run.backup.requested) &&
    !synchronized &&
    sinceLastMs ≥ max wait (retryDelayMs failures)

/-! ### What each transaction does to the request counter -/

namespace Backup

variable {backup next : Backup}

@[simp] theorem extend_requestedCount (pointer : PublishedPointer) :
    (backup.extend pointer).requestedCount = backup.requestedCount := rfl

@[simp] theorem extend_acknowledgedCount (pointer : PublishedPointer) :
    (backup.extend pointer).acknowledgedCount = backup.acknowledgedCount := rfl

@[simp] theorem extend_requested (pointer : PublishedPointer) :
    (backup.extend pointer).requested = backup.requested := rfl

@[simp] theorem extend_status (pointer : PublishedPointer) :
    (backup.extend pointer).status = some pointer.status := rfl

@[simp] theorem updateStatus_requestedCount (patch : StatusPatch) :
    (updateStatus patch backup).requestedCount = backup.requestedCount := by
  cases patch <;> rfl

@[simp] theorem updateStatus_acknowledgedCount (patch : StatusPatch) :
    (updateStatus patch backup).acknowledgedCount = backup.acknowledgedCount := by
  cases patch <;> rfl

@[simp] theorem updateStatus_requested (patch : StatusPatch) :
    (updateStatus patch backup).requested = backup.requested := by
  simp [requested]

/-- No patch of `update_status` makes a run ready. -/
theorem updateStatus_ready {patch : StatusPatch}
    (ready : (updateStatus patch backup).status = some .ready) : backup.status = some .ready := by
  cases patch <;> simp_all [updateStatus]

@[simp] theorem completeRequest_requestedCount (revision : Nat) :
    (completeRequest revision backup).requestedCount = backup.requestedCount := rfl

@[simp] theorem completeRequest_acknowledgedCount (revision : Nat) :
    (completeRequest revision backup).acknowledgedCount = revision := rfl

theorem completeRequest_ready {revision : Nat}
    (ready : (completeRequest revision backup).status = some .ready) :
    (completeRequest revision backup).requested = false := by
  by_cases later : backup.requestedCount > revision
  · simp [completeRequest, later] at ready
  · simpa [requested] using Nat.not_lt.mp later

theorem request_of_ok (made : request backup = .ok next) :
    next.requestedCount = backup.requestedCount + 1 ∧
      next.acknowledgedCount = backup.acknowledgedCount ∧ next.status = some .pending := by
  unfold request at made
  split at made
  · obtain rfl := Except.ok.inj made
    exact ⟨rfl, rfl, rfl⟩
  · simp at made

end Backup

end Cairn.Nodes.Publication

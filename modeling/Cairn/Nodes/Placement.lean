import Mathlib.Data.Rat.Defs
import Mathlib.Algebra.Order.Ring.Unbundled.Rat
import Cairn.Error
import Cairn.Library.Records
import Cairn.Library.Results
import Cairn.Nodes.DiskGrants
import Cairn.Nodes.Publication

/-!
Owns the model of `nodes/placement.rs`: which node can take an attempt of a
conversation, and the transactions that reserve, take over, release and materialize
attempts.

A field that is read with a conversion holds what the conversion returns. The share of
free slots is the quotient itself. The clock and the records outside the tables of
nodes, attempts and volumes are arguments.

Does not own the order of the transactions.
-/

set_option autoImplicit false

namespace Cairn.Nodes.Placement

open Cairn.Library.Records
open Cairn.Nodes.DiskGrants (localNodeId)
open Cairn.Nodes.Publication (onDemandMode)

/-- `u64::MAX`. -/
def maxU64 : Nat := 2 ^ 64 - 1

/-- `u64::saturating_add`. -/
def saturatingAdd (left right : Nat) : Nat := min (left + right) maxU64

/-- `RESERVATION_LEASE_MS`. -/
def reservationLeaseMs : Int := 60000

/-- `FRESH_HEARTBEAT_MS`. -/
def freshHeartbeatMs : Int := 30000

/-- `JOURNAL_MIB`. -/
def journalMiB : Nat := 128

/-- `AttemptRole`. -/
inductive AttemptRole where
  | execution
  | destination
deriving DecidableEq, Repr

/-- `Resources`. -/
structure Resources where
  cpu : Nat
  memoryMiB : Nat
  diskMiB : Nat
deriving DecidableEq, Repr

/-- `defaults`. -/
def defaults : Resources := ⟨2, 4096, 32768⟩

/-- What `disk_fits` reads of a storage `Policy`. -/
structure Policy where
  reserveMiB : Nat
  reservePercent : Nat
deriving DecidableEq, Repr

/-- `Policy::reserve`. -/
def Policy.reserve (policy : Policy) (total : Nat) : Nat :=
  max (policy.reserveMiB * 1024 * 1024) (total / 100 * policy.reservePercent)

/-- A document of `nodes`. -/
structure Node where
  id : String
  isLocal : Bool := false
  name : Option String := none
  slots : Option Nat := none
  runtimeSlots : Option Nat := none
  limits : Option Resources := none
  limitsDiskMiB : Option Nat := none
  usageDiskMiB : Option Nat := none
  kvm : Bool := false
  fuse : Bool := false
  freeDiskMiB : Option Nat := none
  totalDiskMiB : Option Nat := none
  /-- `Policy::for_node`. -/
  storage : Except Error Policy := .ok ⟨10240, 5⟩
  executionReady : Bool := false
  lastSeen : Option Int := none
  maintenance : Option String := none
  revoked : Bool := false
  accepting : Bool := false
  runtimes : List String := []
  tags : List String := []
  pressure : Option String := none
  runtimeId : String := ""

/-- `slots`. -/
def slots (node : Node) : Nat := max ((node.slots.or node.runtimeSlots).getD 4) 1

/-- The capacity `free_slots` counts against. -/
def capacity (node : Node) : Nat := min (slots node) (node.runtimeSlots.getD maxU64)

/-- `seen_within`. -/
def seenWithin (node : Node) (now maxAgeMs : Int) : Bool :=
  node.lastSeen.any fun seen => now - seen < maxAgeMs

/-- A document of `node-attempts`. -/
structure Attempt where
  id : String
  role : AttemptRole
  runId : String
  nodeId : String
  resources : Resources
  runtimeId : String
  createdAt : Int
  leaseExpiresAt : Int
  released : Bool := false
  releasedAt : Option Int := none
  additionalDiskMiB : Nat := 0
  diskMaterialized : Bool := false
deriving DecidableEq, Repr

/-- `is_active_attempt`. -/
def isActiveAttempt (attempt : Attempt) : Bool := attempt.released != true

/-- A document of `node-volumes`, whose id joins its run and node. -/
structure Volume where
  runId : String
  nodeId : String
  materialized : Bool := false
  storageMode : Option String := none
  diskMiB : Option Nat := none
  activeDiskMiB : Option Nat := none
deriving DecidableEq, Repr

/-- What names a volume. -/
def Volume.id (volume : Volume) : String × String := (volume.runId, volume.nodeId)

/-- What placement reads of a run. -/
structure Run where
  id : String
  requiredTags : List String := []
  targetNodeId : Option String := none
  pinnedNodeId : Option String := none
  preferredNodeId : Option String := none
  placementTransition : Bool := false
  requiredRuntime : Option String := none
  moveReservation : Option String := none
  isolated : Bool := true
  diskMiB : Option Nat := none
deriving DecidableEq, Repr

/-- What placement reads of a run's checkpoint. -/
structure Checkpoint where
  nodeId : Option String := none
  runtimeId : Option String := none
  diskMiB : Option Nat := none
deriving DecidableEq, Repr

/-- The nodes of an agent's policy: all of them, or a list. -/
abbrev Access := Option (List String)

/-- `allowed`. -/
def allowed (scope : Access) (id : String) : Bool :=
  match scope with
  | none => true
  | some ids => ids.contains id

/-- `disk_total`. -/
def diskTotal (volume : Option Volume) (requested : Nat) (replacing : Bool) : Nat :=
  match volume with
  | none => if replacing then saturatingAdd journalMiB journalMiB else journalMiB
  | some volume =>
      if volume.storageMode = some onDemandMode then
        let onDisk := max (volume.diskMiB.getD journalMiB) journalMiB
        if replacing then saturatingAdd onDisk journalMiB else onDisk
      else
        let total := volume.diskMiB.getD 0
        let current := volume.activeDiskMiB.getD total
        let added := if replacing then requested else requested - current
        saturatingAdd total added

/-- `Request`. -/
structure Request where
  run : Run
  access : Access
  checkpoint : Checkpoint

namespace Request

/-- `moving`. -/
def moving (request : Request) : Bool := request.run.placementTransition

/-- `required_runtime`. -/
def requiredRuntime (request : Request) : Option String :=
  request.run.requiredRuntime.or request.checkpoint.runtimeId

/-- `replacing`. -/
def replacing (request : Request) (node : String) : Bool :=
  request.moving && request.checkpoint.nodeId ≠ some node

/-- `eligible`. -/
def eligible (request : Request) (now : Int) (node : Node) (configured : Bool) : Bool :=
  let run := request.run
  let hasTags := run.requiredTags.all fun tag => node.tags.contains tag
  let hasRuntime := request.requiredRuntime.all fun runtime => node.runtimes.contains runtime
  let only (field : Option String) := field.all fun only => only = node.id
  let existing := request.moving || request.checkpoint.nodeId.all fun place => place = node.id
  let localUnconfigured := node.isLocal && !configured
  let ready := localUnconfigured ||
    (node.kvm && node.executionReady && seenWithin node now freshHeartbeatMs)
  node.fuse && node.maintenance.isNone && !(localUnconfigured && run.isolated) && hasTags &&
    hasRuntime && only run.targetNodeId && allowed request.access node.id &&
    only run.pinnedNodeId && existing && !node.revoked && node.accepting && ready

/-- `resources_for`. -/
def resourcesFor (request : Request) (node : Node) : Option Resources :=
  node.limits.map fun limits =>
    { cpu := min limits.cpu 32
      memoryMiB := limits.memoryMiB
      diskMiB := (request.run.diskMiB.or request.checkpoint.diskMiB).getD
        (min defaults.diskMiB limits.diskMiB) }

end Request

/-- `Fleet`. -/
structure Fleet where
  attempts : List Attempt
  volumes : List Volume

namespace Fleet

/-- `active_on`. -/
def activeOn (fleet : Fleet) (node : String) : List Attempt :=
  fleet.attempts.filter fun attempt => attempt.nodeId = node && isActiveAttempt attempt

/-- `free_slots`. -/
def freeSlots (fleet : Fleet) (request : Request) (node : Node) : Nat :=
  let used := ((fleet.activeOn node.id).filter fun attempt =>
    !(request.moving && attempt.runId = request.run.id)).length
  capacity node - used

/-- `disk_fits`. -/
def diskFits (fleet : Fleet) (request : Request) (node : Node) (resources : Resources)
    (policy : Policy) : Bool :=
  match node.freeDiskMiB with
  | some free =>
      let total := node.totalDiskMiB.getD free
      let pending := (fleet.activeOn node.id).length
      let reserve := policy.reserve (min (total * 1048576) maxU64) / 1048576
      let budgetFree := node.limitsDiskMiB.getD free - node.usageDiskMiB.getD 0
      let journals := (pending + 1) * journalMiB
      free > reserve + journals && budgetFree > journals
  | none =>
      let used := ((fleet.volumes.filter fun volume =>
        volume.nodeId = node.id && volume.runId ≠ request.run.id).map
          fun volume => volume.diskMiB.getD 0).sum
      let volume := fleet.volumes.find? fun volume =>
        volume.nodeId = node.id && volume.runId = request.run.id
      let needed := diskTotal volume resources.diskMiB (request.replacing node.id)
      let limit := node.limitsDiskMiB.getD 0
      used + needed ≤ maxU64 && used + needed ≤ limit

/-- `fit`. -/
def fit (fleet : Fleet) (request : Request) (node : Node) (resources : Resources) :
    Except Error (Option Rat) := do
  let policy ← node.storage
  let free := fleet.freeSlots request node
  if free = 0 || node.pressure.isSome || !fleet.diskFits request node resources policy then
    .ok none
  else .ok (some ((free : Rat) / (slots node : Rat)))

/-- `describe`. -/
def describe (fleet : Fleet) (request : Request) (node : Node) : String :=
  node.name.getD node.id ++ " has " ++ toString (fleet.freeSlots request node) ++
    " free slots; check " ++ node.pressure.getD "shared disk space"

end Fleet

/-- `Candidate`. -/
structure Candidate where
  preferred : Bool
  headroom : Rat
  node : Node
  resources : Resources

/-- `beats`. -/
def Candidate.beats (candidate other : Candidate) : Bool :=
  (candidate.preferred && !other.preferred) ||
    (candidate.preferred = other.preferred && candidate.headroom > other.headroom)

/-- `development_node`. -/
def developmentNode (configured : Bool) : Node where
  id := localNodeId
  isLocal := true
  accepting := true
  limits := some ⟨4096, 1073741824, 1099511627776⟩
  limitsDiskMiB := some 1099511627776
  slots := some 4096
  kvm := configured
  fuse := true
  runtimeId := "local"

/-- The tables of nodes, attempts and volumes, and the reservation each run is to take
over. -/
structure Db where
  nodes : List Node
  attempts : List Attempt := []
  volumes : List Volume := []
  moveReservation : String → Option String := fun _ => none

namespace Db

/-- The nodes a placement chooses from. -/
def placementNodes (db : Db) (configured : Bool) : List Node :=
  if !configured && db.nodes.all (fun node => node.id ≠ localNodeId) then
    db.nodes ++ [developmentNode configured]
  else db.nodes

/-- `put` of an attempt. -/
def putAttempt (db : Db) (attempt : Attempt) : Db :=
  { db with attempts := put Attempt.id attempt db.attempts }

/-- `get` of an attempt. -/
def attempt? (db : Db) (id : String) : Option Attempt :=
  find Attempt.id id db.attempts

/-- `put` of a volume. -/
def putVolume (db : Db) (volume : Volume) : Db :=
  { db with volumes := put Volume.id volume db.volumes }

/-- `get` of a volume. -/
def volume? (db : Db) (runId nodeId : String) : Option Volume :=
  find Volume.id (runId, nodeId) db.volumes

/-- `remove` of a volume. -/
def removeVolume (db : Db) (runId nodeId : String) : Db :=
  { db with volumes := remove Volume.id (runId, nodeId) db.volumes }

end Db

/-- The order of `Snapshot::load`: the preferred node first, then the local one. -/
def placementOrder (run : Run) (nodes : List Node) : List Node :=
  let preferred (node : Node) : Bool := some node.id = run.preferredNodeId
  let onHost (node : Node) : Bool := node.id = localNodeId
  (nodes.filter fun node => preferred node && onHost node) ++
    (nodes.filter fun node => preferred node && !onHost node) ++
    (nodes.filter fun node => !preferred node && onHost node) ++
    (nodes.filter fun node => !preferred node && !onHost node)

/-- `NO_CAPACITY`. -/
def noCapacity : String := "No authorized node"

/-- `shortage`. -/
def shortage (full : List String) : String :=
  if full.isEmpty then
    noCapacity ++
      " is online and accepting this conversation. The existing environment is preserved."
  else
    noCapacity ++ " has a free execution slot and enough shared headroom: " ++
      String.intercalate "; " full ++ ". The existing environment is preserved."

/-- The loop of `select`. -/
def selectFrom (fleet : Fleet) (request : Request) (now : Int) (configured : Bool) :
    List Node → Option Candidate → List String → Except Error (Option Candidate × List String)
  | [], best, full => .ok (best, full)
  | node :: nodes, best, full =>
      if request.eligible now node configured then
        match request.resourcesFor node with
        | none => selectFrom fleet request now configured nodes best full
        | some resources =>
            match fleet.fit request node resources with
            | .error error => .error error
            | .ok none =>
                selectFrom fleet request now configured nodes best
                  (full ++ [fleet.describe request node])
            | .ok (some headroom) =>
                let candidate : Candidate :=
                  ⟨some node.id = request.run.preferredNodeId, headroom, node, resources⟩
                let better := best.all fun best => candidate.beats best
                selectFrom fleet request now configured nodes
                  (if better then some candidate else best) full
      else selectFrom fleet request now configured nodes best full

/-- `select`. -/
def select (db : Db) (request : Request) (now : Int) (configured : Bool) :
    Except Error Candidate := do
  let nodes := placementOrder request.run (db.placementNodes configured)
  let chosen ← selectFrom ⟨db.attempts, db.volumes⟩ request now configured nodes none []
  match chosen.1 with
  | some candidate => .ok candidate
  | none => .error ⟨503, shortage chosen.2⟩

/-- `Placement`. -/
structure Placed where
  nodeId : String
  resources : Resources
  runtimeId : String
  leaseExpiresAt : Option Int
deriving DecidableEq, Repr

/-- `claim_reservation`. -/
def claimReservation (db : Db) (request : Request) (now : Int) (configured : Bool)
    (reservation attempt : String) : Except Error (Db × Placed) :=
  match db.attempt? reservation with
  | none => .error (Error.conflict "Movement reservation is missing.")
  | some held =>
      match find Node.id held.nodeId (db.placementNodes configured) with
      | none => .error (Error.conflict "Destination removed.")
      | some record =>
          if !record.fuse then
            .error (Error.conflict "Destination no longer supports on-demand disks.")
          else if record.maintenance.isSome then
            .error ⟨503, "Destination is preparing for maintenance."⟩
          else if held.released || held.runId ≠ request.run.id ||
              !allowed request.access held.nodeId || record.revoked then
            .error (Error.conflict "Movement reservation was revoked.")
          else
            let consumed := { held with released := true }
            let taken : Attempt := { held with
              id := attempt
              role := .execution
              leaseExpiresAt := now + reservationLeaseMs }
            let claimed := (db.putAttempt consumed).putAttempt taken
            .ok ({ claimed with
              moveReservation := fun run =>
                if run = request.run.id then none else db.moveReservation run },
              ⟨held.nodeId, held.resources, held.runtimeId, none⟩)

/-- Whether an earlier attempt keeps a conversation from being admitted. -/
def stillOwned (request : Request) (attempts : List Attempt) : Bool :=
  attempts.any fun attempt => attempt.runId = request.run.id && isActiveAttempt attempt &&
    (!request.moving || attempt.role = .destination)

/-- The attempt `admit` records. -/
def newAttempt (request : Request) (best : Candidate) (now : Int) (attempt : String)
    (additionalDiskMiB : Nat) : Attempt where
  id := attempt
  role := if request.moving then .destination else .execution
  runId := request.run.id
  nodeId := best.node.id
  resources := best.resources
  runtimeId := request.requiredRuntime.getD best.node.runtimeId
  createdAt := now
  leaseExpiresAt := now + reservationLeaseMs
  additionalDiskMiB := additionalDiskMiB

/-- `admit`. -/
def admitAttempt (db : Db) (request : Request) (best : Candidate) (now : Int) (attempt : String) :
    Except Error (Db × Placed) :=
  if stillOwned request db.attempts then
    .error (Error.conflict "Previous execution still owns this conversation.")
  else
    let stored := (db.volume? request.run.id best.node.id).getD
      { runId := request.run.id, nodeId := best.node.id }
    let volume :=
      if stored.materialized then stored else { stored with storageMode := some onDemandMode }
    let previous := volume.diskMiB.getD 0
    let disk := diskTotal (some volume) best.resources.diskMiB (request.replacing best.node.id)
    let record := newAttempt request best now attempt (disk - previous)
    .ok ((db.putAttempt record).putVolume { volume with diskMiB := some disk },
      ⟨best.node.id, best.resources, record.runtimeId, some record.leaseExpiresAt⟩)

/-- `reserve_in`; `agent` holds the nodes of the agent's policy unless it was removed. -/
def reserveIn (db : Db) (run : Run) (agent : Option Access) (checkpoint : Checkpoint) (now : Int)
    (configured : Bool) (attempt : String) : Except Error (Db × Placed) :=
  match agent with
  | none => .error (Error.forbidden "Agent removed.")
  | some access =>
      let request : Request := ⟨run, access, checkpoint⟩
      match if request.moving then none else run.moveReservation with
      | some reservation => claimReservation db request now configured reservation attempt
      | none => do
          let best ← select db request now configured
          admitAttempt db request best now attempt

/-- `release_in`. -/
def releaseIn (db : Db) (now : Int) (attempt : String) : Db :=
  match db.attempt? attempt with
  | none => db
  | some record =>
      if !isActiveAttempt record then db
      else
        let db := db.putAttempt { record with released := true, releasedAt := some now }
        match db.volume? record.runId record.nodeId with
        | none => db
        | some volume =>
            let volume :=
              if record.diskMaterialized then volume
              else { volume with diskMiB := some (volume.diskMiB.getD 0 - record.additionalDiskMiB) }
            let unused := !volume.materialized && !db.attempts.any fun other =>
              other.runId = record.runId && other.nodeId = record.nodeId && isActiveAttempt other
            if unused then db.removeVolume record.runId record.nodeId else db.putVolume volume

/-- `materialize`. -/
def materialize (db : Db) (attempt : String) : Except Error Db :=
  match db.attempt? attempt with
  | none => .error (Error.conflict "Missing disk allocation.")
  | some record =>
      if record.released then .error (Error.conflict "Disk reservation was released.")
      else
        match db.volume? record.runId record.nodeId with
        | none => .error (Error.conflict "Missing disk allocation.")
        | some volume =>
            .ok ((db.putAttempt { record with diskMaterialized := true }).putVolume
              { volume with
                materialized := true
                activeDiskMiB := some record.resources.diskMiB })

end Cairn.Nodes.Placement

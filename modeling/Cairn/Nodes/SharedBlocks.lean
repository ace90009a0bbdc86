import Cairn.Error
import Mathlib.Data.List.Sort

/-!
Owns the model of `nodes/shared_blocks.rs`: the four tables of `SCHEMA`, the
statements the code runs on them, and the transactions built from those
statements. A transaction is a function to `Except Error`, so a failed one
rolls back by returning no database.

Times are the values `now()` returned; `clock k` is its `k`-th reading inside
one transaction. Fresh identifiers are the values `id()` returned. Rows of an
unordered query are visited in insertion order.
-/

set_option autoImplicit false

namespace Cairn.Nodes.SharedBlocks

/-- The `location` object of a point; its destination is always `s3`. -/
structure Location where
  bucket : Option String
  endpoint : Option String
deriving DecidableEq, Repr

/-- The SHA-256 identities derived from a location. -/
structure Digests where
  /-- `destination` of `reserve`. -/
  destination : Location → String
  /-- `id` of `queue`, over the location, the key and the prefix flag. -/
  deletion : Location → String → Bool → String

/-- `shared_objects.state`. -/
inductive ObjectState where
  | pending
  | ready
  | invalid
  | deleting
deriving DecidableEq, Repr

/-- A row of `shared_objects`. -/
structure ObjectRow where
  id : String
  destination : String
  hash : String
  size : Int64
  location : Location
  state : ObjectState
  unusedAt : Option Int := none
  retryAt : Int := 0
deriving DecidableEq

/-- A row of `shared_publications`. -/
structure PublicationRow where
  id : String
  runId : String
deriving DecidableEq, Repr

/-- A row of `shared_references`. -/
structure Reference where
  publication : String
  object : String
deriving DecidableEq, Repr

/-- A row of `remote_deletions`. -/
structure RemoteDeletion where
  id : String
  location : Location
  key : String
  whole : Bool
  retryAt : Int := 0
deriving DecidableEq

/-- The tables of `SCHEMA`. -/
structure Db where
  publications : List PublicationRow := []
  objects : List ObjectRow := []
  references : List Reference := []
  deletions : List RemoteDeletion := []

/-- What a transaction reads of a manifest block. -/
structure Block where
  hash : Option String
  size : UInt64
  object : Option String := none
deriving DecidableEq

/-- What a transaction reads of a publication point. -/
structure Point where
  id : String
  runId : String
  location : Location
deriving DecidableEq

/-- `Object`: what the publisher uploads or reuses for one distinct hash. -/
structure Object where
  id : String
  hash : String
  size : UInt64
  ready : Bool
deriving DecidableEq

/-- `Deletion`. -/
structure Deletion where
  id : String
  location : Location
  key : String
  whole : Bool
  shared : Bool
deriving DecidableEq

/-- `BATCH`. -/
def batch : Nat := 32

/-- `GRACE_MS`. -/
def graceMs : Int := 300000

/-- `key`. -/
def key (hash object : String) : String := s!"shared-blocks/v1/{hash}/{object}"

namespace Db

/-! ### Statements -/

/-- Some publication references the object. -/
def Referenced (db : Db) (object : String) : Prop :=
  ∃ reference ∈ db.references, reference.object = object

instance (db : Db) (object : String) : Decidable (db.Referenced object) := by
  unfold Referenced
  infer_instance

/-- `INSERT INTO shared_publications`. -/
def insertPublication (db : Db) (row : PublicationRow) : Except Error Db :=
  if row.id ∈ db.publications.map PublicationRow.id then .error Error.constraint
  else .ok { db with publications := db.publications ++ [row] }

/-- `SELECT id,size FROM shared_objects WHERE destination AND hash AND state='ready'`. -/
def lookup (db : Db) (destination hash : String) : Option ObjectRow :=
  db.objects.find? fun row =>
    row.destination = destination ∧ row.hash = hash ∧ row.state = .ready

/-- `INSERT INTO shared_objects`. -/
def insertObject (db : Db) (row : ObjectRow) : Except Error Db :=
  if row.id ∈ db.objects.map ObjectRow.id then .error Error.constraint
  else .ok { db with objects := db.objects ++ [row] }

/-- `UPDATE shared_objects … WHERE id`. -/
def updateObject (db : Db) (id : String) (change : ObjectRow → ObjectRow) : Db :=
  { db with objects := db.objects.map fun row => if row.id = id then change row else row }

/-- `UPDATE shared_objects SET unused_at … WHERE id`. -/
def setUnused (db : Db) (id : String) (at_ : Option Int) : Db :=
  db.updateObject id fun row => { row with unusedAt := at_ }

/-- `UPDATE shared_objects SET state='ready' WHERE id`, under the partial unique
index `shared_objects_reuse`. -/
def setReady (db : Db) (row : ObjectRow) : Except Error Db :=
  if ∃ other ∈ db.objects, other.id ≠ row.id ∧ other.destination = row.destination ∧
      other.hash = row.hash ∧ other.state = .ready then .error Error.constraint
  else .ok (db.updateObject row.id fun row => { row with state := .ready })

/-- Both foreign keys of `shared_references`. -/
def HasTargets (db : Db) (reference : Reference) : Prop :=
  reference.publication ∈ db.publications.map PublicationRow.id ∧
    reference.object ∈ db.objects.map ObjectRow.id

instance (db : Db) (reference : Reference) : Decidable (db.HasTargets reference) := by
  unfold HasTargets
  infer_instance

/-- `INSERT INTO shared_references`. -/
def insertReference (db : Db) (reference : Reference) : Except Error Db :=
  if reference ∈ db.references ∨ ¬ db.HasTargets reference then .error Error.constraint
  else .ok { db with references := db.references ++ [reference] }

/-- `INSERT OR IGNORE INTO shared_references`. -/
def insertReferenceOrIgnore (db : Db) (reference : Reference) : Except Error Db :=
  if reference ∈ db.references then .ok db else db.insertReference reference

/-- `DELETE FROM shared_references WHERE publication AND object`. -/
def deleteReference (db : Db) (reference : Reference) : Db :=
  { db with references := db.references.filter fun row => row ≠ reference }

/-- `DELETE FROM shared_publications WHERE id`, cascading to the references. -/
def deletePublication (db : Db) (publication : String) : Db :=
  { db with
    publications := db.publications.filter fun row => row.id ≠ publication
    references := db.references.filter fun row => row.publication ≠ publication }

end Db

/-! ### `reserve` -/

/-- The loop state of `reserve`. -/
structure Reserving where
  db : Db
  objects : List (String × Object) := []
  blocks : List Block := []
  /-- How many identifiers `id()` has returned. -/
  drawn : Nat := 0

/-- First use of a hash: reuse the verified incarnation or insert a pending one. -/
def reserveObject (destination : String) (point : Point) (ids : Nat → String)
    (state : Reserving) (hash : String) (size : UInt64) :
    Except Error (Reserving × Object) := do
  match state.db.lookup destination hash with
  | some row =>
    if row.size ≠ size.toInt64 then throw (Error.bad "Shared block size mismatch.")
    let db ← (state.db.setUnused row.id none).insertReference ⟨point.id, row.id⟩
    let object : Object := ⟨row.id, hash, size, true⟩
    return ({ state with db, objects := state.objects ++ [(hash, object)] }, object)
  | none =>
    let id := ids state.drawn
    let db ← state.db.insertObject ⟨id, destination, hash, size.toInt64, point.location, .pending, none, 0⟩
    let db ← db.insertReference ⟨point.id, id⟩
    let object : Object := ⟨id, hash, size, false⟩
    return ({ state with
      db, objects := state.objects ++ [(hash, object)], drawn := state.drawn + 1 }, object)

/-- `objects[&hash]`, after the first use of a hash filled the map. -/
def objectFor (destination : String) (point : Point) (ids : Nat → String)
    (state : Reserving) (hash : String) (size : UInt64) : Except Error (Reserving × Object) :=
  match state.objects.lookup hash with
  | some object => .ok (state, object)
  | none => reserveObject destination point ids state hash size

/-- One block of the `reserve` loop. -/
def reserveBlock (destination : String) (point : Point) (ids : Nat → String)
    (state : Reserving) (block : Block) : Except Error Reserving :=
  match block.hash with
  | none => .ok { state with blocks := state.blocks ++ [block] }
  | some hash => do
    let (state, object) ← objectFor destination point ids state hash block.size
    if object.size ≠ block.size then throw (Error.bad "Shared block size mismatch.")
    return { state with blocks := state.blocks ++ [{ block with object := some object.id }] }

/-- `objects.remove` along the manifest: each distinct hash once, in order. -/
def takeObjects : List Block → List (String × Object) → List Object
  | [], _ => []
  | block :: rest, objects =>
    match block.hash.bind fun hash => (objects.lookup hash).map (hash, ·) with
    | none => takeObjects rest objects
    | some (hash, object) =>
      object :: takeObjects rest (objects.filter fun entry => entry.1 ≠ hash)

/-- `reserve`: the new database, the reserved objects and the rewritten blocks. -/
def reserve (digests : Digests) (point : Point) (ids : Nat → String) (blocks : List Block)
    (db : Db) : Except Error (Db × List Object × List Block) := do
  let db ← db.insertPublication ⟨point.id, point.runId⟩
  let final ← blocks.foldlM
    (reserveBlock (digests.destination point.location) point ids) { db }
  return (final.db, takeObjects final.blocks final.objects, final.blocks)

/-! ### `complete_uploads`, `verified` -/

/-- The pending rows a publication references. -/
def pendingOf (db : Db) (publication : String) : List ObjectRow :=
  db.references.filterMap fun reference =>
    if reference.publication = publication then
      db.objects.find? fun row => row.id = reference.object ∧ row.state = .pending
    else none

/-- The loop state of `complete_uploads`. -/
structure Completing where
  db : Db
  replacements : List (String × String) := []

/-- One pending object: it becomes the ready incarnation, or gives way to it. -/
def completeObject (publication : String) (clock : Nat → Int) (state : Completing)
    (row : ObjectRow) : Except Error Completing := do
  match state.db.lookup row.destination row.hash with
  | none =>
    let db ← state.db.setReady row
    return { state with db }
  | some canonical =>
    if row.size ≠ canonical.size then throw (Error.bad "Shared block size mismatch.")
    let db ← state.db.insertReferenceOrIgnore ⟨publication, canonical.id⟩
    let db := db.setUnused canonical.id none
    let db := db.deleteReference ⟨publication, row.id⟩
    let db := db.setUnused row.id (some (clock state.replacements.length))
    return ⟨db, state.replacements ++ [(row.id, canonical.id)]⟩

/-- The canonical object takes the place of a duplicate upload in the manifest. -/
def rewriteBlock (replacements : List (String × String)) (block : Block) : Block :=
  match block.object.bind fun id => replacements.lookup id with
  | some canonical => { block with object := some canonical }
  | none => block

/-- `verified`. -/
def verified (publication : String) (db : Db) : Except Error Unit :=
  if ∃ reference ∈ db.references, reference.publication = publication ∧
      ∃ row ∈ db.objects, row.id = reference.object ∧ row.state ≠ .ready then
    .error (Error.conflict "A shared block was invalidated during publication.")
  else .ok ()

/-- `complete_uploads`: the new database and the rewritten blocks. -/
def completeUploads (publication : String) (clock : Nat → Int) (blocks : List Block) (db : Db) :
    Except Error (Db × List Block) := do
  let final ← (pendingOf db publication).foldlM (completeObject publication clock) { db }
  verified publication final.db
  return (final.db, blocks.map (rewriteBlock final.replacements))

/-! ### `release`, `release_run`, `queue`, `invalidate` -/

/-- `release`. -/
def release (publication : String) (now : Int) (db : Db) : Db :=
  let objects := db.objects.map fun row =>
    if ⟨publication, row.id⟩ ∈ db.references ∧
        ¬ ∃ reference ∈ db.references, reference.object = row.id ∧
          reference.publication ≠ publication then
      { row with unusedAt := some now }
    else row
  { db with objects }.deletePublication publication

/-- `release_run`; `clock k` is the time its `k`-th release reads. -/
def releaseRun (run : String) (keep : List String) (clock : Nat → Int) (db : Db) : Db :=
  let ids := (db.publications.filter fun row => row.runId = run ∧ row.id ∉ keep).map
    PublicationRow.id
  ids.zipIdx.foldl (fun db entry => release entry.1 (clock entry.2) db) db

/-- `queue`. -/
def queue (digests : Digests) (location : Location) (key : String) (whole : Bool) (db : Db) : Db :=
  let id := digests.deletion location key whole
  if id ∈ db.deletions.map RemoteDeletion.id then db
  else { db with deletions := db.deletions ++ [{ id, location, key, whole }] }

/-- The statement of `invalidate`. -/
def invalidate (object : String) (db : Db) : Db :=
  db.updateObject object fun row =>
    if row.state = .ready then { row with state := .invalid } else row

/-! ### `claim`, `collect` -/

/-- The `WHERE` clause of `claim` over `shared_objects`. -/
def Eligible (db : Db) (cutoff now : Int) (row : ObjectRow) : Prop :=
  (∃ at_, row.unusedAt = some at_ ∧ at_ ≤ cutoff) ∧ row.retryAt ≤ now ∧ ¬ db.Referenced row.id

instance (db : Db) (cutoff now : Int) (row : ObjectRow) : Decidable (Eligible db cutoff now row) := by
  unfold Eligible
  cases row.unusedAt with
  | none => exact isFalse (by simp)
  | some at_ =>
      exact decidable_of_iff (at_ ≤ cutoff ∧ row.retryAt ≤ now ∧ ¬ db.Referenced row.id) (by simp)

/-- `ORDER BY retry_at,unused_at`. -/
def claimedBefore (first second : ObjectRow) : Prop :=
  first.retryAt < second.retryAt ∨
    (first.retryAt = second.retryAt ∧ first.unusedAt.getD 0 ≤ second.unusedAt.getD 0)

instance : DecidableRel claimedBefore := fun first second => by
  unfold claimedBefore
  infer_instance

/-- The shared objects `claim` selects. -/
def claimable (db : Db) (cutoff now : Int) : List ObjectRow :=
  ((db.objects.filter fun row => Eligible db cutoff now row).insertionSort claimedBefore).take batch

/-- The queued deletions `claim` selects. -/
def due (db : Db) (now : Int) : List RemoteDeletion :=
  ((db.deletions.filter fun row => row.retryAt ≤ now).insertionSort
    fun first second => first.retryAt ≤ second.retryAt).take batch

/-- `claim`; `clock 0` selects the objects, later readings delay the retries. -/
def claim (cutoff : Int) (clock : Nat → Int) (db : Db) : Db × List Deletion :=
  let rows := claimable db cutoff (clock 0)
  let claimed := rows.zipIdx.foldl (fun db entry =>
    db.updateObject entry.1.id fun row =>
      { row with state := .deleting, retryAt := clock (entry.2 + 1) + 60000 }) db
  let queued := due claimed (clock (rows.length + 1))
  let delayed := queued.zipIdx.foldl (fun db entry =>
    { db with deletions := db.deletions.map fun row =>
        if row.id = entry.1.id then
          { row with retryAt := clock (rows.length + entry.2 + 2) + 60000 }
        else row }) claimed
  (delayed,
    rows.map (fun row => ⟨row.id, row.location, key row.hash row.id, false, true⟩) ++
      queued.map fun row => ⟨row.id, row.location, row.key, row.whole, false⟩)

/-- One finished deletion of the closing transaction of `collect`. -/
def finishDeletion (db : Db) (deletion : Deletion) : Db :=
  if deletion.shared then
    { db with objects := db.objects.filter fun row =>
        ¬ (row.id = deletion.id ∧ row.state = .deleting ∧ ¬ db.Referenced deletion.id) }
  else
    { db with deletions := db.deletions.filter fun row => row.id ≠ deletion.id }

/-- The closing transaction of `collect` over the deletions that succeeded remotely. -/
def finish (completed : List Deletion) (db : Db) : Db :=
  completed.foldl finishDeletion db

/-! ### Transactions -/

/-- A transaction on the inventory, with what it reads from its environment. -/
inductive Transaction where
  | reserve (point : Point) (ids : Nat → String) (blocks : List Block)
  | completeUploads (publication : String) (clock : Nat → Int) (blocks : List Block)
  | verified (publication : String)
  | release (publication : String) (now : Int)
  | releaseRun (run : String) (keep : List String) (clock : Nat → Int)
  | queue (location : Location) (key : String) (whole : Bool)
  | invalidate (object : String)
  | claim (cutoff : Int) (clock : Nat → Int)
  | finish (completed : List Deletion)

/-- The database a transaction commits. -/
def Transaction.apply (digests : Digests) : Transaction → Db → Except Error Db
  | .reserve point ids blocks, db => Prod.fst <$> SharedBlocks.reserve digests point ids blocks db
  | .completeUploads publication clock blocks, db =>
    Prod.fst <$> SharedBlocks.completeUploads publication clock blocks db
  | .verified publication, db => (fun _ => db) <$> SharedBlocks.verified publication db
  | .release publication now, db => .ok (SharedBlocks.release publication now db)
  | .releaseRun run keep clock, db => .ok (SharedBlocks.releaseRun run keep clock db)
  | .queue location key whole, db => .ok (SharedBlocks.queue digests location key whole db)
  | .invalidate object, db => .ok (SharedBlocks.invalidate object db)
  | .claim cutoff clock, db => .ok (SharedBlocks.claim cutoff clock db).1
  | .finish completed, db => .ok (SharedBlocks.finish completed db)

end Cairn.Nodes.SharedBlocks

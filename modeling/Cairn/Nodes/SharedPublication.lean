import Cairn.Nodes.SharedBlocksCollection

/-!
Owns the model of concurrent publications over the shared inventory. A
publication in flight is the `Intent` that `write_intent` returned: its point
and the manifest its own `reserve` rewrote, which `publish_manifest` hands to
`complete_uploads`. Publications of different runs interleave freely; the
operation lock of a run keeps a release apart from that run's publication: a
release is called only after its owner publication has stopped.

Does not own the upload of the blocks, nor the record `commit` writes.
-/

set_option autoImplicit false

namespace Cairn.Nodes.SharedBlocks

open Cairn.Library.Results Cairn.Library.Transactions

/-- A publication between `write_intent` and the end of `publish`. -/
structure Flight where
  point : Point
  blocks : List Block

/-- The inventory and the publications in flight, by identifier. -/
structure World where
  db : Db := {}
  flights : String → Option Flight := fun _ => none

/-- A transaction of one of the publications, or of the collector. -/
inductive Step where
  | reserve (point : Point) (ids : Nat → String) (blocks : List Block)
  | complete (publication : String) (clock : Nat → Int)
  | verified (publication : String)
  /-- The publication returns, or fails. -/
  | stop (publication : String)
  | release (publication : String) (now : Int)
  | releaseRun (run : String) (keep : List String) (clock : Nat → Int)
  | queue (location : Location) (key : String) (whole : Bool)
  | invalidate (object : String)
  | claim (cutoff : Int) (clock : Nat → Int)
  | finish (completed : List Deletion)

/-- What the operation lock excludes. -/
def busy : Error := Error.conflict "A disk publication is in progress."

/-- One step of the world. -/
def Step.apply (digests : Digests) : Step → World → Except Error World
  | .reserve point ids blocks, world => do
    let (db, _, rewritten) ← SharedBlocks.reserve digests point ids blocks world.db
    return { db, flights := Function.update world.flights point.id (some ⟨point, rewritten⟩) }
  | .complete publication clock, world =>
    match world.flights publication with
    | none => .error busy
    | some flight => do
      let (db, rewritten) ← completeUploads publication clock flight.blocks world.db
      return {
        db
        flights := Function.update world.flights publication (some ⟨flight.point, rewritten⟩) }
  | .verified publication, world => (fun _ => world) <$> SharedBlocks.verified publication world.db
  | .stop publication, world =>
    .ok { world with flights := Function.update world.flights publication none }
  | .release publication now, world =>
    if (world.flights publication).isSome then .error busy
    else .ok { world with db := SharedBlocks.release publication now world.db }
  | .releaseRun run keep clock, world =>
    if ∃ row ∈ world.db.publications, row.runId = run ∧ row.id ∉ keep ∧
        (world.flights row.id).isSome then .error busy
    else .ok { world with db := SharedBlocks.releaseRun run keep clock world.db }
  | .queue location key whole, world =>
    .ok { world with db := SharedBlocks.queue digests location key whole world.db }
  | .invalidate object, world => .ok { world with db := SharedBlocks.invalidate object world.db }
  | .claim cutoff clock, world => .ok { world with db := (SharedBlocks.claim cutoff clock world.db).1 }
  | .finish completed, world => .ok { world with db := SharedBlocks.finish completed world.db }

/-! ### Placed blocks -/

/-- The object stores the content of the block at the destination of the point,
and the point's publication references it. -/
def Placed (digests : Digests) (point : Point) (db : Db) (object hash : String) (size : UInt64) : Prop :=
  ∃ row ∈ db.objects, row.identity =
      (object, digests.destination point.location, hash, size.toInt64) ∧
    (⟨point.id, object⟩ : Reference) ∈ db.references

theorem Placed.frame {digests : Digests} {point : Point} {db next : Db} {object hash : String}
    {size : UInt64} (placed : Placed digests point db object hash size) (retains : Retains db next)
    (keeps : KeepsReferences point.id db next) : Placed digests point next object hash size := by
  obtain ⟨row, member, identity, held⟩ := placed
  obtain ⟨kept, keptMem, same, -⟩ := retains row member
  exact ⟨kept, keptMem, same.trans identity, keeps object held⟩

/-- Every hashed block of the manifest is placed, equal hashes at one object. -/
structure AllPlaced (digests : Digests) (point : Point) (db : Db) (blocks : List Block) : Prop where
  placed : ∀ block ∈ blocks, ∀ hash, block.hash = some hash →
    ∃ object, block.object = some object ∧ Placed digests point db object hash block.size
  shared : ∀ first ∈ blocks, ∀ second ∈ blocks, first.hash.isSome →
    first.hash = second.hash → first.object = second.object

theorem AllPlaced.frame {digests : Digests} {point : Point} {db next : Db} {blocks : List Block}
    (placed : AllPlaced digests point db blocks) (retains : Retains db next)
    (keeps : KeepsReferences point.id db next) : AllPlaced digests point next blocks := by
  refine ⟨fun block member hash isHash => ?_, placed.shared⟩
  obtain ⟨object, isObject, held⟩ := placed.placed block member hash isHash
  exact ⟨object, isObject, held.frame retains keeps⟩

/-- A referenced row outlives the closing transaction of a collection. -/
theorem Placed.finish {digests : Digests} {point : Point} {db : Db} {object hash : String}
    {size : UInt64} (placed : Placed digests point db object hash size) (completed : List Deletion) :
    Placed digests point (finish completed db) object hash size := by
  obtain ⟨row, member, identity, held⟩ := placed
  obtain ⟨references, rows⟩ := finish_frame completed db
  have isObject : row.id = object := congrArg Prod.fst identity
  have referenced : db.Referenced row.id := ⟨_, held, isObject.symm⟩
  exact ⟨row, (rows row member).resolve_right fun removed => removed.2.1 referenced, identity,
    references ▸ held⟩

theorem AllPlaced.finish {digests : Digests} {point : Point} {db : Db} {blocks : List Block}
    (placed : AllPlaced digests point db blocks) (completed : List Deletion) :
    AllPlaced digests point (SharedBlocks.finish completed db) blocks := by
  refine ⟨fun block member hash isHash => ?_, placed.shared⟩
  obtain ⟨object, isObject, held⟩ := placed.placed block member hash isHash
  exact ⟨object, isObject, held.finish completed⟩

/-! ### `reserve` -/

/-- What the loop of `reserve` maintains. -/
structure Filling (digests : Digests) (point : Point) (state : Reserving) : Prop where
  sound : Sound state.db
  objects : ∀ hash object, state.objects.lookup hash = some object →
    object.hash = hash ∧ Placed digests point state.db object.id hash object.size
  blocks : ∀ block ∈ state.blocks, ∀ hash, block.hash = some hash →
    ∃ object, state.objects.lookup hash = some object ∧ block.object = some object.id ∧
      block.size = object.size

theorem Filling.allPlaced {digests : Digests} {point : Point} {state : Reserving}
    (filling : Filling digests point state) : AllPlaced digests point state.db state.blocks := by
  constructor
  · intro block member hash isHash
    obtain ⟨object, found, isObject, sameSize⟩ := filling.blocks block member hash isHash
    exact ⟨object.id, isObject, sameSize ▸ (filling.objects hash object found).2⟩
  · intro first firstMem second secondMem isSome sameHash
    obtain ⟨hash, isHash⟩ := Option.isSome_iff_exists.mp isSome
    obtain ⟨firstObject, firstFound, isFirst, -⟩ := filling.blocks first firstMem hash isHash
    obtain ⟨secondObject, secondFound, isSecond, -⟩ :=
      filling.blocks second secondMem hash (sameHash ▸ isHash)
    rw [isFirst, isSecond, Option.some.inj (firstFound.symm.trans secondFound)]

/-- The object of a first use is placed. -/
theorem reserveObject_placed {digests : Digests} {point : Point} {ids : Nat → String}
    {state next : Reserving} {hash : String} {size : UInt64} {object : Object}
    (reserved : reserveObject (digests.destination point.location) point ids state hash size =
      .ok (next, object)) :
    object.hash = hash ∧ object.size = size ∧
      next.objects = state.objects ++ [(hash, object)] ∧ next.blocks = state.blocks ∧
        Placed digests point next.db object.id hash object.size := by
  rcases reserveObject_ok reserved with
    ⟨row, db, found, sameSize, inserted, rfl, rfl⟩ |
      ⟨middle, db, -, insertedObject, insertedReference, rfl, rfl⟩
  · refine ⟨rfl, rfl, rfl, rfl, ?_⟩
    obtain ⟨member, sameDestination, sameHash, -⟩ := Db.lookup_some found
    obtain ⟨kept, keptMem, same, -⟩ :=
      (Retains.setUnused state.db row.id none).trans (.insertReference inserted) row member
    refine ⟨kept, keptMem, ?_, ?_⟩
    · rw [same, ObjectRow.identity, sameDestination, sameHash, sameSize]
    · obtain ⟨-, -, rfl⟩ := Db.insertReference_ok inserted
      exact List.mem_append_right _ (List.mem_singleton.mpr rfl)
  · refine ⟨rfl, rfl, rfl, rfl, ?_⟩
    obtain ⟨-, rfl⟩ := Db.insertObject_ok insertedObject
    obtain ⟨-, -, rfl⟩ := Db.insertReference_ok insertedReference
    exact ⟨_, List.mem_append_right _ (List.mem_singleton.mpr rfl), rfl,
      List.mem_append_right _ (List.mem_singleton.mpr rfl)⟩

theorem Filling.objectFor {digests : Digests} {point : Point} {ids : Nat → String}
    {state next : Reserving} {hash : String} {size : UInt64} {object : Object}
    (filling : Filling digests point state)
    (found : objectFor (digests.destination point.location) point ids state hash size =
      .ok (next, object)) :
    Filling digests point next ∧ next.objects.lookup hash = some object ∧
      next.blocks = state.blocks := by
  rcases objectFor_ok found with ⟨known, rfl⟩ | ⟨unknown, first⟩
  · exact ⟨filling, known, rfl⟩
  · obtain ⟨sameHash, sameSize, objectsEq, blocksEq, placed⟩ := reserveObject_placed first
    obtain ⟨retains, keeps⟩ := reserveObject_frame first
    have lookups : ∀ other, next.objects.lookup other =
        (state.objects.lookup other).or (if other = hash then some object else none) := by
      intro other
      rw [objectsEq, List.lookup_append]
      by_cases same : other = hash
      · simp [same]
      · simp [List.lookup_cons, beq_eq_false_iff_ne.mpr same, same]
    have found : next.objects.lookup hash = some object := by
      rw [lookups, unknown]
      simp
    refine ⟨⟨filling.sound.reserveObject first, ?_, ?_⟩, found, blocksEq⟩
    · intro other known otherFound
      by_cases same : other = hash
      · subst other
        obtain rfl : object = known := Option.some.inj (found.symm.trans otherFound)
        exact ⟨sameHash, placed⟩
      · rw [lookups, if_neg same, Option.or_none] at otherFound
        obtain ⟨isHash, old⟩ := filling.objects other known otherFound
        exact ⟨isHash, old.frame retains (keeps point.id)⟩
    · intro block member other isHash
      obtain ⟨known, knownFound, rest⟩ := filling.blocks block (blocksEq ▸ member) other isHash
      refine ⟨known, ?_, rest⟩
      rw [lookups, knownFound]
      rfl

theorem Filling.reserveBlock {digests : Digests} {point : Point} {ids : Nat → String}
    {state next : Reserving} {block : Block} (filling : Filling digests point state)
    (reserved : reserveBlock (digests.destination point.location) point ids state block =
      .ok next) : Filling digests point next := by
  rcases reserveBlock_ok reserved with ⟨noHash, rfl⟩ | ⟨hash, middle, object, isHash, found, same, rfl⟩
  · refine ⟨filling.sound, filling.objects, fun other member hash isHash => ?_⟩
    rcases List.mem_append.mp member with old | new
    · exact filling.blocks other old hash isHash
    · rw [List.mem_singleton.mp new, noHash] at isHash
      cases isHash
  · obtain ⟨filled, known, -⟩ := filling.objectFor found
    refine ⟨filled.sound, filled.objects, fun other member otherHash isOther => ?_⟩
    rcases List.mem_append.mp member with old | new
    · exact filled.blocks other old otherHash isOther
    · rw [List.mem_singleton.mp new] at isOther ⊢
      obtain rfl : hash = otherHash := Option.some.inj (isHash.symm.trans isOther)
      exact ⟨object, known, rfl, same.symm⟩

/-- The manifest `reserve` returns is placed. -/
theorem reserve_placed {digests : Digests} {point : Point} {ids : Nat → String}
    {blocks rewritten : List Block} {db next : Db} {objects : List Object} (sound : Sound db)
    (reserved : reserve digests point ids blocks db = .ok (next, objects, rewritten)) :
    AllPlaced digests point next rewritten := by
  obtain ⟨opened, final, inserted, looped, rfl, -, rfl⟩ := reserve_ok reserved
  have filled : Filling digests point final :=
    foldlM_eq_ok (motive := fun _ state => Filling digests point state)
      (fun _ _ _ _ filling reserved => filling.reserveBlock reserved)
      ⟨sound.insertPublication inserted, by simp, by simp⟩ looped
  exact filled.allPlaced

/-! ### `complete_uploads` -/

/-- The object that a rewrite puts in the place of another. -/
def replaced (replacements : List (String × String)) (object : String) : String :=
  (replacements.lookup object).getD object

theorem rewriteBlock_hash (replacements : List (String × String)) (block : Block) :
    (rewriteBlock replacements block).hash = block.hash := by
  unfold rewriteBlock
  split <;> rfl

theorem rewriteBlock_size (replacements : List (String × String)) (block : Block) :
    (rewriteBlock replacements block).size = block.size := by
  unfold rewriteBlock
  split <;> rfl

theorem rewriteBlock_object (replacements : List (String × String)) (block : Block) :
    (rewriteBlock replacements block).object = block.object.map (replaced replacements) := by
  unfold rewriteBlock replaced
  cases isObject : block.object with
  | none => simp [isObject]
  | some object => cases found : replacements.lookup object <;> simp [isObject, found]

/-- What the loop of `complete_uploads` maintains: once rewritten, the manifest
stays placed, and neither side of a replacement is visited again. -/
structure Settling (digests : Digests) (point : Point) (blocks : List Block)
    (rest : List ObjectRow) (state : Completing) : Prop where
  remaining : Remaining point.id rest state.db
  settled : ∀ entry ∈ state.replacements, ∀ row ∈ rest, entry.1 ≠ row.id ∧ entry.2 ≠ row.id
  placed : ∀ block ∈ blocks, ∀ hash object, block.hash = some hash → block.object = some object →
    Placed digests point state.db (replaced state.replacements object) hash block.size

/-- A replaced object is the one visited, and only blocks that named it move. -/
private theorem replaced_append {replacements : List (String × String)} {row : ObjectRow}
    (settled : ∀ entry ∈ replacements, entry.1 ≠ row.id ∧ entry.2 ≠ row.id)
    (canonical object : String) :
    replaced (replacements ++ [(row.id, canonical)]) object =
      if replaced replacements object = row.id then canonical else replaced replacements object := by
  unfold replaced
  rw [List.lookup_append]
  cases found : replacements.lookup object with
  | none =>
      by_cases same : object = row.id
      · simp [same]
      · simp [List.lookup_cons, beq_eq_false_iff_ne.mpr same, same]
  | some target =>
      have entry : (object, target) ∈ replacements := by
        obtain ⟨before, after, listed, -⟩ := List.lookup_eq_some_iff.mp found
        simp [listed]
      simp [(settled _ entry).2]

theorem Settling.completeObject {digests : Digests} {point : Point} {blocks : List Block}
    {clock : Nat → Int} {state next : Completing} {row : ObjectRow} {rest : List ObjectRow}
    (settling : Settling digests point blocks (row :: rest) state)
    (completed : completeObject point.id clock state row = .ok next) :
    Settling digests point blocks rest next := by
  have remaining := settling.remaining.completeObject completed
  have retains := (completeObject_frame completed).1
  obtain ⟨rowMem, pending, owned⟩ := settling.remaining.members row (by simp)
  have settledRow := fun entry member => settling.settled entry member row (by simp)
  rcases completeObject_ok completed with
    ⟨db, -, updated, rfl⟩ | ⟨canonical, db, found, sameSize, inserted, rfl⟩
  · obtain ⟨-, rfl⟩ := Db.setReady_ok updated
    refine ⟨remaining, fun entry member other otherMem =>
      settling.settled entry member other (List.mem_cons_of_mem row otherMem), ?_⟩
    intro block member hash object isHash isObject
    exact (settling.placed block member hash object isHash isObject).frame retains
      (.of_references (List.Subset.refl _))
  · obtain ⟨canonicalMem, sameDestination, sameHash, ready⟩ := Db.lookup_some found
    have distinct := List.nodup_cons.mp (List.map_cons ▸ settling.remaining.distinct)
    have different : canonical.id ≠ row.id := by
      intro same
      have := settling.remaining.sound.row_eq canonicalMem rowMem same
      simp_all
    refine ⟨remaining, fun entry member other otherMem => ?_, ?_⟩
    · obtain ⟨otherObject, otherPending, -⟩ :=
        settling.remaining.members other (List.mem_cons_of_mem row otherMem)
      rcases List.mem_append.mp member with old | new
      · exact settling.settled entry old other (List.mem_cons_of_mem row otherMem)
      · rw [List.mem_singleton.mp new]
        refine ⟨fun same => distinct.1 ?_, fun same => ?_⟩
        · exact List.mem_map.mpr ⟨other, otherMem, same.symm⟩
        · have := settling.remaining.sound.row_eq canonicalMem otherObject same
          simp_all
    · intro block member hash object isHash isObject
      obtain ⟨current, currentMem, identity, held⟩ :=
        settling.placed block member hash object isHash isObject
      rw [replaced_append settledRow]
      obtain ⟨-, kept⟩ := Db.insertReferenceOrIgnore_ok inserted
      by_cases moved : replaced state.replacements object = row.id
      · -- The duplicate's own row has the columns of the incarnation that replaces it.
        rw [if_pos moved]
        have isRow : current = row := by
          refine settling.remaining.sound.row_eq currentMem rowMem ?_
          have := congrArg Prod.fst identity
          exact this.trans moved
        obtain ⟨final, finalMem, finalIdentity, -⟩ := retains canonical canonicalMem
        refine ⟨final, finalMem, ?_, ?_⟩
        · rw [finalIdentity]
          rw [isRow] at identity
          simp only [ObjectRow.identity, Prod.mk.injEq, true_and] at identity ⊢
          exact ⟨sameDestination.trans identity.2.1, sameHash.trans identity.2.2.1,
            sameSize ▸ identity.2.2.2⟩
        · have added : (⟨point.id, canonical.id⟩ : Reference) ∈ db.references :=
            Db.insertReferenceOrIgnore_mem inserted
          exact List.mem_filter.mpr ⟨added, by simpa using different⟩
      · rw [if_neg moved]
        obtain ⟨final, finalMem, finalIdentity, -⟩ := retains current currentMem
        refine ⟨final, finalMem, finalIdentity.trans identity, ?_⟩
        exact List.mem_filter.mpr ⟨kept held, by simpa using moved⟩

/-- The manifest `complete_uploads` returns is placed, at ready objects only. -/
theorem completeUploads_placed {digests : Digests} {point : Point} {clock : Nat → Int}
    {blocks rewritten : List Block} {db next : Db} (sound : Sound db)
    (placed : AllPlaced digests point db blocks)
    (completed : completeUploads point.id clock blocks db = .ok (next, rewritten)) :
    AllPlaced digests point next rewritten ∧
      ∀ row ∈ next.objects, ⟨point.id, row.id⟩ ∈ next.references → row.state = .ready := by
  obtain ⟨final, looped, checked, rfl, rfl⟩ := completeUploads_ok completed
  have settled : Settling digests point blocks [] final := by
    refine foldlM_eq_ok (motive := Settling digests point blocks)
      (fun _ _ _ _ settling completed => settling.completeObject completed)
      ⟨.of_pending sound point.id, by simp, ?_⟩ looped
    intro block member hash object isHash isObject
    obtain ⟨known, isKnown, held⟩ := placed.placed block member hash isHash
    obtain rfl : known = object := Option.some.inj (isKnown.symm.trans isObject)
    exact held
  refine ⟨⟨?_, ?_⟩, verified_ok checked⟩
  · intro updated member hash isHash
    obtain ⟨block, blockMem, rfl⟩ := List.mem_map.mp member
    rw [rewriteBlock_hash] at isHash
    obtain ⟨object, isObject, -⟩ := placed.placed block blockMem hash isHash
    refine ⟨replaced final.replacements object, ?_, ?_⟩
    · rw [rewriteBlock_object, isObject]
      rfl
    · rw [rewriteBlock_size]
      exact settled.placed block blockMem hash object isHash isObject
  · intro first firstMem second secondMem isSome sameHash
    obtain ⟨firstBlock, firstOld, rfl⟩ := List.mem_map.mp firstMem
    obtain ⟨secondBlock, secondOld, rfl⟩ := List.mem_map.mp secondMem
    rw [rewriteBlock_hash] at isSome sameHash
    rw [rewriteBlock_hash] at sameHash
    rw [rewriteBlock_object, rewriteBlock_object,
      placed.shared firstBlock firstOld secondBlock secondOld isSome sameHash]

/-! ### Steps of the world -/

/-- Every manifest in flight is placed. -/
structure World.Sound (digests : Digests) (world : World) : Prop where
  inventory : SharedBlocks.Sound world.db
  flights : ∀ publication flight, world.flights publication = some flight →
    flight.point.id = publication ∧ AllPlaced digests flight.point world.db flight.blocks

theorem World.Sound.empty (digests : Digests) : World.Sound digests {} :=
  ⟨.empty, fun _ _ inFlight => by cases inFlight⟩

/-- Steps that start or change no flight keep the invariant by their frame. -/
theorem World.Sound.frame {digests : Digests} {world : World} {db : Db}
    (sound : world.Sound digests) (inventory : SharedBlocks.Sound db)
    (retains : Retains world.db db)
    (keeps : ∀ publication, (world.flights publication).isSome →
      KeepsReferences publication world.db db) : World.Sound digests { world with db } := by
  refine ⟨inventory, fun publication flight inFlight => ?_⟩
  have inFlight : world.flights publication = some flight := inFlight
  obtain ⟨isPoint, placed⟩ := sound.flights publication flight inFlight
  exact ⟨isPoint, placed.frame retains (isPoint ▸ keeps publication (by simp [inFlight]))⟩

/-- A flight takes off, or lands its rewritten manifest. -/
theorem World.Sound.update {digests : Digests} {world : World} {db : Db} {publication : String}
    (sound : world.Sound digests) (inventory : SharedBlocks.Sound db)
    (retains : Retains world.db db)
    (keeps : ∀ other, other ≠ publication → KeepsReferences other world.db db) {point : Point}
    {blocks : List Block} (isPoint : point.id = publication)
    (placed : AllPlaced digests point db blocks) :
    World.Sound digests
      ⟨db, Function.update world.flights publication (some ⟨point, blocks⟩)⟩ := by
  refine ⟨inventory, fun other flight inFlight => ?_⟩
  by_cases same : other = publication
  · subst other
    simp only [Function.update_self, Option.some.injEq] at inFlight
    exact inFlight ▸ ⟨isPoint, placed⟩
  · simp only [Function.update_of_ne same] at inFlight
    obtain ⟨isOther, old⟩ := sound.flights other flight inFlight
    exact ⟨isOther, old.frame retains (isOther ▸ keeps other same)⟩

theorem Step.complete_ok {digests : Digests} {publication : String} {clock : Nat → Int}
    {world next : World} (applied : Step.apply digests (.complete publication clock) world = .ok next) :
    ∃ flight db rewritten, world.flights publication = some flight ∧
      completeUploads publication clock flight.blocks world.db = .ok (db, rewritten) ∧
      next = ⟨db, Function.update world.flights publication (some ⟨flight.point, rewritten⟩)⟩ := by
  simp only [Step.apply] at applied
  cases inFlight : world.flights publication with
  | none => simp [inFlight] at applied
  | some flight =>
      simp only [inFlight] at applied
      obtain ⟨⟨db, rewritten⟩, completed, applied⟩ := bind_eq_ok.mp applied
      simp only [pure, Except.pure, Except.ok.injEq] at applied
      exact ⟨flight, db, rewritten, rfl, completed, applied.symm⟩

theorem Step.reserve_ok {digests : Digests} {point : Point} {ids : Nat → String}
    {blocks : List Block} {world next : World}
    (applied : Step.apply digests (.reserve point ids blocks) world = .ok next) :
    ∃ db objects rewritten,
      SharedBlocks.reserve digests point ids blocks world.db = .ok (db, objects, rewritten) ∧
      next = ⟨db, Function.update world.flights point.id (some ⟨point, rewritten⟩)⟩ := by
  obtain ⟨⟨db, objects, rewritten⟩, reserved, applied⟩ := bind_eq_ok.mp applied
  simp only [pure, Except.pure, Except.ok.injEq] at applied
  exact ⟨db, objects, rewritten, reserved, applied.symm⟩

theorem Step.release_ok {digests : Digests} {publication : String} {now : Int} {world next : World}
    (applied : Step.apply digests (.release publication now) world = .ok next) :
    world.flights publication = none ∧
      next = { world with db := SharedBlocks.release publication now world.db } := by
  simp only [Step.apply] at applied
  by_cases inFlight : (world.flights publication).isSome
  · simp [inFlight] at applied
  · simp only [inFlight, Bool.false_eq_true, if_false, Except.ok.injEq] at applied
    exact ⟨by simpa using inFlight, applied.symm⟩

theorem Step.releaseRun_ok {digests : Digests} {run : String} {keep : List String}
    {clock : Nat → Int} {world next : World}
    (applied : Step.apply digests (.releaseRun run keep clock) world = .ok next) :
    (∀ row ∈ world.db.publications, row.runId = run → (world.flights row.id).isSome →
      row.id ∈ keep) ∧
      next = { world with db := SharedBlocks.releaseRun run keep clock world.db } := by
  simp only [Step.apply] at applied
  split at applied
  · cases applied
  · rename_i stopped
    push Not at stopped
    refine ⟨fun row member isRun inFlight => ?_, (Except.ok.inj applied).symm⟩
    by_contra released
    exact absurd inFlight (by simpa using stopped row member isRun released)

/-- Every step of the world keeps the manifests in flight placed. -/
theorem World.Sound.step {digests : Digests} {world next : World} (sound : world.Sound digests)
    {step : Step} (applied : step.apply digests world = .ok next) : next.Sound digests := by
  cases step with
  | reserve point ids blocks =>
      obtain ⟨db, objects, rewritten, reserved, rfl⟩ := Step.reserve_ok applied
      obtain ⟨retains, keeps⟩ := reserve_frame reserved
      exact sound.update (sound.inventory.reserve reserved) retains (fun other _ => keeps other) rfl
        (reserve_placed sound.inventory reserved)
  | complete publication clock =>
      obtain ⟨flight, db, rewritten, inFlight, completed, rfl⟩ := Step.complete_ok applied
      obtain ⟨rfl, placed⟩ := sound.flights publication flight inFlight
      obtain ⟨retains, keeps⟩ := completeUploads_frame completed
      exact sound.update (sound.inventory.completeUploads completed) retains keeps rfl
        (completeUploads_placed sound.inventory placed completed).1
  | verified publication =>
      obtain ⟨_, -, rfl⟩ := map_eq_ok.mp applied
      exact sound
  | stop publication =>
      rw [← Except.ok.inj applied]
      refine ⟨sound.inventory, fun other flight inFlight => ?_⟩
      by_cases same : other = publication
      · simp [same] at inFlight
      · exact sound.flights other flight (by simpa [same] using inFlight)
  | release publication now =>
      obtain ⟨stopped, rfl⟩ := Step.release_ok applied
      obtain ⟨retains, keeps⟩ := release_frame publication now world.db
      refine sound.frame (sound.inventory.release publication now) retains fun other inFlight => ?_
      exact keeps other fun same => by simp [same, stopped] at inFlight
  | releaseRun run keep clock =>
      obtain ⟨stopped, rfl⟩ := Step.releaseRun_ok applied
      obtain ⟨retains, keeps⟩ := releaseRun_frame run keep clock world.db
      refine sound.frame (sound.inventory.releaseRun run keep clock) retains fun other inFlight => ?_
      exact keeps other fun row member same isRun => stopped row member isRun (same ▸ inFlight)
  | queue location key whole =>
      rw [← Except.ok.inj applied]
      obtain ⟨retains, keeps⟩ := queue_frame digests location key whole world.db
      exact sound.frame (sound.inventory.queue digests location key whole) retains
        fun other _ => keeps other
  | invalidate object =>
      rw [← Except.ok.inj applied]
      obtain ⟨retains, keeps⟩ := invalidate_frame object world.db
      exact sound.frame (sound.inventory.invalidate object) retains fun other _ => keeps other
  | claim cutoff clock =>
      rw [← Except.ok.inj applied]
      obtain ⟨retains, keeps⟩ := claim_frame cutoff clock world.db
      exact sound.frame (sound.inventory.claim cutoff clock) retains fun other _ => keeps other
  | finish completed =>
      rw [← Except.ok.inj applied]
      refine ⟨sound.inventory.finish completed, fun publication flight inFlight => ?_⟩
      obtain ⟨isPoint, placed⟩ := sound.flights publication flight inFlight
      exact ⟨isPoint, placed.finish completed⟩

theorem World.Sound.runs {digests : Digests} {world : World} (sound : world.Sound digests)
    (steps : List Step) : (runs (Step.apply digests) world steps).Sound digests :=
  runs_invariant (fun _ _ _ sound applied => sound.step applied) steps sound

/-! ### Published blocks -/

/-- The object is placed and its upload is over. -/
def Published (digests : Digests) (point : Point) (db : Db) (object hash : String) (size : UInt64) :
    Prop :=
  ∃ row ∈ db.objects, row.identity =
      (object, digests.destination point.location, hash, size.toInt64) ∧ row.state ≠ .pending ∧
    (⟨point.id, object⟩ : Reference) ∈ db.references

theorem Published.frame {digests : Digests} {point : Point} {db next : Db} {object hash : String}
    {size : UInt64} (published : Published digests point db object hash size)
    (retains : Retains db next) (held : (⟨point.id, object⟩ : Reference) ∈ next.references) :
    Published digests point next object hash size := by
  obtain ⟨row, member, identity, settled, -⟩ := published
  obtain ⟨kept, keptMem, same, keptSettled⟩ := retains row member
  exact ⟨kept, keptMem, same.trans identity, keptSettled settled, held⟩

theorem Published.held {digests : Digests} {point : Point} {db : Db} {object hash : String}
    {size : UInt64} (published : Published digests point db object hash size) :
    (⟨point.id, object⟩ : Reference) ∈ db.references := by
  obtain ⟨-, -, -, -, held⟩ := published
  exact held

/-- Completing the publication once more only gives up references to pending rows. -/
theorem completeUploads_keeps_settled {publication object : String} {clock : Nat → Int}
    {blocks rewritten : List Block} {db next : Db} (sound : Sound db) {row : ObjectRow}
    (member : row ∈ db.objects) (isObject : row.id = object) (settled : row.state ≠ .pending)
    (held : (⟨publication, object⟩ : Reference) ∈ db.references)
    (completed : completeUploads publication clock blocks db = .ok (next, rewritten)) :
    (⟨publication, object⟩ : Reference) ∈ next.references := by
  obtain ⟨final, looped, -, rfl, -⟩ := completeUploads_ok completed
  have others : ∀ other ∈ pendingOf db publication, other.id ≠ object := by
    intro other otherMem same
    obtain ⟨otherObject, otherPending, -⟩ := pendingOf_mem otherMem
    rw [sound.row_eq otherObject member (same.trans isObject.symm)] at otherPending
    exact settled otherPending
  have kept := foldlM_eq_ok (motive := fun rest state => (∀ other ∈ rest, other.id ≠ object) ∧
    (⟨publication, object⟩ : Reference) ∈ state.db.references) ?_ ⟨others, held⟩ looped
  · exact kept.2
  intro pending rest state next holds completed
  refine ⟨fun other otherMem => holds.1 other (List.mem_cons_of_mem pending otherMem), ?_⟩
  rcases completeObject_ok completed with ⟨db, -, updated, rfl⟩ | ⟨canonical, db, -, -, inserted, rfl⟩
  · obtain ⟨-, rfl⟩ := Db.setReady_ok updated
    exact holds.2
  · have old := (Db.insertReferenceOrIgnore_ok inserted).2 holds.2
    exact List.mem_filter.mpr ⟨old, by simpa using (holds.1 pending (by simp)).symm⟩

theorem release_removes (publication : String) (now : Int) (db : Db) :
    publication ∉ (release publication now db).publications.map PublicationRow.id := by
  intro member
  obtain ⟨row, rowMem, same⟩ := List.mem_map.mp member
  exact absurd same (by simpa using (List.mem_filter.mp rowMem).2)

/-- `release_run` either spares a publication or removes it. -/
theorem releaseRun_keeps_or_removes (run : String) (keep : List String) (clock : Nat → Int) (db : Db)
    (publication : String) :
    KeepsReferences publication db (releaseRun run keep clock db) ∨
      publication ∉ (releaseRun run keep clock db).publications.map PublicationRow.id := by
  refine List.foldlRecOn _ _ (motive := fun current : Db => KeepsReferences publication db current ∨
    publication ∉ current.publications.map PublicationRow.id) (Or.inl (.refl publication db)) ?_
  rintro current (kept | removed) entry -
  · by_cases same : entry.1 = publication
    · exact Or.inr (same ▸ release_removes entry.1 (clock entry.2) current)
    · exact Or.inl (kept.trans
        ((release_frame entry.1 (clock entry.2) current).2 publication (Ne.symm same)))
  · refine Or.inr fun member => removed ?_
    obtain ⟨row, rowMem, same⟩ := List.mem_map.mp member
    exact List.mem_map.mpr ⟨row, List.mem_of_mem_filter rowMem, same⟩

/-- A step keeps a published object, unless it releases the publication. -/
theorem Step.keeps_published {digests : Digests} {world next : World} (sound : world.Sound digests)
    {step : Step} (applied : step.apply digests world = .ok next) {point : Point}
    {object hash : String} {size : UInt64}
    (published : Published digests point world.db object hash size) :
    Published digests point next.db object hash size ∨
      point.id ∉ next.db.publications.map PublicationRow.id := by
  have held := published.held
  cases step with
  | reserve other ids blocks =>
      obtain ⟨db, objects, rewritten, reserved, rfl⟩ := Step.reserve_ok applied
      obtain ⟨retains, keeps⟩ := reserve_frame reserved
      exact Or.inl (published.frame retains (keeps point.id object held))
  | complete publication clock =>
      obtain ⟨flight, db, rewritten, inFlight, completed, rfl⟩ := Step.complete_ok applied
      obtain ⟨retains, keeps⟩ := completeUploads_frame completed
      refine Or.inl (published.frame retains ?_)
      by_cases same : point.id = publication
      · subst publication
        obtain ⟨row, member, identity, settled, -⟩ := published
        exact completeUploads_keeps_settled sound.inventory member (congrArg Prod.fst identity)
          settled held completed
      · exact keeps point.id same object held
  | verified publication =>
      obtain ⟨_, -, rfl⟩ := map_eq_ok.mp applied
      exact Or.inl published
  | stop publication =>
      rw [← Except.ok.inj applied]
      exact Or.inl published
  | release publication now =>
      obtain ⟨-, rfl⟩ := Step.release_ok applied
      obtain ⟨retains, keeps⟩ := release_frame publication now world.db
      by_cases same : point.id = publication
      · exact Or.inr (same ▸ release_removes publication now world.db)
      · exact Or.inl (published.frame retains (keeps point.id same object held))
  | releaseRun run keep clock =>
      obtain ⟨-, rfl⟩ := Step.releaseRun_ok applied
      rcases releaseRun_keeps_or_removes run keep clock world.db point.id with kept | removed
      · exact Or.inl (published.frame (releaseRun_frame run keep clock world.db).1 (kept object held))
      · exact Or.inr removed
  | queue location key whole =>
      rw [← Except.ok.inj applied]
      obtain ⟨retains, keeps⟩ := queue_frame digests location key whole world.db
      exact Or.inl (published.frame retains (keeps point.id object held))
  | invalidate target =>
      rw [← Except.ok.inj applied]
      obtain ⟨retains, keeps⟩ := invalidate_frame target world.db
      exact Or.inl (published.frame retains (keeps point.id object held))
  | claim cutoff clock =>
      rw [← Except.ok.inj applied]
      obtain ⟨retains, keeps⟩ := claim_frame cutoff clock world.db
      exact Or.inl (published.frame retains (keeps point.id object held))
  | finish completed =>
      rw [← Except.ok.inj applied]
      obtain ⟨row, member, identity, settled, -⟩ := published
      obtain ⟨references, rows⟩ := finish_frame completed world.db
      have referenced : world.db.Referenced row.id :=
        ⟨_, held, (congrArg Prod.fst identity).symm⟩
      refine Or.inl ⟨row, ?_, identity, settled, references ▸ held⟩
      exact (rows row member).resolve_right fun removed => removed.2.1 referenced

/-- A published object survives every run that does not release its publication. -/
theorem runs_keep_published {digests : Digests} {point : Point} {object hash : String}
    {size : UInt64} (later : List Step) {world : World} (sound : world.Sound digests)
    (published : Published digests point world.db object hash size)
    (unreleased : ∀ count, point.id ∈
      (runs (Step.apply digests) world (later.take count)).db.publications.map PublicationRow.id) :
    Published digests point (runs (Step.apply digests) world later).db object hash size := by
  induction later generalizing world with
  | nil => exact published
  | cons head tail inductionHypothesis =>
      have rest := fun count => unreleased (count + 1)
      simp only [List.take_succ_cons, runs_cons] at rest
      rw [runs_cons]
      cases applied : head.apply digests world with
      | ok next =>
          rw [attempt_of_ok applied] at rest ⊢
          refine inductionHypothesis (sound.step applied) ?_ rest
          exact (Step.keeps_published sound applied published).resolve_right
            fun removed => removed (rest 0)
      | error failure =>
          rw [attempt_of_error applied] at rest ⊢
          exact inductionHypothesis sound published rest

/-- Whenever a publication completes, every block of its manifest names the one
ready object that stores its content, and no later run claims that object
before the publication is released. -/
theorem completed_blocks_published (digests : Digests) (steps : List Step) (publication : String)
    (clock : Nat → Int) (next : World)
    (completed : Step.apply digests (.complete publication clock)
      (runs (Step.apply digests) {} steps) = .ok next) :
    ∃ flight, next.flights publication = some flight ∧ flight.point.id = publication ∧
      (∀ block ∈ flight.blocks, ∀ hash, block.hash = some hash → ∃ row ∈ next.db.objects,
        block.object = some row.id ∧ row.state = .ready ∧ row.hash = hash ∧
          row.size = block.size.toInt64 ∧
          row.destination = digests.destination flight.point.location ∧
          ⟨publication, row.id⟩ ∈ next.db.references ∧
          ∀ later : List Step,
            (∀ count, publication ∈ (runs (Step.apply digests) next
              (later.take count)).db.publications.map PublicationRow.id) →
            let after := (runs (Step.apply digests) next later).db
            (∃ kept ∈ after.objects, kept.identity = row.identity ∧ kept.state ≠ .deleting) ∧
              ∀ cutoff clock, ∀ deletion ∈ (claim cutoff clock after).2,
                deletion.shared → deletion.id ≠ row.id) ∧
      ∀ first ∈ flight.blocks, ∀ second ∈ flight.blocks, first.hash.isSome →
        first.hash = second.hash → first.object = second.object := by
  have sound := World.Sound.runs (.empty digests) steps
  obtain ⟨old, db, rewritten, inFlight, uploaded, rfl⟩ := Step.complete_ok completed
  obtain ⟨rfl, oldPlaced⟩ := sound.flights publication old inFlight
  obtain ⟨placed, allReady⟩ := completeUploads_placed sound.inventory oldPlaced uploaded
  have landed := sound.step completed
  refine ⟨⟨old.point, rewritten⟩, Function.update_self .., rfl, ?_, placed.shared⟩
  intro block member hash isHash
  obtain ⟨object, isObject, row, rowMem, identity, held⟩ := placed.placed block member hash isHash
  have columns := identity
  simp only [ObjectRow.identity, Prod.mk.injEq] at columns
  obtain ⟨rfl, sameDestination, sameHash, sameSize⟩ := columns
  have ready := allReady row rowMem held
  refine ⟨row, rowMem, isObject, ready, sameHash, sameSize, sameDestination, held, ?_⟩
  intro later unreleased
  have published : Published digests old.point db row.id hash block.size :=
    ⟨row, rowMem, identity, by simp [ready], held⟩
  obtain ⟨kept, keptMem, keptIdentity, -, keptHeld⟩ :=
    runs_keep_published later landed published unreleased
  have after := (landed.runs later).inventory
  have same : kept.id = row.id := congrArg Prod.fst keptIdentity
  refine ⟨⟨kept, keptMem, keptIdentity.trans identity.symm, after.live kept keptMem
    ⟨_, keptHeld, same.symm⟩⟩, fun cutoff clock deletion claimed shared named => ?_⟩
  exact claim_unreferenced claimed shared ⟨_, keptHeld, named.symm⟩

/-- Two publications race on one block; the second takes the first's object. -/
theorem completed_blocks_published_race :
    ∃ next : World, ∃ flight, next.flights "second" = some flight ∧
      flight.blocks = [⟨some "h", 4, some "first-h"⟩] ∧
      ∀ block ∈ flight.blocks, ∀ hash, block.hash = some hash → ∃ row ∈ next.db.objects,
        block.object = some row.id ∧ row.state = .ready := by
  let digests : Digests := ⟨fun _ => "destination", fun _ key _ => key⟩
  let blocks : List Block := [⟨some "h", 4, none⟩]
  let steps : List Step := [
    .reserve ⟨"first", "run", ⟨none, none⟩⟩ (fun _ => "first-h") blocks,
    .reserve ⟨"second", "other-run", ⟨none, none⟩⟩ (fun _ => "second-h") blocks,
    .complete "first" fun _ => 0]
  have landed : ((Step.apply digests (.complete "second" fun _ => 1)
      (runs (Step.apply digests) {} steps)).toOption.bind fun next =>
        (next.flights "second").map Flight.blocks) = some [⟨some "h", 4, some "first-h"⟩] := by
    decide +kernel
  obtain ⟨next, completed, rewritten⟩ := Option.bind_eq_some_iff.mp landed
  replace completed := toOption_eq_some.mp completed
  obtain ⟨flight, inFlight, -, blocksReady, -⟩ :=
    completed_blocks_published digests steps "second" (fun _ => 1) next completed
  rw [inFlight] at rewritten
  refine ⟨next, flight, inFlight, Option.some.inj rewritten, fun block member hash isHash => ?_⟩
  obtain ⟨row, rowMem, isObject, ready, -⟩ := blocksReady block member hash isHash
  exact ⟨row, rowMem, isObject, ready⟩

end Cairn.Nodes.SharedBlocks

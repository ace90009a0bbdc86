import Cairn.Storage.Lazy.Journal

/-!
Owns the model of `LazyDisk` (`storage/lazy/mod.rs`, `storage/lazy/generations.rs`):
reads through the journal and the verified base, batched writes and their
group commit, sealing, capture and publication, and opening a directory.

Locks are not part of a call: every call here runs alone. Performance metrics,
the working set and the eviction of clean caches are left out; what the caches
and the source answer during a call is its `Blocks` argument. A payload cached by
`cached_record` is what `Record::read` returned for the same record, so the
model reads it again.
-/

set_option autoImplicit false

namespace Cairn.Storage.Lazy

universe u

variable {Hash : Type u} [DecidableEq Hash]

/-! ### Base blocks -/

/-- The in-memory block cache, which only admits verified bytes. -/
structure BlockCache (identities : Identities Hash) where
  entry : Hash → Option Bytes
  verified : ∀ hash bytes, entry hash = some bytes → identities.matchesBytes hash bytes

/-- What can be asked for an immutable block. -/
structure Blocks (identities : Identities Hash) where
  cache : BlockCache identities
  /-- The unverified files of the `cache` directory. -/
  directory : Hash → Option Bytes
  /-- `BlockSource::fetch`. -/
  fetch : Hash → Except String Bytes

variable {identities : Identities Hash}

/-- The length and content check of a fetched block. -/
def checkBlock (identities : Identities Hash) (hash : Hash) (size : Nat) (bytes : Bytes) :
    Option { bytes : Bytes // identities.matchesBytes hash bytes } :=
  if verified : bytes.length = size ∧ identities.matchesBytes hash bytes then some ⟨bytes, verified.2⟩
  else none

/-- `base_block`: memory cache, cache directory, then the source. What it
returns, and may remember, is verified. -/
def baseBlock (blocks : Blocks identities) (hash : Hash) (size : Nat) :
    Except String { bytes : Bytes // identities.matchesBytes hash bytes } :=
  match cached : blocks.cache.entry hash with
  | some bytes =>
    if bytes.length = size then .ok ⟨bytes, blocks.cache.verified hash bytes cached⟩
    else .error "Invalid cached block extent"
  | none =>
    match (blocks.directory hash).bind fun bytes =>
      checkBlock identities hash size (bytes.take (blockBytes + 1)) with
    | some bytes => .ok bytes
    | none =>
      match blocks.fetch hash with
      | .error failure => .error failure
      | .ok bytes =>
        match checkBlock identities hash size bytes with
        | some bytes => .ok bytes
        | none => .error "Remote block integrity check failed"

/-! ### The disk -/

/-- `Journal::stats`. -/
structure Stats where
  dirtyBytes : Nat
  dirtySince : Option Nat
  generation : Nat
  journalBytes : Nat
deriving DecidableEq, Repr

/-- `stats`. -/
def Journal.stats (journal : Journal) : Stats where
  dirtyBytes := journal.index.dirtyBytes
  dirtySince := journal.index.dirtySince
  generation := journal.generation
  journalBytes := journal.journalBytes

/-- `LazyDisk.accounting`. -/
structure Accounting where
  stats : Stats
  published : Option Receipt
deriving DecidableEq, Repr

/-- `LazyDisk`. -/
structure LazyDisk (Hash : Type u) extends Volume Hash where
  size : Nat
  base : Manifest Hash
  accounting : Accounting

/-- `DiskWrite`. -/
structure DiskWrite where
  offset : Nat
  bytes : Bytes
deriving DecidableEq, Repr

namespace LazyDisk

/-- `update_accounting`. -/
def updateAccounting (disk : LazyDisk Hash) : LazyDisk Hash :=
  { disk with accounting := { disk.accounting with stats := disk.journal.stats } }

/-- `check`. -/
def check (disk : LazyDisk Hash) (offset length : Nat) : Except String Unit :=
  if maxIo < length then .error "Disk request exceeds the I/O limit"
  else if disk.size < offset + length then .error "Disk access exceeds its size"
  else .ok ()

/-! ### Reads -/

/-- `bytes[from..].copy_from_slice(slice)`. -/
def splice (bytes : Bytes) (start : Nat) (slice : Bytes) : Bytes :=
  bytes.take start ++ slice ++ bytes.drop (start + slice.length)

/-- A partly filled buffer and the ranges that still need data. -/
structure Filling where
  bytes : Bytes
  missing : List (Nat × Nat)

/-- One gap of the record loop; `begin` and `finish` bound the record in the buffer. -/
def fillGap (offset start : Nat) (data : Bytes) (begin finish : Nat) (filling : Filling)
    (gap : Nat × Nat) : Filling :=
  let first := max gap.1 begin
  let last := min gap.2 finish
  if first < last then {
    bytes := splice filling.bytes first ((data.drop (offset + first - start)).take (last - first))
    missing := filling.missing ++ (if gap.1 < first then [(gap.1, first)] else []) ++
      (if last < gap.2 then [(last, gap.2)] else []) }
  else { filling with missing := filling.missing ++ [gap] }

/-- One record of the record loop. -/
def fillRecord (offset count start : Nat) (data : Bytes) (filling : Filling) : Filling :=
  let begin := max start offset - offset
  let finish := min (start + data.length) (offset + count) - offset
  filling.missing.foldl (fillGap offset start data begin finish) { filling with missing := [] }

/-- The record loop of `read_generation`. -/
def readRecords (checksums : Checksums) (store : Store Hash) (offset count : Nat) :
    List Record → Filling → Except String Filling
  | [], filling => .ok filling
  | record :: rest, filling =>
    match record.read checksums store with
    | .error failure => .error failure
    | .ok data =>
      let filled := fillRecord offset count record.start data filling
      if filled.missing = [] then .ok filled
      else readRecords checksums store offset count rest filled

/-- One gap of the base loop over the block `index`, absent for a null hash. -/
def fillBase (offset index start finish : Nat) (block : Option Bytes) (bytes : Bytes)
    (gap : Nat × Nat) : Bytes :=
  let first := max gap.1 start
  let last := min gap.2 finish
  if first < last then
    splice bytes first (match block with
      | some block => (block.drop (offset + first - index * blockBytes)).take (last - first)
      | none => List.replicate (last - first) 0)
  else bytes

/-- The bytes of a base block, nothing for a null hash. -/
def extentBytes (blocks : Blocks identities) (manifest : Manifest Hash) (index : Nat) :
    Except String (Option Bytes) :=
  match manifest.blocks[index]? with
  | none => .ok none
  | some extent =>
    match extent.hash with
    | none => .ok none
    | some hash => (fun bytes => some bytes.val) <$> baseBlock blocks hash extent.size

/-- The base loop of `read_generation`, block by block from `position`. -/
def readBase (blocks : Nat → Blocks identities) (manifest : Manifest Hash) (offset finish : Nat)
    (missing : List (Nat × Nat)) : List Nat → Nat → Bytes → Except String Bytes
  | [], _, bytes => .ok bytes
  | index :: rest, position, bytes =>
    let limit := min ((index + 1) * blockBytes) finish
    if missing.any fun gap => gap.1 < limit - offset ∧ position - offset < gap.2 then
      match extentBytes (blocks index) manifest index with
      | .error failure => .error failure
      | .ok block =>
        readBase blocks manifest offset finish missing rest limit
          (missing.foldl (fillBase offset index (position - offset) (limit - offset) block) bytes)
    else readBase blocks manifest offset finish missing rest limit bytes

/-- `read_generation`; `blocks` answers for each block of the base it needs. -/
def readGeneration (checksums : Checksums) (blocks : Nat → Blocks identities) (disk : LazyDisk Hash)
    (generation offset count : Nat) : Except String Bytes :=
  match disk.check offset count with
  | .error failure => .error failure
  | .ok () =>
    if count = 0 then .ok []
    else
      let records := disk.journal.index.overlapping generation offset (offset + count)
      match readRecords checksums disk.store offset count records
        { bytes := List.replicate count 0, missing := [(0, count)] } with
      | .error failure => .error failure
      | .ok filling =>
        if filling.missing = [] then .ok filling.bytes
        else readBase blocks disk.base offset (offset + count) filling.missing
          (touchedBlocks offset (offset + count)) offset filling.bytes

/-- `read_at`. -/
def readAt (checksums : Checksums) (blocks : Nat → Blocks identities) (disk : LazyDisk Hash)
    (offset count : Nat) : Except String Bytes :=
  disk.readGeneration checksums blocks i64Max offset count

/-! ### Writes -/

/-- The size checks of `append_writes`. -/
def checkWrites (disk : LazyDisk Hash) : List DiskWrite → Nat → Except String Nat
  | [], total => .ok total
  | write :: rest, total =>
    match disk.check write.offset write.bytes.length with
    | .error failure => .error failure
    | .ok () =>
      if maxIo < total + write.bytes.length then .error "Disk write batch exceeds its byte limit"
      else disk.checkWrites rest (total + write.bytes.length)

/-- The append loop of `append_writes`; the first failure fails the journal. -/
def appendAll (checksums : Checksums) :
    (Nat → AppendEnv) → List DiskWrite → Option Nat → Volume Hash →
      Volume Hash × Except String (Option Nat)
  | _, [], last, volume => (volume, .ok last)
  | env, write :: rest, last, volume =>
    if write.bytes = [] then appendAll checksums (fun count => env (count + 1)) rest last volume
    else
      match volume.append checksums (env 0) write.offset write.bytes with
      | (volume, .error failure) => ({ volume with journal := volume.journal.fail }, .error failure)
      | (volume, .ok sequence) =>
        appendAll checksums (fun count => env (count + 1)) rest (some sequence) volume

/-- `append_writes` up to the group commit: the last sequence, none for no bytes. -/
def stageWrites (checksums : Checksums) (env : Nat → AppendEnv) (writes : List DiskWrite)
    (disk : LazyDisk Hash) : LazyDisk Hash × Except String (Option Nat) :=
  if 128 < writes.length then (disk, .error "Too many disk writes in one batch")
  else
    match disk.checkWrites writes 0 with
    | .error failure => (disk, .error failure)
    | .ok total =>
      if total = 0 then (disk, .ok none)
      else
        match appendAll checksums env writes none disk.toVolume with
        | (volume, .error failure) => ({ disk with toVolume := volume }, .error failure)
        | (volume, .ok last) => (updateAccounting { disk with toVolume := volume }, .ok last)

/-- `CommitBatch::sync`; the `fault`-th file cannot be synced. -/
def syncFiles : Option Nat → List SegmentName → Store Hash → Store Hash × Except String Unit
  | _, [], store => (store, .ok ())
  | some 0, _ :: _, store => (store, .error "Segment sync failed")
  | fault, name :: rest, store =>
    syncFiles (fault.map (· - 1)) rest (store.modifyFile name File.sync)

/-- `commit_write`. -/
def commitWrite (fault : Option Nat) (sequence : Nat) (disk : LazyDisk Hash) :
    LazyDisk Hash × Except String Unit :=
  match disk.journal.commitBatch sequence with
  | .error failure => (disk, .error failure)
  | .ok none => (disk, .ok ())
  | .ok (some batch) =>
    match syncFiles fault batch.files disk.store with
    | (store, .error failure) =>
      ({ disk with store, journal := disk.journal.fail }, .error failure)
    | (store, .ok ()) =>
      match disk.journal.committed batch with
      | .error failure => ({ disk with store }, .error failure)
      | .ok journal => ({ disk with store, journal }, .ok ())

/-- What a write call meets: the clock and failure of each append, and the file
of its group commit that cannot be synced. -/
structure WriteEnv where
  append : Nat → AppendEnv := fun _ => {}
  sync : Option Nat := none

/-- `append_writes`, the body of `write_at` and `write_batch`. -/
def appendWrites (checksums : Checksums) (env : WriteEnv) (writes : List DiskWrite)
    (disk : LazyDisk Hash) : LazyDisk Hash × Except String Unit :=
  match disk.stageWrites checksums env.append writes with
  | (disk, .error failure) => (disk, .error failure)
  | (disk, .ok none) => (disk, .ok ())
  | (disk, .ok (some last)) => disk.commitWrite env.sync last

/-! ### Generations -/

/-- Where a metadata transaction fails. -/
inductive TransactionFault where
  | statement
  /-- The commit reports an error, possibly after it became durable. -/
  | commit (durable : Bool)
deriving DecidableEq, Repr

/-- `seal_with_completion`; `completed` is the time of a completion receipt. -/
def sealWithCompletion (fault : Option TransactionFault) (completed : Option Nat)
    (disk : LazyDisk Hash) : LazyDisk Hash × Except String Nat :=
  match disk.journal.sync with
  | .error failure => (disk, .error failure)
  | .ok () =>
    let db := disk.store.db
    if db.generation = i64Max then (disk, .error "Generation exhausted")
    else if (db.captures db.generation).isSome then
      (disk, .error "UNIQUE constraint failed: sealed.generation")
    else
      let next := { db with
        captures := Function.update db.captures db.generation (some none)
        generation := db.generation + 1
        nextSequence := disk.journal.next
        completed := (completed.map fun capturedAt => ⟨db.generation, capturedAt⟩).or db.completed }
      match fault with
      | some .statement => (disk, .error "Seal transaction failed")
      | some (.commit durable) =>
        ({ disk with
            store := if durable then { disk.store with db := next } else disk.store
            journal := disk.journal.fail }, .error "Seal commit failed")
      | none =>
        (updateAccounting { disk with
            store := { disk.store with db := next }
            journal := disk.journal.sealed (db.generation + 1) }, .ok db.generation)

/-- The bytes of a block of a generation, as `capture` reconstructs them. -/
def reconstruct (checksums : Checksums) (blocks : Nat → Blocks identities) (disk : LazyDisk Hash)
    (generation index : Nat) : Except String Bytes :=
  disk.readGeneration checksums blocks generation (index * blockBytes)
    (min (disk.size - index * blockBytes) blockBytes)

/-- The hash `capture` stores for reconstructed bytes. -/
def captureHash (identities : Identities Hash) (bytes : Bytes) : Option Hash :=
  if bytes.all fun byte => byte = 0 then none else some (identities.block bytes)

/-- `manifest["blocks"][index]["hash"] = hash`. -/
def Manifest.setHash (manifest : Manifest Hash) (index : Nat) (hash : Option Hash) : Manifest Hash :=
  { manifest with blocks := manifest.blocks.modify index fun extent => { extent with hash } }

/-- The block loop of `capture`. -/
def captureBlocks (checksums : Checksums) (blocks : Nat → Blocks identities) (disk : LazyDisk Hash)
    (generation : Nat) : List Nat → Manifest Hash → Except String (Manifest Hash)
  | [], manifest => .ok manifest
  | index :: rest, manifest =>
    match disk.reconstruct checksums blocks generation index with
    | .error failure => .error failure
    | .ok bytes =>
      disk.captureBlocks checksums blocks generation rest
        (Manifest.setHash manifest index (captureHash identities bytes))

/-- `capture`; `stored` is false when the final update fails. -/
def capture (checksums : Checksums) (blocks : Nat → Blocks identities) (stored : Bool)
    (generation : Nat) (disk : LazyDisk Hash) : LazyDisk Hash × Except String (Manifest Hash) :=
  match disk.store.db.captures generation with
  | none => (disk, .error "Query returned no rows")
  | some (some manifest) => (disk, .ok manifest)
  | some none =>
    match disk.captureBlocks checksums blocks generation
      (disk.journal.index.changed generation) disk.store.db.manifest with
    | .error failure => (disk, .error failure)
    | .ok manifest =>
      if stored then
        ({ disk with store := { disk.store with db := { disk.store.db with
            captures := Function.update disk.store.db.captures generation (some (some manifest)) } } },
          .ok manifest)
      else (disk, .error "Capture could not be stored")

/-- `captured_block`. -/
def capturedBlock (checksums : Checksums) (blocks : Nat → Blocks identities) (generation : Nat)
    (hash : Hash) (disk : LazyDisk Hash) : Except String Bytes :=
  match disk.store.db.captures generation with
  | none => .error "Query returned no rows"
  | some none => .error "Invalid column type Null"
  | some (some manifest) =>
    match manifest.blocks.find? fun extent => extent.hash = some hash with
    | none => .error "Block outside captured generation"
    | some extent =>
      if blockBytes < extent.size then .error "Invalid extent"
      else
        match disk.readGeneration checksums blocks generation extent.offset extent.size with
        | .error failure => .error failure
        | .ok bytes =>
          if identities.matchesBytes hash bytes then .ok bytes
          else .error "Captured generation changed"

/-! ### Publication -/

/-- The rows of the publication transaction. -/
def publishRows (receipt : Receipt) (manifest : Manifest Hash) (db : Db Hash) : Db Hash :=
  { db with
    manifest
    segments := db.segments.filter fun row => receipt.generation < row.generation
    captures := fun generation =>
      if generation ≤ receipt.generation then none else db.captures generation
    published := some receipt }

/-- The manifest that the publication transaction installs. -/
def publishedManifest (receipt : Receipt) (db : Db Hash) : Except String (Manifest Hash) :=
  -- A commit whose response was lost is reconciled with the state it left.
  if db.published = some receipt then .ok db.manifest
  else
    match db.captures receipt.generation with
    | none => .error "Query returned no rows"
    | some none => .error "Invalid column type Null"
    | some (some manifest) => .ok manifest

/-- `Journal::reclaim`, which stops at its first failure. -/
def reclaim (store : Store Hash) (retired : List SegmentName) : Store Hash :=
  { store with files := fun name => if name ∈ retired then none else store.files name }

/-- The state in memory after a committed publication, before reclamation. -/
def publishMemory (receipt : Receipt) (manifest : Manifest Hash) (disk : LazyDisk Hash) :
    LazyDisk Hash :=
  let published := updateAccounting { disk with
    base := manifest
    journal := (disk.journal.retire receipt.generation).1 }
  { published with accounting := { published.accounting with published := some receipt } }

/-- `commit_published`; `reclaimed` retired files are removed before a failure
that is only logged. -/
def commitPublished (identities : Identities Hash) (fault : Option TransactionFault)
    (reclaimed : Nat) (receipt : Receipt) (disk : LazyDisk Hash) :
    LazyDisk Hash × Except String Unit :=
  if disk.store.db.published = some receipt ∧ disk.accounting.published = some receipt then
    (disk, .ok ())
  else
    match publishedManifest receipt disk.store.db with
    | .error failure => (disk, .error failure)
    | .ok manifest =>
      match validate identities manifest with
      | .error failure => (disk, .error failure)
      | .ok _ =>
        let committed := { disk with store := { disk.store with
          db := publishRows receipt manifest disk.store.db } }
        match fault with
        | some .statement => (disk, .error "Publication transaction failed")
        | some (.commit durable) =>
          (if durable then committed else disk, .error "Publication commit failed")
        | none =>
          let published := publishMemory receipt manifest committed
          let retired := (disk.journal.retire receipt.generation).2
          ({ published with store := reclaim published.store (retired.take reclaimed) }, .ok ())

/-! ### `connect` -/

/-- `connect` on an existing directory, `open`. -/
def openDirectory (identities : Identities Hash) (checksums : Checksums) (store : Store Hash) :
    Except String (LazyDisk Hash) :=
  match validate identities store.db.manifest with
  | .error failure => .error failure
  | .ok size =>
    match Journal.open checksums size store with
    | .error failure => .error failure
    | .ok volume => .ok {
        toVolume := volume
        size
        base := store.db.manifest
        accounting := { stats := volume.journal.stats, published := store.db.published } }

/-- The directory `metadata` initialises. -/
def freshStore (manifest : Manifest Hash) (generation : Nat) : Store Hash where
  db := { manifest, generation, nextSequence := 1 }

/-- `create_at_generation`. -/
def createAtGeneration (identities : Identities Hash) (checksums : Checksums)
    (manifest : Manifest Hash) (generation : Nat) : Except String (LazyDisk Hash) :=
  match validate identities manifest with
  | .error failure => .error failure
  | .ok _ =>
    if generation < 1 ∨ generation = i64Max then .error "Invalid initial journal generation"
    else openDirectory identities checksums (freshStore manifest generation)

end LazyDisk

end Cairn.Storage.Lazy

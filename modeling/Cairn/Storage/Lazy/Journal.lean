import Cairn.Storage.Lazy.Index

/-!
Owns the model of the segmented journal (`storage/lazy/journal.rs`): the rows
and files it persists, the counters it keeps in memory, and every operation on
them, with the input/output failures each can meet. Cursors into SQLite, file
modes and the migration of the previous journal format are left out.

A segment file is its bytes and how many of them the last completed
`sync_data` covered. An open file handle is modelled by the name of its file:
no file is removed while a live segment names it.
-/

set_option autoImplicit false

namespace Cairn.Storage.Lazy

universe u

variable {Hash : Type u}

/-! ### What is persisted -/

/-- A segment file. -/
structure File where
  bytes : Bytes
  synced : Nat
deriving DecidableEq, Repr

/-- `write_all_at`. -/
def File.writeAt (file : File) (position : Nat) (data : Bytes) : File :=
  { file with bytes := file.bytes.take position ++ data ++ file.bytes.drop (position + data.length) }

/-- `sync_data`. -/
def File.sync (file : File) : File := { file with synced := file.bytes.length }

/-- A row of `segments`. -/
structure Descriptor where
  name : SegmentName
  generation : Nat
  first : Nat
deriving DecidableEq, Repr

/-- The receipt stored under `settings.published`. -/
structure Receipt where
  generation : Nat
  backupId : String
deriving DecidableEq, Repr

/-- The receipt stored under `settings.completed`. -/
structure Completion where
  generation : Nat
  capturedAt : Nat
deriving DecidableEq, Repr

/-- The tables of `journal-v2.sqlite`. -/
structure Db (Hash : Type u) where
  manifest : Manifest Hash
  generation : Nat
  nextSequence : Nat
  /-- `sealed`: absent, sealed, or captured. -/
  captures : Nat → Option (Option (Manifest Hash)) := fun _ => none
  segments : List Descriptor := []
  published : Option Receipt := none
  completed : Option Completion := none

/-- The disk directory: the tables and the segment files. -/
structure Store (Hash : Type u) where
  db : Db Hash
  files : SegmentName → Option File := fun _ => none

/-- `published(db)["generation"].as_i64().unwrap_or(0)`. -/
def Db.cutoff (db : Db Hash) : Nat := (db.published.map Receipt.generation).getD 0

/-- Writes through the handle of a segment. -/
def Store.modifyFile (store : Store Hash) (name : SegmentName) (change : File → File) : Store Hash :=
  { store with files := Function.update store.files name ((store.files name).map change) }

/-! ### What is kept in memory -/

/-- `Segment`. -/
structure Segment where
  name : SegmentName
  generation : Nat
  length : Nat
deriving DecidableEq, Repr

/-- `CommitBatch`. -/
structure CommitBatch where
  through : Nat
  frames : Nat
  files : List SegmentName
deriving DecidableEq, Repr

/-- `Journal`. -/
structure Journal where
  index : Index := {}
  segments : List Segment := []
  active : Option Nat := none
  generation : Nat
  next : Nat
  failed : Bool := false
  durableThrough : Nat
  /-- The last frame of every segment with unsynced frames. -/
  pending : List (SegmentName × Nat) := []
  journalBytes : Nat := 0

/-- The store and the journal that reads and writes it. -/
structure Volume (Hash : Type u) where
  store : Store Hash
  journal : Journal

namespace Journal

/-- `check_health`. -/
def checkHealth (journal : Journal) : Except String Unit :=
  if journal.failed then .error "Journal needs recovery after failed append" else .ok ()

/-- `fail`. -/
def fail (journal : Journal) : Journal := { journal with failed := true }

/-- `sync`. -/
def sync (journal : Journal) : Except String Unit := do
  journal.checkHealth
  if journal.pending ≠ [] then throw "Journal still has uncommitted writes"

/-- `sealed`. -/
def sealed (journal : Journal) (generation : Nat) : Journal :=
  { journal with generation, active := none }

/-- `commit_batch`. -/
def commitBatch (journal : Journal) (sequence : Nat) : Except String (Option CommitBatch) := do
  journal.checkHealth
  if sequence ≤ journal.durableThrough then return none
  else if journal.next ≤ sequence ∨ journal.pending = [] then
    throw "Invalid journal commit sequence"
  else return some {
    through := journal.next - 1
    frames := journal.next - 1 - journal.durableThrough
    files := journal.pending.map Prod.fst }

/-- `committed`. -/
def committed (journal : Journal) (batch : CommitBatch) : Except String Journal := do
  journal.checkHealth
  return { journal with
    durableThrough := batch.through
    pending := journal.pending.filter fun entry => batch.through < entry.2 }

/-- `retire`: the journal without the published generations, and their files. -/
def retire (journal : Journal) (generation : Nat) : Journal × List SegmentName :=
  let segments := journal.segments.filter fun segment => generation < segment.generation
  ({ journal with
      index := journal.index.retire generation
      segments
      active := none
      journalBytes := (segments.map Segment.length).sum },
    (journal.segments.filter fun segment => segment.generation ≤ generation).map Segment.name)

/-- `BTreeMap::insert` on `pending`. -/
def setPending (journal : Journal) (name : SegmentName) : List (SegmentName × Nat) :=
  journal.pending.filter (fun entry => entry.1 ≠ name) ++ [(name, journal.next)]

/-- The segment that `append` writes to, unless it must rotate. -/
def roomFor (journal : Journal) (count : Nat) : Option (Nat × Segment) := do
  let index ← journal.active
  let segment ← journal.segments[index]?
  if segment.length + headerBytes + count > segmentBytes then none else some (index, segment)

end Journal

/-! ### `append` -/

/-- Where an append fails. -/
inductive AppendFault where
  /-- `create_new` fails. -/
  | create
  /-- The new file or its directory cannot be synced. -/
  | prepare
  /-- The descriptor transaction fails, possibly after it became durable. -/
  | transaction (durable : Bool)
  /-- Only a part of the frame reaches the file. -/
  | write (count : Nat)
deriving DecidableEq, Repr

/-- The clock an append reads, and its failure. -/
structure AppendEnv where
  now : Nat := 0
  fault : Option AppendFault := none

namespace Volume

/-- The rotation of `append`: a durable empty file, then its durable descriptor. -/
def rotate (env : AppendEnv) (volume : Volume Hash) : Volume Hash × Except String Unit :=
  let journal := volume.journal
  let name : SegmentName := ⟨journal.generation, journal.next⟩
  if env.fault = some .create then (volume, .error "Segment creation failed")
  else if (volume.store.files name).isSome then (volume, .error "File exists")
  else
    let files := Function.update volume.store.files name (some ⟨[], 0⟩)
    let created : Volume Hash := { volume with store := { volume.store with files } }
    if env.fault = some .prepare then (created, .error "Segment sync failed")
    else if ∃ row ∈ volume.store.db.segments, row.name = name ∨ row.first = journal.next then
      (created, .error "UNIQUE constraint failed: segments.first_sequence")
    else
      let db := { volume.store.db with
        segments := volume.store.db.segments ++ [⟨name, journal.generation, journal.next⟩]
        nextSequence := journal.next }
      match env.fault with
      | some (.transaction durable) =>
        (if durable then { volume with store := ⟨db, files⟩ } else created,
          .error "Segment transaction failed")
      | _ =>
        (⟨⟨db, files⟩, { journal with
            segments := journal.segments ++ [⟨name, journal.generation, 0⟩]
            active := some journal.segments.length }⟩, .ok ())

/-- The frame `append` writes. -/
def frameOf (env : AppendEnv) (journal : Journal) (offset : Nat) (data : Bytes) : Frame where
  sequence := journal.next
  generation := journal.generation
  start := offset
  data := data
  writtenAt := min env.now i64Max

/-- The record of a frame at a position of a segment. -/
def recordOf (checksums : Checksums) (name : SegmentName) (position : Nat) (frame : Frame) : Record where
  sequence := frame.sequence
  generation := frame.generation
  start := frame.start
  stop := frame.stop
  writtenAt := frame.writtenAt
  file := name
  position := position
  header := frame.header checksums

/-- The frame write of `append`. -/
def writeFrame (checksums : Checksums) (env : AppendEnv) (offset : Nat) (data : Bytes)
    (volume : Volume Hash) : Volume Hash × Except String Nat :=
  let journal := volume.journal
  match journal.active.bind fun index => (journal.segments[index]?).map (index, ·) with
  | none => (volume, .error "No active segment")
  | some (index, segment) =>
    let frame := frameOf env journal offset data
    match env.fault with
    | some (.write count) =>
      let written := (frame.encode checksums).take (min count (frame.length - 1))
      ({ store := volume.store.modifyFile segment.name fun file => file.writeAt segment.length written
         journal := journal.fail }, .error "Segment write failed")
    | _ =>
      ({ store := volume.store.modifyFile segment.name fun file =>
           file.writeAt segment.length (frame.encode checksums)
         journal := { journal with
           segments := journal.segments.set index
             { segment with length := segment.length + headerBytes + data.length }
           journalBytes := journal.journalBytes + (headerBytes + data.length)
           pending := journal.setPending segment.name
           index := journal.index.insert (recordOf checksums segment.name segment.length frame)
           next := journal.next + 1 } }, .ok journal.next)

/-- `Journal::append`. -/
def append (checksums : Checksums) (env : AppendEnv) (offset : Nat) (data : Bytes)
    (volume : Volume Hash) : Volume Hash × Except String Nat :=
  if volume.journal.failed then (volume, .error "Journal needs recovery after failed append")
  else if volume.journal.next = i64Max then (volume, .error "Journal sequence exhausted")
  else
    match volume.journal.roomFor data.length with
    | some _ => volume.writeFrame checksums env offset data
    | none =>
      match volume.rotate env with
      | (rotated, .error failure) => (rotated, .error failure)
      | (rotated, .ok ()) => rotated.writeFrame checksums env offset data

end Volume

/-! ### `Record::read` -/

/-- `read_exact_at`. -/
def File.readExact (file : File) (position count : Nat) : Except String Bytes :=
  if position + count ≤ file.bytes.length then .ok ((file.bytes.drop position).take count)
  else .error "failed to fill whole buffer"

/-- `Record::read`. -/
def Record.read (checksums : Checksums) (store : Store Hash) (record : Record) :
    Except String Bytes := do
  match store.files record.file with
  | none => throw "No such file or directory"
  | some file =>
    let actual ← file.readExact record.position headerBytes
    let data ← file.readExact (record.position + headerBytes) (record.stop - record.start)
    if actual ≠ record.header ∨ ¬ headerMatches checksums actual ∨
        ¬ payloadMatches checksums actual data then
      throw "Local journal integrity check failed"
    else return data

/-! ### `Journal::open` -/

/-- The frame check of `Journal::open`. -/
def ValidHeader (descriptor : Descriptor) (size position previous : Nat) (header : Bytes)
    (fields : Header) : Prop :=
  (header.take 8 = magic ∨ header.take 8 = legacyMagic) ∧
    (descriptor.first : Int) ≤ fields.sequence ∧ (previous : Int) < fields.sequence ∧
    (position = 0 → fields.sequence = descriptor.first) ∧
    (0 < position → fields.sequence = previous + 1) ∧
    fields.generation = descriptor.generation ∧ 0 ≤ fields.start ∧ 0 < fields.count ∧
    fields.count ≤ maxIo ∧ fields.start + fields.count ≤ size ∧ 0 ≤ fields.writtenAt

instance (descriptor : Descriptor) (size position previous : Nat) (header : Bytes)
    (fields : Header) : Decidable (ValidHeader descriptor size position previous header fields) := by
  unfold ValidHeader
  infer_instance

/-- What a scan recovers from one segment. -/
structure Scanned where
  records : List Record := []
  position : Nat
  previous : Nat

/-- The frame loop of `Journal::open` over the unread rest of a segment. -/
def scanFrames (checksums : Checksums) (size : Nat) (descriptor : Descriptor) (tail : Bool) :
    Nat → Bytes → Nat → Nat → Except String Scanned
  | 0, _, position, previous => .ok { position, previous }
  | fuel + 1, rest, position, previous =>
    if rest = [] then .ok { position, previous }
    else if rest.length < headerBytes then
      if tail then .ok { position, previous } else .error "Truncated sealed journal"
    else
      let header := rest.take headerBytes
      let fields := Header.read header
      if ¬ headerMatches checksums header then .error "Invalid journal header checksum"
      else if ¬ ValidHeader descriptor size position previous header fields then
        .error "Invalid journal frame"
      else
        let count := fields.count.toNat
        if rest.length - headerBytes < count then
          if tail then .ok { position, previous } else .error "Truncated sealed journal"
        else if ¬ payloadMatches checksums header ((rest.drop headerBytes).take count) then
          .error "Local journal integrity check failed"
        else if fields.sequence = i64Max then .error "Journal sequence exhausted"
        else
          let record : Record := {
            sequence := fields.sequence.toNat
            generation := descriptor.generation
            start := fields.start.toNat
            stop := fields.start.toNat + count
            writtenAt := fields.writtenAt.toNat
            file := descriptor.name
            position
            header }
          match scanFrames checksums size descriptor tail fuel (rest.drop (headerBytes + count))
            (position + headerBytes + count) record.sequence with
          | .error failure => .error failure
          | .ok scanned => .ok { scanned with records := record :: scanned.records }

/-- The descriptor loop of `Journal::open`: the segments, their records, and the
files cut behind the last complete frame and synced. -/
def scanSegments (checksums : Checksums) (size cutoff generation : Nat) :
    List Descriptor → Nat → (SegmentName → Option File) →
      Except String (List Segment × List Record × (SegmentName → Option File))
  | [], _, files => .ok ([], [], files)
  | descriptor :: rest, previous, files =>
    if descriptor.generation ≤ cutoff ∨ generation < descriptor.generation ∨
        descriptor.first < 1 ∨ descriptor.name ≠ ⟨descriptor.generation, descriptor.first⟩ then
      .error "Invalid journal segment descriptor"
    else
      match files descriptor.name with
      | none => .error "No such file or directory"
      | some file =>
        let tail := rest.isEmpty && descriptor.generation = generation
        match scanFrames checksums size descriptor tail file.bytes.length file.bytes 0 previous with
        | .error failure => .error failure
        | .ok scanned =>
          let cut : File := ⟨file.bytes.take scanned.position, scanned.position⟩
          match scanSegments checksums size cutoff generation rest scanned.previous
            (Function.update files descriptor.name (some cut)) with
          | .error failure => .error failure
          | .ok (segments, records, files) =>
            .ok (⟨descriptor.name, descriptor.generation, scanned.position⟩ :: segments,
              scanned.records ++ records, files)

/-- The index `Journal::open` makes active: the last descriptor, if it is of the
current generation. -/
def activeIndex (generation : Nat) (descriptors : List Descriptor) : Option Nat :=
  match descriptors.getLast? with
  | none => none
  | some last => if last.generation = generation then some (descriptors.length - 1) else none

/-- `Journal::open`: the journal of a store, and the store with cut tails and
without the payload files that no descriptor names. -/
def Journal.open (checksums : Checksums) (size : Nat) (store : Store Hash) :
    Except String (Volume Hash) :=
  let db := store.db
  if db.generation < 1 ∨ db.nextSequence < 1 then .error "Invalid journal counters"
  else if db.generation ≤ db.cutoff then .error "Invalid publication cutoff"
  else
    let descriptors := db.segments.insertionSort fun first second => first.first ≤ second.first
    match scanSegments checksums size db.cutoff db.generation descriptors 0 store.files with
    | .error failure => .error failure
    | .ok (segments, records, files) =>
      let next := records.foldl (fun next record => max next (record.sequence + 1)) db.nextSequence
      .ok {
        store := { db, files := fun name =>
          if name ∈ descriptors.map Descriptor.name then files name else none }
        journal := {
          index := ({} : Index).insertAll records
          segments
          active := activeIndex db.generation descriptors
          generation := db.generation
          next
          durableThrough := next - 1
          journalBytes := (segments.map Segment.length).sum } }

end Cairn.Storage.Lazy

import Cairn.Library.OrderedMaps
import Cairn.Storage.Lazy.Frame
import Mathlib.Data.List.Dedup
import Mathlib.Data.List.Sort

/-!
Owns the in-memory index of a journal (`storage/lazy/journal.rs`): the records
of its frames by sequence and by block, the newest record of every exact range,
and the byte and age accounting of every generation.

Records of the migrated journal format (`Location::Legacy`) are not modelled.
-/

set_option autoImplicit false

namespace Cairn.Storage.Lazy

open Std (ExtTreeMap)
open Cairn.Library.OrderedMaps

/-- The file name `payload-{generation}-{first}.segment`. -/
structure SegmentName where
  generation : Nat
  first : Nat
deriving DecidableEq, Repr

/-- `Record`, located in a segment. -/
structure Record where
  sequence : Nat
  generation : Nat
  start : Nat
  stop : Nat
  writtenAt : Nat
  file : SegmentName
  position : Nat
  header : Bytes
deriving DecidableEq, Repr

/-- The block numbers of `start / BLOCK..end.div_ceil(BLOCK)`. -/
def touchedBlocks (start stop : Nat) : List Nat :=
  List.range' (start / blockBytes) (divCeil stop blockBytes - start / blockBytes)

/-- The blocks a record touches. -/
def Record.blocks (record : Record) : List Nat := touchedBlocks record.start record.stop

/-- `BTreeMap::entry(..).or_default()` on the block indexes. -/
def entriesAt (blocks : ExtTreeMap Nat (ExtTreeMap Nat Record)) (block : Nat) :
    ExtTreeMap Nat Record := blocks[block]?.getD ∅

/-- The index fields of `Journal`. -/
structure Index where
  records : ExtTreeMap Nat Record := ∅
  blocks : ExtTreeMap Nat (ExtTreeMap Nat Record) := ∅
  /-- Keyed by generation, start and end. -/
  latest : Nat × Nat × Nat → Option Nat := fun _ => none
  /-- Bytes written and the oldest write, by generation. -/
  epochs : ExtTreeMap Nat (Nat × Nat) := ∅
  dirtyBytes : Nat := 0
  dirtySince : Option Nat := none

namespace Index

/-- The accounting half of `Journal::insert`. -/
def account (index : Index) (record : Record) : Index :=
  let epoch := index.epochs[record.generation]?.getD (0, record.writtenAt)
  { index with
    epochs := index.epochs.insert record.generation
      (epoch.1 + (record.stop - record.start), min epoch.2 record.writtenAt)
    dirtyBytes := index.dirtyBytes + (record.stop - record.start)
    dirtySince := some (index.dirtySince.elim record.writtenAt fun at_ => min at_ record.writtenAt) }

/-- Drops the record that an exact overwrite supersedes. -/
def supersede (index : Index) (record : Record) : Index :=
  match index.latest (record.generation, record.start, record.stop) with
  | none => index
  | some previous =>
    { index with
      records := index.records.erase previous
      blocks := record.blocks.foldl (fun blocks block =>
        blocks.modify block fun entries => entries.erase previous) index.blocks }

/-- Files a record under its sequence, its blocks and its exact range. -/
def file (index : Index) (record : Record) : Index :=
  { index with
    latest := Function.update index.latest (record.generation, record.start, record.stop)
      (some record.sequence)
    blocks := record.blocks.foldl (fun blocks block =>
      blocks.insert block ((entriesAt blocks block).insert record.sequence record)) index.blocks
    records := index.records.insert record.sequence record }

/-- `Journal::insert`. -/
def insert (index : Index) (record : Record) : Index :=
  ((index.account record).supersede record).file record

/-- `Journal::insert` along a scan. -/
def insertAll (index : Index) (records : List Record) : Index :=
  records.foldl insert index

/-- The index half of `Journal::retire`. -/
def retire (index : Index) (generation : Nat) : Index :=
  let epochs := index.epochs.filter fun epoch _ => generation < epoch
  { records := index.records.filter fun _ record => generation < record.generation
    latest := fun range => if generation < range.1 then index.latest range else none
    epochs
    blocks := index.blocks.filterMap fun _ entries =>
      let kept := entries.filter fun _ record => generation < record.generation
      if kept.isEmpty then none else some kept
    dirtyBytes := ((values epochs).map Prod.fst).sum
    dirtySince := ((values epochs).map Prod.snd).min? }

/-- `Journal::changed`. -/
def changed (index : Index) (generation : Nat) : List Nat :=
  (((values index.records).filter fun record => record.generation ≤ generation).flatMap
    Record.blocks).dedup.insertionSort (· ≤ ·)

/-! ### `overlapping` -/

/-- One step of the gap loop: what a record leaves of a gap. -/
def cutGap (start stop : Nat) (gap : Nat × Nat) : List (Nat × Nat) :=
  if gap.2 ≤ start ∨ stop ≤ gap.1 then [gap]
  else (if gap.1 < start then [(gap.1, start)] else []) ++
    (if stop < gap.2 then [(stop, gap.2)] else [])

/-- `needed`: some gap overlaps the record. -/
def needed (start stop : Nat) (missing : List (Nat × Nat)) : Bool :=
  missing.any fun gap => ¬ (gap.2 ≤ start ∨ stop ≤ gap.1)

/-- Takes the newest head of the block iterators, `max_by_key`'s last maximum. -/
def takeNewest : List (List Record) → Option (Record × List (List Record))
  | [] => none
  | entries :: rest =>
    match takeNewest rest, entries with
    | none, [] => none
    | none, record :: others => some (record, others :: rest)
    | some (best, remaining), record :: others =>
      if best.sequence < record.sequence then some (record, others :: rest)
      else some (best, entries :: remaining)
    | some (best, remaining), [] => some (best, [] :: remaining)

/-- The loop of `overlapping` over newest-first block iterators. -/
def overlappingLoop (generation start stop : Nat) :
    Nat → List (List Record) → Option Nat → List (Nat × Nat) → List Record
  | 0, _, _, _ => []
  | fuel + 1, indexes, previous, missing =>
    match takeNewest indexes with
    | none => []
    | some (record, indexes) =>
      if previous = some record.sequence then
        overlappingLoop generation start stop fuel indexes previous missing
      else if generation < record.generation ∨ stop ≤ record.start ∨ record.stop ≤ start then
        overlappingLoop generation start stop fuel indexes (some record.sequence) missing
      else
        let next := missing.flatMap (cutGap record.start record.stop)
        let rest := if next.isEmpty then []
          else overlappingLoop generation start stop fuel indexes (some record.sequence) next
        if needed record.start record.stop missing then record :: rest else rest

/-- The block iterators of a range, newest first. -/
def iterators (index : Index) (start stop : Nat) : List (List Record) :=
  (touchedBlocks start stop).filterMap fun block =>
    index.blocks[block]?.map fun entries => (values entries).reverse

/-- `Journal::overlapping`. -/
def overlapping (index : Index) (generation start stop : Nat) : List Record :=
  let indexes := index.iterators start stop
  overlappingLoop generation start stop ((indexes.map List.length).sum + 1) indexes none
    [(start, stop)]

end Index

end Cairn.Storage.Lazy

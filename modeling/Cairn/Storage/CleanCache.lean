import Cairn.Library.HashMaps
import Cairn.Library.Steps
import Mathlib.Data.Finset.Max
import Mathlib.Data.Prod.Lex

/-!
Owns the index of the clean cache files of a node: the files with their sizes, the same
files by age, the bytes they take, and the eviction that makes room among them.

Does not own: which directories a scan reads, the reservations of unfinished writes, and
the in-memory cache of a disk.
-/

set_option autoImplicit false

namespace Cairn.Storage.CleanCache

open Cairn.Library.HashMaps Cairn.Library.Steps

/-! ### Numbers -/

/-- The greatest `u64`. -/
def u64Max : Nat := 2 ^ 64 - 1

/-- `u64::saturating_add`. -/
def saturatingAdd (first second : Nat) : Nat := min (first + second) u64Max

/-- `RECONCILE_AFTER`, in nanoseconds. -/
def reconcileAfter : Nat := 60 * 1000000000

/-! ### The index -/

variable {Path : Type} [LinearOrder Path]

/-- A file by its age: when it was modified, then its path. -/
abbrev Entry (Path : Type) : Type := Int ×ₗ Path

/-- A clean file that a scan finds. -/
structure Found (Path : Type) where
  path : Path
  size : Nat
  modified : Int

/-- `Index`. `oldest` lists the same files as `files`, by age. -/
structure Index (Path : Type) [LinearOrder Path] where
  bytes : Nat
  files : HashMap Path (Nat × Int)
  oldest : Finset (Entry Path)
  scannedAt : Nat

namespace Index

/-- An index without files. -/
def empty (scannedAt : Nat) : Index Path := ⟨0, ∅, ∅, scannedAt⟩

/-- `remove`, with the size of the file if there was one. -/
def remove (index : Index Path) (path : Path) : Index Path × Option Nat :=
  match index.files.lookup path with
  | none => (index, none)
  | some (size, modified) =>
      ({ index with
          files := index.files.erase path
          oldest := index.oldest.erase (toLex (modified, path))
          bytes := index.bytes - size }, some size)

/-- `insert`. -/
def insert (index : Index Path) (file : Found Path) : Index Path :=
  let removed := (index.remove file.path).1
  { removed with
    bytes := saturatingAdd removed.bytes file.size
    oldest := Insert.insert (toLex (file.modified, file.path)) removed.oldest
    files := removed.files.insert file.path (file.size, file.modified) }

/-- `touch`. -/
def touch (index : Index Path) (path : Path) (modified : Int) : Index Path :=
  match index.remove path with
  | (removed, some size) => removed.insert ⟨path, size, modified⟩
  | (removed, none) => removed

/-- `scan`, of the files that the directories list. -/
def scan (found : List (Found Path)) (scannedAt : Nat) : Index Path :=
  found.foldl insert (empty scannedAt)

/-- The bytes of all indexed files. -/
def total (index : Index Path) : Nat := sum Prod.fst index.files

end Index

/-! ### Eviction -/

/-- The limits that an eviction reads. -/
structure Policy where
  cacheMiB : Nat
  reserveMiB : Nat
  reservePercent : Nat

/-- `Policy::reserve`. -/
def Policy.reserve (policy : Policy) (total : Nat) : Nat :=
  max (policy.reserveMiB * 1024 * 1024) (total / 100 * policy.reservePercent)

/-- What `remove_file` answers. -/
inductive Removal where
  | removed
  | missing
  | failed

/-- Why a clearing stopped. -/
inductive Stop (Path : Type) where
  /-- The target is met, or no file is left. -/
  | finished
  /-- The file is not there, and has left the index. -/
  | missing (entry : Entry Path)
  /-- The file cannot be removed. -/
  | failed (entry : Entry Path)

/-- What a clearing leaves: the index, the bytes it removed, why it stopped, and the files
that it deleted, in order. -/
structure Cleared (Path : Type) [LinearOrder Path] where
  index : Index Path
  removed : Nat
  stop : Stop Path
  evicted : List (Entry Path)

/-- `while removed < required`, for so many rounds. Every round that goes on takes a file from
an index whose two lists agree, so that one round more than there are files is enough. -/
def clear (removal : Path → Removal) (required : Nat) :
    Nat → Index Path → Nat → Option (Cleared Path)
  | 0, _, _ => none
  | rounds + 1, index, removed =>
      if required ≤ removed then some ⟨index, removed, .finished, []⟩
      else
        match index.oldest.min with
        | none => some ⟨index, removed, .finished, []⟩
        | some (entry : Entry Path) =>
            let path := (ofLex entry).2
            match removal path with
            | .failed => some ⟨index, removed, .failed entry, []⟩
            | .missing => some ⟨(index.remove path).1, removed, .missing entry, []⟩
            | .removed =>
                -- `removed` is a `u64` that wraps in a release build.
                let size := (index.remove path).2.getD 0
                (clear removal required rounds (index.remove path).1
                  ((removed + size) % 2 ^ 64)).map fun cleared =>
                    { cleared with evicted := entry :: cleared.evicted }

/-- What one attempt of an eviction reads: the space before and after, `none` when it cannot
be read, and how each file is removed. -/
structure Attempt (Path : Type) where
  space : Option (Nat × Nat)
  removal : Path → Removal
  spaceAfter : Option (Nat × Nat)

/-- The bytes that have to go. -/
def required (policy : Policy) (incoming bytes total free : Nat) : Nat :=
  max (saturatingAdd bytes incoming - policy.cacheMiB * 1024 * 1024)
    (saturatingAdd (policy.reserve total) incoming - free)

/-- How an eviction ends: with an error, or with whether there is room. -/
inductive Outcome where
  | failed
  | room (enough : Bool)
deriving DecidableEq

/-- A clearing of an eviction: the index that it starts from, its target, and what it leaves. -/
structure Clearing (Path : Type) [LinearOrder Path] where
  start : Index Path
  target : Nat
  cleared : Cleared Path

/-- The index of a node after an eviction, how it ended, and its clearings, first to last. -/
structure Evicted (Path : Type) [LinearOrder Path] where
  index : Option (Index Path)
  outcome : Outcome
  clearings : List (Clearing Path)

/-- The clearing of an attempt on a file system with so much space. -/
def Attempt.clear (attempt : Attempt Path) (policy : Policy) (incoming total free : Nat)
    (index : Index Path) : Option (Clearing Path) :=
  let target := required policy incoming index.bytes total free
  (CleanCache.clear attempt.removal target (index.oldest.card + 1) index 0).map fun cleared =>
    ⟨index, target, cleared⟩

/-- Whether an attempt that cleared so much made room. -/
def Attempt.outcome (attempt : Attempt Path) (policy : Policy) (incoming total : Nat)
    (clearing : Clearing Path) : Outcome :=
  if clearing.target ≤ clearing.cleared.removed then
    match attempt.spaceAfter with
    | none => .failed
    | some (_, free) => .room (decide (free > saturatingAdd (policy.reserve total) incoming))
  else .room false

/-- What an eviction reads: whether it reconciles, the clock, its listings of the
directories, `none` when they cannot be read, and its two attempts. -/
structure Readings (Path : Type) where
  reconcile : Bool
  now : Nat
  listing : Option (List (Found Path))
  relisting : Option (List (Found Path))
  first : Attempt Path
  second : Attempt Path

/-- The second attempt, on the index scanned again after a clearing. -/
def retry (policy : Policy) (incoming : Nat) (readings : Readings Path) (found : List (Found Path))
    (before : Clearing Path) : Option (Evicted Path) :=
  let scanned := Index.scan found readings.now
  match readings.second.space with
  | none => some ⟨some scanned, .failed, [before]⟩
  | some (total, free) =>
      (readings.second.clear policy incoming total free scanned).map fun clearing =>
        match clearing.cleared.stop with
        | .failed _ => ⟨some clearing.cleared.index, .failed, [before, clearing]⟩
        | _ =>
            ⟨some clearing.cleared.index, readings.second.outcome policy incoming total clearing,
              [before, clearing]⟩

/-- The attempts of an eviction: a file that is missing in the first has the index scanned
again. -/
def attempts (policy : Policy) (incoming : Nat) (readings : Readings Path) (index : Index Path) :
    Option (Evicted Path) :=
  match readings.first.space with
  | none => some ⟨some index, .failed, []⟩
  | some (total, free) =>
      (readings.first.clear policy incoming total free index).bind fun clearing =>
        match clearing.cleared.stop with
        | .failed _ => some ⟨some clearing.cleared.index, .failed, [clearing]⟩
        | .finished =>
            some ⟨some clearing.cleared.index,
              readings.first.outcome policy incoming total clearing, [clearing]⟩
        | .missing _ =>
            match readings.relisting with
            | none => some ⟨some clearing.cleared.index, .failed, [clearing]⟩
            | some found => retry policy incoming readings found clearing

/-- The index that an eviction starts from, `none` when it has to be scanned and cannot. -/
def indexed (readings : Readings Path) (index : Option (Index Path)) : Option (Index Path) :=
  match index with
  | none => readings.listing.map fun found => Index.scan found readings.now
  | some index =>
      if readings.reconcile ∧ readings.now - index.scannedAt ≥ reconcileAfter then
        readings.listing.map fun found => Index.scan found readings.now
      else some index

/-- `evict`, `none` when a loop does not end. -/
def evict (policy : Policy) (incoming : Nat) (readings : Readings Path)
    (index : Option (Index Path)) : Option (Evicted Path) :=
  match indexed readings index with
  | none => some ⟨index, .failed, []⟩
  | some started => attempts policy incoming readings started

/-! ### Runs -/

/-- What happens to the index of a node. -/
inductive Step (Path : Type) where
  /-- `Reservation::filled`. -/
  | filled (file : Found Path)
  /-- `touched`. -/
  | touched (path : Path) (modified : Int)
  /-- A file that `retire` removed. -/
  | retired (path : Path)
  | evicts (policy : Policy) (incoming : Nat) (readings : Readings Path)

/-- The index of a node after a step, `none` inside while it has none, and `none` when a loop
does not end. -/
def step (index : Option (Index Path)) : Step Path → Option (Option (Index Path))
  | .filled file => some (index.map fun index => index.insert file)
  | .touched path modified => some (index.map fun index => index.touch path modified)
  | .retired path => some (index.map fun index => (index.remove path).1)
  | .evicts policy incoming readings => (evict policy incoming readings index).map Evicted.index

end Cairn.Storage.CleanCache

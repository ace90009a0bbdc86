import Cairn.Error
import Cairn.Library.Results
import Cairn.Storage.Lazy.Manifest

/-!
Owns the disk manifests of `nodes/snapshots.rs`: indexing an immutable image, the
validation of a manifest, and restoring an image from its blocks.

Does not own where blocks come from: a restore takes any source of them, which may
change with every block it hands out. The private temporary file and its rename to the
target are one value here, since a restore that fails leaves no target.
-/

set_option autoImplicit false

namespace Cairn.Nodes.Snapshots

open Cairn.Library.Results
open Cairn.Storage.Lazy (Bytes Identities Extent Manifest Layout ValidExtent blockBytes divCeil)

/-! ### Indexing -/

/-- The failures of `lseek` that `next_data` tells apart. -/
inductive SeekFailure where
  /-- `ENXIO`. -/
  | noData
  /-- `EINVAL`. -/
  | unsupported
  | other
deriving DecidableEq, Repr

/-- An immutable image: its bytes, and what `lseek` answers to `SEEK_DATA`. What it
skips is a hole, which reads as zeros. -/
structure Image where
  bytes : Bytes
  seekData : Nat → Except SeekFailure Nat
  hole_before : ∀ offset next, seekData offset = .ok next →
    ∀ position byte, offset ≤ position → position < next → bytes[position]? = some byte → byte = 0
  hole_after : ∀ offset, seekData offset = .error .noData →
    ∀ position byte, offset ≤ position → bytes[position]? = some byte → byte = 0

/-- `u64::MAX`. -/
def u64Max : Nat := 2 ^ 64 - 1

/-- `next_data`. -/
def Image.nextData (image : Image) (offset : Nat) : Except Error Nat :=
  match image.seekData offset with
  | .ok position => .ok position
  | .error .noData => .ok u64Max
  | .error .unsupported => .ok offset
  | .error .other => .error Error.internal

/-- The state of the loop of `index`. -/
structure Scan (Hash : Type) where
  offset : Nat
  read : Nat
  data : Nat
  blocks : List (Extent Hash)

variable {Hash : Type}

/-- The bytes that `read_exact_at` fills a buffer with. -/
def readAt (bytes : Bytes) (offset length : Nat) : Bytes := (bytes.drop offset).take length

/-- One round of the loop of `index`. -/
def scanBlock (identities : Identities Hash) (image : Image) (scan : Scan Hash) :
    Except Error (Scan Hash) :=
  let length := min (image.bytes.length - scan.offset) blockBytes
  match (if scan.data < scan.offset then image.nextData scan.offset else .ok scan.data) with
  | .error failure => .error failure
  | .ok data =>
    if scan.offset + length ≤ data then .ok {
      offset := scan.offset + length
      read := scan.read
      data := data
      blocks := scan.blocks ++ [⟨scan.offset, length, none⟩] }
    else
      let buffer := readAt image.bytes scan.offset length
      let hash := if buffer.all (· == 0) then none else some (identities.block buffer)
      .ok {
        offset := scan.offset + length
        read := scan.read + length
        data := data
        blocks := scan.blocks ++ [⟨scan.offset, length, hash⟩] }

/-- The block that a round adds. -/
theorem scanBlock_eq_ok {identities : Identities Hash} {image : Image} {scan next : Scan Hash}
    (scanned : scanBlock identities image scan = .ok next) :
    ∃ hash, next.offset = scan.offset + min (image.bytes.length - scan.offset) blockBytes ∧
      next.blocks = scan.blocks ++
        [⟨scan.offset, min (image.bytes.length - scan.offset) blockBytes, hash⟩] ∧
      (scan.data < scan.offset ∧ image.nextData scan.offset = .ok next.data ∨
        ¬ scan.data < scan.offset ∧ next.data = scan.data) ∧
      (next.offset ≤ next.data ∧ hash = none ∨
        hash = if (readAt image.bytes scan.offset
              (min (image.bytes.length - scan.offset) blockBytes)).all (· == 0) then none
          else some (identities.block (readAt image.bytes scan.offset
            (min (image.bytes.length - scan.offset) blockBytes)))) := by
  unfold scanBlock at scanned
  split at scanned
  · contradiction
  · rename_i data seeked
    have progress : scan.data < scan.offset ∧ image.nextData scan.offset = .ok data ∨
        ¬ scan.data < scan.offset ∧ data = scan.data := by
      split at seeked
      · exact .inl ⟨by assumption, seeked⟩
      · exact .inr ⟨by assumption, (Except.ok.inj seeked).symm⟩
    dsimp only at scanned
    split at scanned
    · rename_i skipped
      obtain rfl := Except.ok.inj scanned
      exact ⟨none, rfl, rfl, progress, .inl ⟨skipped, rfl⟩⟩
    · obtain rfl := Except.ok.inj scanned
      exact ⟨_, rfl, rfl, progress, .inr rfl⟩

theorem scanBlock_advances {identities : Identities Hash} {image : Image} {scan next : Scan Hash}
    (within : scan.offset < image.bytes.length)
    (scanned : scanBlock identities image scan = .ok next) :
    image.bytes.length - next.offset < image.bytes.length - scan.offset := by
  obtain ⟨_, offset, _⟩ := scanBlock_eq_ok scanned
  have positive : 0 < blockBytes := by decide
  omega

/-- The loop of `index`. -/
def scanBlocks (identities : Identities Hash) (image : Image) (scan : Scan Hash) :
    Except Error (Scan Hash) :=
  if _within : scan.offset < image.bytes.length then
    match _scanned : scanBlock identities image scan with
    | .error failure => .error failure
    | .ok next => scanBlocks identities image next
  else .ok scan
termination_by image.bytes.length - scan.offset
decreasing_by exact scanBlock_advances _within _scanned

/-- `MANIFEST_VERSION`. -/
def manifestVersion : Nat := 1

/-- `Index`: a manifest without a layout, and the bytes read to make it. -/
structure Index (Hash : Type) extends Manifest Hash where
  localBytesRead : Nat

/-- `index`. -/
def index (identities : Identities Hash) (image : Image) : Except Error (Index Hash) := do
  let data ← image.nextData 0
  let scan ← scanBlocks identities image ⟨0, 0, data, []⟩
  .ok {
    version := manifestVersion
    layout := none
    size := image.bytes.length
    blockSize := blockBytes
    blocks := scan.blocks
    localBytesRead := scan.read }

/-! ### Validation -/

/-- `validate`. -/
def validate (identities : Identities Hash) (manifest : Manifest Hash) : Except Error Unit :=
  match Layout.fromManifest manifest with
  | .error failure => .error (Error.bad failure)
  | .ok layout =>
    if ¬ (0 < manifest.size ∧ manifest.size ≤ 2 ^ 40) then .error (Error.bad "Invalid backup size.")
    else if manifest.version ≠ layout.manifestVersion ∨ manifest.blockSize ≠ blockBytes ∨
        manifest.blocks.length ≠ divCeil manifest.size blockBytes then
      .error (Error.bad "Invalid backup manifest.")
    else if ∃ entry ∈ manifest.blocks.zipIdx,
        ¬ ValidExtent identities manifest.size entry.2 entry.1 then
      .error (Error.bad "Invalid backup extent.")
    else .ok ()

/-! ### Restoring -/

/-- Writing at an offset inside a file. -/
def writeAt (file : Bytes) (offset : Nat) (bytes : Bytes) : Bytes :=
  file.take offset ++ bytes ++ file.drop (offset + bytes.length)

variable {Source : Type}

/-- One block of `restore`. -/
def restoreBlock (identities : Identities Hash) (fetch : Hash → StateT Source (Except Error) Bytes)
    (file : Bytes) (block : Extent Hash) : StateT Source (Except Error) Bytes :=
  match block.hash with
  | none => pure file
  | some hash => do
    let bytes ← fetch hash
    if bytes.length ≠ block.size ∨ identities.matchesBytes hash bytes = false then
      throw (Error.bad "Backup block integrity check failed.")
    else pure (writeAt file block.offset bytes)

/-- `restore`: the file that a target without one receives. -/
def restore (identities : Identities Hash) (target : Option Bytes) (manifest : Manifest Hash)
    (fetch : Hash → StateT Source (Except Error) Bytes) : StateT Source (Except Error) Bytes := do
  StateT.lift (validate identities manifest)
  if target.isSome then throw (Error.conflict "Restore cannot replace an existing disk.")
  else manifest.blocks.foldlM (restoreBlock identities fetch) (List.replicate manifest.size 0)

/-! ### What an index describes -/

/-- The content of a block of an image. -/
def blockAt (bytes : Bytes) (number : Nat) : Bytes := (bytes.drop (number * blockBytes)).take blockBytes

theorem length_blockAt (bytes : Bytes) (number : Nat) :
    (blockAt bytes number).length = min (bytes.length - number * blockBytes) blockBytes := by
  rw [blockAt, List.length_take, List.length_drop, Nat.min_comm]

/-- What a round reads is the block it stands at. -/
theorem readAt_eq_blockAt (bytes : Bytes) (number : Nat) :
    readAt bytes (number * blockBytes) (min (bytes.length - number * blockBytes) blockBytes) =
      blockAt bytes number := by
  rw [readAt, blockAt, ← List.length_drop, ← List.take_take, List.take_take, Nat.min_comm,
    ← List.take_take, List.take_length]

/-- An extent stands for a block of the image: without a hash when the block is zero, and
with its content identity otherwise. -/
structure Describes (identities : Identities Hash) (bytes : Bytes) (number : Nat)
    (block : Extent Hash) : Prop where
  offset : block.offset = number * blockBytes
  size : block.size = min (bytes.length - number * blockBytes) blockBytes
  hash : block.hash = none ∧ (∀ byte ∈ blockAt bytes number, byte = 0) ∨
    block.hash = some (identities.block (blockAt bytes number)) ∧
      ¬ ∀ byte ∈ blockAt bytes number, byte = 0

/-- What holds between two rounds of the loop of `index`. -/
structure Scanned (identities : Identities Hash) (image : Image) (scan : Scan Hash) : Prop where
  described : ∀ number block, scan.blocks[number]? = some block →
    Describes identities image.bytes number block
  position : scan.offset < image.bytes.length ∧ scan.offset = scan.blocks.length * blockBytes ∨
    scan.offset = image.bytes.length ∧
      scan.blocks.length = divCeil image.bytes.length blockBytes
  hole : ∀ position byte, scan.offset ≤ position → position < scan.data →
    image.bytes[position]? = some byte → byte = 0

/-- Before the next data the image is zero. -/
theorem Image.zero_of_nextData {image : Image} {offset data : Nat}
    (seeked : image.nextData offset = .ok data) {position : Nat} {byte : UInt8}
    (after : offset ≤ position) (before : position < data)
    (inside : image.bytes[position]? = some byte) : byte = 0 := by
  unfold Image.nextData at seeked
  split at seeked
  · rename_i next found
    obtain rfl := Except.ok.inj seeked
    exact image.hole_before offset next found position byte after before inside
  · rename_i found
    exact image.hole_after offset found position byte after inside
  · obtain rfl := Except.ok.inj seeked
    omega
  · contradiction

/-- A block whose positions all hold zero is zero. -/
theorem blockAt_zero {bytes : Bytes} {number : Nat}
    (zero : ∀ position byte, number * blockBytes ≤ position →
      position < number * blockBytes + min (bytes.length - number * blockBytes) blockBytes →
      bytes[position]? = some byte → byte = 0) :
    ∀ byte ∈ blockAt bytes number, byte = 0 := by
  intro byte member
  obtain ⟨index, found⟩ := List.getElem?_of_mem member
  have inside := (List.getElem?_eq_some_iff.mp found).1
  rw [length_blockAt] at inside
  rw [blockAt, List.getElem?_take_of_lt (by omega), List.getElem?_drop] at found
  exact zero _ byte (by omega) (by omega) found

/-- Every round keeps the invariant. -/
theorem Scanned.step {identities : Identities Hash} {image : Image} {scan next : Scan Hash}
    (holds : Scanned identities image scan) (within : scan.offset < image.bytes.length)
    (scanned : scanBlock identities image scan = .ok next) : Scanned identities image next := by
  have stands : scan.offset = scan.blocks.length * blockBytes := by
    rcases holds.position with position | position
    · exact position.2
    · omega
  obtain ⟨hash, offset, blocks, progress, hashed⟩ := scanBlock_eq_ok scanned
  have hole : ∀ position byte, scan.offset ≤ position → position < next.data →
      image.bytes[position]? = some byte → byte = 0 := by
    intro position byte after before inside
    rcases progress with ⟨_, seeked⟩ | ⟨_, same⟩
    · exact image.zero_of_nextData seeked after before inside
    · exact holds.hole position byte after (same ▸ before) inside
  refine ⟨fun number block found => ?_, ?_, fun position byte after before inside =>
    hole position byte (by omega) before inside⟩
  · rw [blocks, List.getElem?_append] at found
    split at found
    · exact holds.described number block found
    · rename_i new
      obtain ⟨last, rfl⟩ := List.getElem?_eq_some_iff.mp found
      have number_eq : number = scan.blocks.length := by
        simp only [List.length_singleton] at last
        omega
      subst number_eq
      rw [stands, readAt_eq_blockAt] at hashed
      refine ⟨by simp [stands], by simp [stands], ?_⟩
      rw [List.getElem_singleton]
      by_cases zero : ∀ byte ∈ blockAt image.bytes scan.blocks.length, byte = 0
      · refine .inl ⟨?_, zero⟩
        rcases hashed with ⟨_, skipped⟩ | hashed
        · exact skipped
        · rw [hashed, if_pos (by simpa using zero)]
      · refine .inr ⟨?_, zero⟩
        rcases hashed with ⟨skipped, _⟩ | hashed
        · rw [offset, stands] at skipped
          exact absurd (blockAt_zero fun position byte after before inside =>
            hole position byte (Nat.le_trans (Nat.le_of_eq stands) after)
              (Nat.lt_of_lt_of_le before skipped) inside) zero
        · rw [hashed, if_neg (by simpa using zero)]
  · have positive : 0 < blockBytes := by decide
    rw [blocks, List.length_append, List.length_singleton, offset]
    by_cases ends : scan.offset + blockBytes < image.bytes.length
    · refine .inl ⟨by omega, ?_⟩
      rw [Nat.min_eq_right (by omega), Nat.add_one_mul, stands]
    · refine .inr ⟨by omega, ?_⟩
      symm
      rw [divCeil, Nat.div_eq_iff positive, Nat.add_one_mul]
      omega

/-- The loop ends behind the image, with the invariant. -/
theorem Scanned.run {identities : Identities Hash} {image : Image} {scan final : Scan Hash}
    (holds : Scanned identities image scan) (finished : scanBlocks identities image scan = .ok final) :
    Scanned identities image final ∧ final.offset = image.bytes.length := by
  fun_induction scanBlocks identities image scan with
  | case1 scan within failure failed => contradiction
  | case2 scan within next scanned inductionHypothesis =>
      exact inductionHypothesis (holds.step within scanned) finished
  | case3 scan ended =>
      obtain rfl := Except.ok.inj finished
      refine ⟨holds, ?_⟩
      rcases holds.position with position | position
      · exact absurd position.1 ended
      · exact position.1

/-- A manifest that describes an image block by block. -/
structure Describing (identities : Identities Hash) (bytes : Bytes) (manifest : Manifest Hash) :
    Prop where
  version : manifest.version = manifestVersion
  layout : manifest.layout = none
  size : manifest.size = bytes.length
  blockSize : manifest.blockSize = blockBytes
  count : manifest.blocks.length = divCeil bytes.length blockBytes
  described : ∀ number block, manifest.blocks[number]? = some block →
    Describes identities bytes number block

/-- An image's description passes validation. -/
theorem Describing.validate {identities : Identities Hash} {bytes : Bytes}
    {manifest : Manifest Hash} (describes : Describing identities bytes manifest)
    (nonempty : 0 < bytes.length) (bounded : bytes.length ≤ 2 ^ 40) :
    Snapshots.validate identities manifest = .ok () := by
  have flat : Layout.fromManifest manifest = .ok .flat := by
    rw [Layout.fromManifest, describes.layout, describes.version]
    rfl
  have extents : ¬ ∃ entry ∈ manifest.blocks.zipIdx,
      ¬ ValidExtent identities manifest.size entry.2 entry.1 := by
    rintro ⟨⟨block, number⟩, member, invalid⟩
    have described := describes.described number block (List.mem_zipIdx_iff_getElem?.mp member)
    refine invalid ⟨described.offset, ?_, fun hash hashed => ?_⟩
    · rw [described.size, describes.size]
    · rcases described.hash with ⟨absent, _⟩ | ⟨present, _⟩
      · rw [absent] at hashed
        contradiction
      · obtain rfl := Option.some.inj (present.symm.trans hashed)
        exact identities.block_valid _
  rw [Snapshots.validate, flat]
  dsimp only
  rw [if_neg (by rw [describes.size]; exact not_not.mpr ⟨nonempty, bounded⟩),
    if_neg (by
      rw [describes.version, describes.blockSize, describes.count, describes.size]
      simp [Layout.manifestVersion, manifestVersion]),
    if_neg extents]

/-- The hashes of a manifest, in disk order: what a restore asks for. -/
def hashes (blocks : List (Extent Hash)) : List Hash := blocks.filterMap (·.hash)

/-- The contents that a described image has under those hashes. -/
def contents (bytes : Bytes) (first : Nat) : List (Extent Hash) → List Bytes
  | [] => []
  | block :: rest =>
    (if block.hash.isSome then [blockAt bytes first] else []) ++ contents bytes (first + 1) rest

/-- The file after the blocks before `number` are restored. -/
def restoredTo (bytes : Bytes) (number : Nat) : Bytes :=
  bytes.take (number * blockBytes) ++ List.replicate (bytes.length - number * blockBytes) 0

theorem restoredTo_zero (bytes : Bytes) :
    restoredTo bytes 0 = List.replicate bytes.length 0 := by
  simp [restoredTo]

theorem restoredTo_end {bytes : Bytes} {number : Nat} (whole : bytes.length ≤ number * blockBytes) :
    restoredTo bytes number = bytes := by
  rw [restoredTo, List.take_of_length_le whole, Nat.sub_eq_zero_of_le whole, List.replicate_zero,
    List.append_nil]

theorem take_succ_block (bytes : Bytes) (number : Nat) :
    bytes.take ((number + 1) * blockBytes) =
      bytes.take (number * blockBytes) ++ blockAt bytes number := by
  rw [Nat.add_one_mul, List.take_add, blockAt]

/-- What is left behind a block. -/
theorem left_behind (length start size : Nat) :
    length - start - min (length - start) size = length - (start + size) := by
  omega

theorem block_and_left_behind (length start size : Nat) :
    min (length - start) size + (length - (start + size)) = length - start := by
  omega

/-- Writing a block brings the file to the next one. -/
theorem writeAt_restoredTo {bytes : Bytes} {number : Nat}
    (within : number * blockBytes ≤ bytes.length) :
    writeAt (restoredTo bytes number) (number * blockBytes) (blockAt bytes number) =
      restoredTo bytes (number + 1) := by
  have taken : (bytes.take (number * blockBytes)).length = number * blockBytes := by
    rw [List.length_take, Nat.min_eq_left within]
  rw [writeAt, restoredTo, List.take_left' taken, ← List.drop_drop, List.drop_left' taken,
    List.drop_replicate, restoredTo, take_succ_block, Nat.add_one_mul, length_blockAt, left_behind]

/-- A zero block is there already. -/
theorem restoredTo_succ {bytes : Bytes} {number : Nat}
    (zero : ∀ byte ∈ blockAt bytes number, byte = 0) :
    restoredTo bytes number = restoredTo bytes (number + 1) := by
  rw [restoredTo, restoredTo, take_succ_block, List.eq_replicate_of_mem zero, length_blockAt,
    List.append_assoc, List.replicate_append_replicate, Nat.add_one_mul, block_and_left_behind]

variable {identities : Identities Hash} {fetch : Hash → StateT Source (Except Error) Bytes}

/-- **Restoring block by block.** From a source that hands out the image's blocks in
order, every block lands where it was. -/
theorem foldlM_restoreBlock {bytes : Bytes} {blocks : List (Extent Hash)} {first : Nat}
    (described : ∀ number block, blocks[number]? = some block →
      Describes identities bytes (first + number) block)
    (within : ∀ number, number < blocks.length → (first + number) * blockBytes ≤ bytes.length)
    {source final : Source}
    (served : ((hashes blocks).mapM fetch).run source = .ok (contents bytes first blocks, final)) :
    (blocks.foldlM (restoreBlock identities fetch) (restoredTo bytes first)).run source =
      .ok (restoredTo bytes (first + blocks.length), final) := by
  induction blocks generalizing first source with
  | nil =>
      obtain ⟨_, rfl⟩ := run_pure_eq_ok.mp served
      exact run_pure_eq_ok.mpr ⟨rfl, rfl⟩
  | cons block rest inductionHypothesis =>
      have describes : Describes identities bytes first block := described 0 block rfl
      have rest_described : ∀ number other, rest[number]? = some other →
          Describes identities bytes (first + 1 + number) other := by
        intro number other found
        rw [Nat.add_assoc, Nat.add_comm 1]
        exact described (number + 1) other found
      have rest_within : ∀ number, number < rest.length →
          (first + 1 + number) * blockBytes ≤ bytes.length := by
        intro number below
        rw [Nat.add_assoc, Nat.add_comm 1]
        exact within (number + 1) (Nat.succ_lt_succ below)
      have counted : first + (block :: rest).length = first + 1 + rest.length := by
        rw [List.length_cons]
        omega
      rw [List.foldlM_cons, StateT.run_bind, counted, restoreBlock]
      rcases describes.hash with ⟨absent, zero⟩ | ⟨present, _⟩
      · rw [hashes, List.filterMap_cons_none absent] at served
        rw [contents, absent, Option.isSome_none, if_neg Bool.false_ne_true, List.nil_append] at served
        rw [absent, restoredTo_succ zero]
        exact inductionHypothesis rest_described rest_within served
      · rw [hashes, List.filterMap_cons_some present, List.mapM_cons, contents, present,
          Option.isSome_some, if_pos rfl, List.singleton_append, StateT.run_bind] at served
        obtain ⟨⟨fetched, middle⟩, fetches, served⟩ := bind_eq_ok.mp served
        rw [StateT.run_bind] at served
        obtain ⟨⟨others, last⟩, served_rest, served⟩ := bind_eq_ok.mp served
        obtain ⟨same, rfl⟩ := run_pure_eq_ok.mp served
        obtain ⟨rfl, rfl⟩ := List.cons.inj same
        have sound : ¬ ((blockAt bytes first).length ≠ block.size ∨
            identities.matchesBytes (identities.block (blockAt bytes first)) (blockAt bytes first) =
              false) := by
          rw [length_blockAt, describes.size, identities.block_matches]
          simp
        refine bind_eq_ok.mpr ⟨(restoredTo bytes (first + 1), middle), ?_,
          inductionHypothesis rest_described rest_within served_rest⟩
        rw [present]
        dsimp only
        rw [StateT.run_bind]
        refine bind_eq_ok.mpr ⟨_, fetches, ?_⟩
        have inside : first * blockBytes ≤ bytes.length := within 0 (Nat.zero_lt_succ _)
        dsimp only
        rw [if_neg sound, describes.offset, writeAt_restoredTo inside]
        exact run_pure_eq_ok.mpr ⟨rfl, rfl⟩

/-- A described image is restored from a source that hands out its blocks. -/
theorem Describing.restore {bytes : Bytes} {manifest : Manifest Hash}
    (describes : Describing identities bytes manifest) (nonempty : 0 < bytes.length)
    (bounded : bytes.length ≤ 2 ^ 40) {source final : Source}
    (served : ((hashes manifest.blocks).mapM fetch).run source =
      .ok (contents bytes 0 manifest.blocks, final)) :
    (Snapshots.restore identities none manifest fetch).run source = .ok (bytes, final) := by
  have positive : 0 < blockBytes := by decide
  have ceil : bytes.length ≤ divCeil bytes.length blockBytes * blockBytes := by
    have := Nat.div_add_mod' (bytes.length + blockBytes - 1) blockBytes
    have := Nat.mod_lt (bytes.length + blockBytes - 1) positive
    rw [divCeil]
    omega
  have floor : ∀ number, number < divCeil bytes.length blockBytes →
      number * blockBytes ≤ bytes.length := by
    intro number below
    have := (Nat.lt_div_iff_mul_lt positive).mp below
    omega
  have restored : (manifest.blocks.foldlM (restoreBlock identities fetch) (restoredTo bytes 0)).run
      source = .ok (restoredTo bytes (0 + manifest.blocks.length), final) := foldlM_restoreBlock
    (fun number block found => (Nat.zero_add number).symm ▸ describes.described number block found)
    (fun number below => (Nat.zero_add number).symm ▸ floor number (describes.count ▸ below)) served
  rw [Nat.zero_add, describes.count, restoredTo_end ceil, restoredTo_zero] at restored
  refine bind_eq_ok.mpr ⟨((), source), ?_, ?_⟩
  · rw [describes.validate nonempty bounded]
    rfl
  · dsimp only
    rw [Option.isSome_none, if_neg Bool.false_ne_true, describes.size]
    exact restored

/-- The source hands out every block of the image that is not zero under its content
identity, from this image or from an earlier snapshot that has the same block. -/
def ServesByHash (identities : Identities Hash) (bytes : Bytes)
    (fetch : Hash → StateT Source (Except Error) Bytes) : Prop :=
  ∀ number, number * blockBytes < bytes.length → (¬ ∀ byte ∈ blockAt bytes number, byte = 0) →
    ∀ source, ∃ next, (fetch (identities.block (blockAt bytes number))).run source =
      .ok (blockAt bytes number, next)

/-- Serving by hash serves in order. -/
theorem ServesByHash.mapM {bytes : Bytes} (serves : ServesByHash identities bytes fetch)
    {blocks : List (Extent Hash)} {first : Nat}
    (described : ∀ number block, blocks[number]? = some block →
      Describes identities bytes (first + number) block) (source : Source) :
    ∃ final, ((hashes blocks).mapM fetch).run source = .ok (contents bytes first blocks, final) := by
  induction blocks generalizing first source with
  | nil => exact ⟨source, rfl⟩
  | cons block rest inductionHypothesis =>
      have describes : Describes identities bytes first block := described 0 block rfl
      have rest_described : ∀ number other, rest[number]? = some other →
          Describes identities bytes (first + 1 + number) other := by
        intro number other found
        rw [Nat.add_assoc, Nat.add_comm 1]
        exact described (number + 1) other found
      rcases describes.hash with ⟨absent, _⟩ | ⟨present, data⟩
      · rw [hashes, List.filterMap_cons_none absent, contents, absent, Option.isSome_none,
          if_neg Bool.false_ne_true, List.nil_append]
        exact inductionHypothesis rest_described source
      · have within : first * blockBytes < bytes.length := by
          refine Nat.lt_of_not_le fun beyond => data fun byte member => ?_
          rw [blockAt, List.drop_of_length_le beyond, List.take_nil] at member
          contradiction
        obtain ⟨middle, fetches⟩ := serves first within data source
        obtain ⟨final, served⟩ := inductionHypothesis rest_described middle
        refine ⟨final, ?_⟩
        rw [hashes, List.filterMap_cons_some present, List.mapM_cons, contents, present,
          Option.isSome_some, if_pos rfl, List.singleton_append]
        exact bind_eq_ok.mpr ⟨_, fetches, bind_eq_ok.mpr ⟨_, served, rfl⟩⟩

end Cairn.Nodes.Snapshots

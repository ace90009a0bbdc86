import Cairn.Library.Results
import Cairn.Storage.Lazy.Disk

/-!
Owns the abstract content of a disk: a byte for every position. A manifest
describes a content when every extent does, by a null hash for zeros or by the
identity of its bytes; available blocks then yield the content back.

Does not own journal frames.
-/

set_option autoImplicit false

namespace Cairn.Storage.Lazy

open Cairn.Library.Results LazyDisk

universe u

variable {Hash : Type u} {identities : Identities Hash} {size : Nat} {content : Nat → UInt8}

/-- A part of a content. -/
def slice (content : Nat → UInt8) (offset count : Nat) : Bytes :=
  (List.range count).map fun position => content (offset + position)

@[simp] theorem slice_length (offset count : Nat) : (slice content offset count).length = count := by
  simp [slice]

theorem getElem?_slice (offset count position : Nat) :
    (slice content offset count)[position]? =
      if position < count then some (content (offset + position)) else none := by
  by_cases inside : position < count <;> simp [slice, inside]

/-- A buffer with every byte of a part is that part. -/
theorem eq_slice {bytes : Bytes} {offset count : Nat} (long : bytes.length = count)
    (same : ∀ position < count, bytes[position]? = some (content (offset + position))) :
    bytes = slice content offset count := by
  refine List.ext_getElem? fun position => ?_
  rw [getElem?_slice]
  split
  · rename_i inside
    exact same position inside
  · rename_i outside
    exact List.getElem?_eq_none (by omega)

theorem slice_congr {other : Nat → UInt8} {offset count : Nat}
    (same : ∀ position, offset ≤ position → position < offset + count →
      content position = other position) :
    slice content offset count = slice other offset count := by
  refine List.map_congr_left fun position member => ?_
  have inside := List.mem_range.mp member
  exact same _ (by omega) (by omega)

/-! ### Manifests -/

theorem blockBytes_pos : 0 < blockBytes := by
  unfold blockBytes
  omega

theorem lt_divCeil {index value divisor : Nat} (positive : 0 < divisor) :
    index < divCeil value divisor ↔ index * divisor < value := by
  rw [divCeil, Nat.lt_iff_add_one_le, Nat.le_div_iff_mul_le positive, Nat.add_mul]
  omega

/-- The extents tile the disk. -/
structure Shaped (size : Nat) (manifest : Manifest Hash) : Prop where
  length : manifest.blocks.length = divCeil size blockBytes
  extent : ∀ (index : Nat) extent, manifest.blocks[index]? = some extent →
    extent.offset = index * blockBytes ∧ extent.size = min (size - index * blockBytes) blockBytes

/-- The hash of an extent stands for its bytes. -/
def Extent.Describes (identities : Identities Hash) (content : Nat → UInt8) (extent : Extent Hash) :
    Prop :=
  match extent.hash with
  | none => slice content extent.offset extent.size = List.replicate extent.size 0
  | some hash => identities.matchesBytes hash (slice content extent.offset extent.size)

/-- Every extent stands for its bytes. -/
def Manifest.Describes (identities : Identities Hash) (manifest : Manifest Hash)
    (content : Nat → UInt8) : Prop :=
  ∀ extent ∈ manifest.blocks, extent.Describes identities content

/-- What a valid manifest satisfies. -/
theorem validate_eq_ok {manifest : Manifest Hash} (valid : validate identities manifest = .ok size) :
    manifest.size = size ∧ size ≤ 2 ^ 40 ∧ Shaped size manifest := by
  simp only [validate, bind_eq_ok] at valid
  obtain ⟨layout, -, valid⟩ := valid
  split at valid
  · cases valid
  rename_i bounded
  split at valid
  · cases valid
  rename_i format
  split at valid
  · cases valid
  rename_i extents
  obtain rfl : manifest.size = size := by simpa using valid
  simp only [not_not] at bounded
  simp only [not_or, ne_eq, not_not] at format
  refine ⟨rfl, bounded.2, format.2.2, fun index extent found => ?_⟩
  have entry : (extent, index) ∈ manifest.blocks.zipIdx := by
    rw [List.mem_zipIdx_iff_getElem?]
    exact found
  have accepted := not_not.mp fun rejected => extents ⟨_, entry, rejected⟩
  exact ⟨accepted.1, accepted.2.1⟩

/-! ### Blocks -/

/-- The source can return every block of a manifest. -/
def Available (blocks : Blocks identities) (manifest : Manifest Hash) : Prop :=
  ∀ extent ∈ manifest.blocks, ∀ hash, extent.hash = some hash → ∃ bytes,
    blocks.fetch hash = .ok bytes ∧ bytes.length = extent.size ∧ identities.matchesBytes hash bytes

/-- A block that the source has is returned, from wherever it comes. -/
theorem baseBlock_eq_ok (collisionFree : identities.CollisionFree) {blocks : Blocks identities}
    {hash : Hash} {size : Nat} {bytes : Bytes} (fetched : blocks.fetch hash = .ok bytes)
    (long : bytes.length = size) (isBlock : identities.matchesBytes hash bytes) :
    baseBlock blocks hash size = .ok ⟨bytes, isBlock⟩ := by
  have unique : ∀ other : { bytes : Bytes // identities.matchesBytes hash bytes },
      other = ⟨bytes, isBlock⟩ := fun other =>
    Subtype.ext (collisionFree hash other.1 bytes other.2 isBlock)
  unfold baseBlock
  split
  · rename_i cachedBytes cached
    have same := unique ⟨cachedBytes, blocks.cache.verified hash cachedBytes cached⟩
    rw [if_pos (by rw [Subtype.mk.injEq] at same; rw [same, long]), same]
  · split
    · rename_i other _
      rw [unique other]
    · rw [fetched]
      simp only [checkBlock]
      rw [dif_pos ⟨long, isBlock⟩]

/-- The extent of an index yields the content of its block. -/
theorem extentBytes_eq_ok (collisionFree : identities.CollisionFree) {blocks : Blocks identities}
    {manifest : Manifest Hash} (describes : manifest.Describes identities content)
    (available : Available blocks manifest) (shaped : Shaped size manifest) {index : Nat}
    (inside : index * blockBytes < size) :
    ∃ block, extentBytes blocks manifest index = .ok block ∧
      (block.getD (List.replicate (min (size - index * blockBytes) blockBytes) 0)) =
        slice content (index * blockBytes) (min (size - index * blockBytes) blockBytes) := by
  have listed : index < manifest.blocks.length :=
    shaped.length ▸ (lt_divCeil blockBytes_pos).mpr inside
  obtain ⟨extent, found⟩ : ∃ extent, manifest.blocks[index]? = some extent :=
    ⟨_, List.getElem?_eq_getElem listed⟩
  obtain ⟨offset, long⟩ := shaped.extent index extent found
  have member := List.mem_of_getElem? found
  have described := describes extent member
  rw [Extent.Describes, offset, long] at described
  cases hashed : extent.hash with
  | none =>
      refine ⟨none, by simp only [extentBytes, found, hashed], ?_⟩
      simp only [hashed] at described
      rw [Option.getD_none, described]
  | some hash =>
      simp only [hashed] at described
      obtain ⟨bytes, fetched, fits, isBlock⟩ := available extent member hash hashed
      have returned := baseBlock_eq_ok collisionFree fetched (fits.trans long) isBlock
      refine ⟨some bytes, ?_, ?_⟩
      · simp only [extentBytes, found, hashed, long, returned]
        rfl
      · rw [Option.getD_some]
        exact collisionFree hash _ _ isBlock described

end Cairn.Storage.Lazy

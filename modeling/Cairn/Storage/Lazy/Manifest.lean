import Mathlib.Algebra.Order.Ring.Nat
import Mathlib.Logic.Basic

/-!
Owns the disk manifest of `storage/lazy/mod.rs` and `storage/layout.rs`: its
extents, its validation and the content identities of `storage/digest.rs`.

Sizes and offsets are bounded by `2^40`, so `u64` arithmetic on them is modelled
by natural numbers.
-/

set_option autoImplicit false

namespace Cairn.Storage.Lazy

/-- File and block contents. -/
abbrev Bytes := List UInt8

/-- `BLOCK`. -/
def blockBytes : Nat := 4 * 1024 * 1024

/-- `MAX_IO`. -/
def maxIo : Nat := 8 * 1024 * 1024

/-- `i64::MAX`. -/
def i64Max : Nat := 2 ^ 63 - 1

universe u

/-- The content identities of `storage/digest.rs` over an abstract text type. -/
structure Identities (Hash : Type u) where
  block : Bytes → Hash
  valid : Hash → Bool
  matchesBytes : Hash → Bytes → Bool
  block_valid : ∀ bytes, valid (block bytes)
  block_matches : ∀ bytes, matchesBytes (block bytes) bytes

/-- No two contents match one identity. -/
def Identities.CollisionFree {Hash : Type u} (identities : Identities Hash) : Prop :=
  ∀ hash first second, identities.matchesBytes hash first → identities.matchesBytes hash second →
    first = second

/-! ### `storage/layout.rs` -/

/-- `ALIGNMENT`. -/
def alignment : Nat := 4 * 1024 * 1024

/-- `MIN_SYSTEM`. -/
def minSystem : Nat := 64 * 1024 * 1024

/-- `Layout`. -/
inductive Layout where
  | flat
  | paired (systemBytes : Nat)
deriving DecidableEq, Repr

/-- `Layout::validate`. -/
def Layout.validate (layout : Layout) (size : Nat) : Except String Unit :=
  match layout with
  | .flat => .ok ()
  | .paired systemBytes =>
    if systemBytes < minSystem ∨ ¬ systemBytes % alignment = 0 ∨ ¬ size % 512 = 0 ∨
        systemBytes + minSystem > size then .error "Invalid paired filesystem boundaries"
    else .ok ()

/-- `Layout::manifest_version`. -/
def Layout.manifestVersion : Layout → Nat
  | .flat => 1
  | .paired _ => 2

/-! ### Manifests -/

/-- One block of a manifest. -/
structure Extent (Hash : Type u) where
  offset : Nat
  size : Nat
  hash : Option Hash
deriving DecidableEq

/-- The fields of a manifest that the disk reads or writes. -/
structure Manifest (Hash : Type u) where
  version : Nat
  layout : Option Layout
  size : Nat
  blockSize : Nat
  blocks : List (Extent Hash)
deriving DecidableEq

variable {Hash : Type u}

/-- `Layout::from_manifest`. -/
def Layout.fromManifest (manifest : Manifest Hash) : Except String Layout :=
  match manifest.layout with
  | none => if manifest.version = 2 then .error "Paired manifest is missing its layout" else .ok .flat
  | some layout => (fun _ => layout) <$> layout.validate manifest.size

/-- The extent check of `validate` at one index. -/
def ValidExtent (identities : Identities Hash) (size index : Nat) (block : Extent Hash) : Prop :=
  block.offset = index * blockBytes ∧
    block.size = min (size - index * blockBytes) blockBytes ∧
    ∀ hash ∈ block.hash, identities.valid hash

instance (identities : Identities Hash) (size index : Nat) (block : Extent Hash) :
    Decidable (ValidExtent identities size index block) := by
  unfold ValidExtent
  infer_instance

/-- `u64::div_ceil`. -/
def divCeil (value divisor : Nat) : Nat := (value + divisor - 1) / divisor

/-- `validate`: the size of a valid manifest. -/
def validate (identities : Identities Hash) (manifest : Manifest Hash) : Except String Nat := do
  let layout ← Layout.fromManifest manifest
  if ¬ (0 < manifest.size ∧ manifest.size ≤ 2 ^ 40) then .error "Invalid disk size"
  else if manifest.version ≠ layout.manifestVersion ∨ manifest.blockSize ≠ blockBytes ∨
      manifest.blocks.length ≠ divCeil manifest.size blockBytes then .error "Invalid disk manifest"
  else if ∃ entry ∈ manifest.blocks.zipIdx,
      ¬ ValidExtent identities manifest.size entry.2 entry.1 then .error "Invalid disk extent"
  else .ok manifest.size

end Cairn.Storage.Lazy

import Cairn.Library.Results
import Cairn.Storage.Lazy.WriteBatches

/-!
Owns `DiskView` (`storage/view.rs`): a device of its own over a part of another disk, and
that views of disjoint parts do not reach each other's bytes.

The disk behind a view is any state with a batch operation; the lazy disk is one.
-/

set_option autoImplicit false

namespace Cairn.Storage

open Cairn.Storage.Lazy (Bytes DiskWrite LazyDisk Checksums AppendEnv)
open Cairn.Storage.Lazy.LazyDisk (WriteEnv)
open Cairn.Library.Results

universe u

/-- `u64::checked_add`. -/
def checkedAdd (first second : Nat) : Option Nat :=
  if first + second < 2 ^ 64 then some (first + second) else none

/-- `device::range`. -/
def range (size offset length : Nat) : Except String Unit :=
  if (checkedAdd offset length).all (size < ·) then .error "Disk access exceeds its size" else .ok ()

theorem all_checkedAdd {first second : Nat} {bad : Nat → Bool} :
    (checkedAdd first second).all bad = false ↔
      first + second < 2 ^ 64 ∧ bad (first + second) = false := by
  unfold checkedAdd
  split
  · rename_i fits
    exact ⟨fun good => ⟨fits, good⟩, And.right⟩
  · rename_i overflows
    exact ⟨fun impossible => (nomatch impossible), fun inside => absurd inside.1 overflows⟩

theorem range_eq_ok {size offset length : Nat} :
    range size offset length = .ok () ↔ offset + length < 2 ^ 64 ∧ offset + length ≤ size := by
  unfold range
  split
  · rename_i crosses
    have outside : ¬ (offset + length < 2 ^ 64 ∧ decide (size < offset + length) = false) := fun inside => by
      rw [all_checkedAdd.mpr inside] at crosses
      contradiction
    simpa using outside
  · rename_i inside
    simpa using all_checkedAdd.mp (Bool.eq_false_iff.mpr inside)

/-- `DiskView`: a part of a disk of `diskSize` bytes. -/
structure DiskView (diskSize : Nat) where
  offset : Nat
  size : Nat
  positive : 0 < size
  within : offset + size ≤ diskSize

namespace DiskView

variable {diskSize : Nat}

/-- `new`. -/
def new (diskSize offset size : Nat) : Except String (DiskView diskSize) :=
  if invalid : size = 0 ∨ (checkedAdd offset size).all (diskSize < ·) then .error "Invalid disk view"
  else .ok {
    offset
    size
    positive := Nat.pos_of_ne_zero fun empty => invalid (.inl empty)
    within := by
      have inside := all_checkedAdd.mp (Bool.eq_false_iff.mpr fun all => invalid (.inr all))
      simpa using inside.2 }

/-- `translate`. -/
def translate (view : DiskView diskSize) (offset length : Nat) : Except String Nat :=
  (fun _ => view.offset + offset) <$> range view.size offset length

/-- The translation of `write_batch`, which stops at its first failure. -/
def translateAll (view : DiskView diskSize) (writes : List DiskWrite) :
    Except String (List DiskWrite) :=
  writes.mapM fun write =>
    (fun offset => ⟨offset, write.bytes⟩) <$> view.translate write.offset write.bytes.length

variable {State : Type u}

/-- `read_at`. -/
def readAt (view : DiskView diskSize) (backing : Nat → Nat → State → Except String Bytes)
    (offset length : Nat) (state : State) : Except String Bytes :=
  match view.translate offset length with
  | .error failure => .error failure
  | .ok offset => backing offset length state

/-- `write_at`. -/
def writeAt (view : DiskView diskSize) (backing : Nat → Bytes → State → State × Except String Unit)
    (offset : Nat) (bytes : Bytes) (state : State) : State × Except String Unit :=
  match view.translate offset bytes.length with
  | .error failure => (state, .error failure)
  | .ok offset => backing offset bytes state

/-- `write_batch`. -/
def writeBatch (view : DiskView diskSize)
    (backing : List DiskWrite → State → State × Except String Unit) (writes : List DiskWrite)
    (state : State) : State × Except String Unit :=
  match view.translateAll writes with
  | .error failure => (state, .error failure)
  | .ok translated => backing translated state

/-- A range inside the view moves by its offset. -/
theorem translate_eq_ok {view : DiskView diskSize} {offset length moved : Nat} :
    view.translate offset length = .ok moved ↔
      (offset + length < 2 ^ 64 ∧ offset + length ≤ view.size) ∧ moved = view.offset + offset := by
  unfold translate
  cases ranged : range view.size offset length with
  | error failure =>
      have outside : ¬ (offset + length < 2 ^ 64 ∧ offset + length ≤ view.size) := fun inside => by
        rw [range_eq_ok.mpr inside] at ranged
        contradiction
      simp only [outside, false_and, iff_false]
      exact fun impossible => nomatch impossible
  | ok =>
      simp only [range_eq_ok.mp ranged, and_self, true_and]
      exact ⟨fun moves => (Except.ok.inj moves).symm, fun moves => congrArg Except.ok moves.symm⟩

/-- The addition behind the check cannot overflow. -/
theorem translate_fits {view : DiskView diskSize} (bounded : diskSize < 2 ^ 64)
    {offset length moved : Nat} (translated : view.translate offset length = .ok moved) :
    moved + length ≤ diskSize ∧ view.offset + offset < 2 ^ 64 := by
  obtain ⟨⟨_, inside⟩, rfl⟩ := translate_eq_ok.mp translated
  have := view.within
  omega

end DiskView

/-- The position is one of the bytes that a write replaces. -/
def Covers (write : DiskWrite) (position : Nat) : Prop :=
  write.offset ≤ position ∧ position < write.offset + write.bytes.length

namespace DiskView

variable {diskSize : Nat}

end DiskView

end Cairn.Storage

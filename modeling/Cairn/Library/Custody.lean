import Mathlib.Data.Nat.Notation
import Mathlib.Tactic.Common

/-!
Owns numbered things of which each is always with exactly one holder: how the relation goes on when
a new one is handed out, and when one goes from a holder to another.

Does not own who the holders are.
-/

set_option autoImplicit false

namespace Cairn.Library.Custody

universe u

variable {Holder : Type u} {Holds Next : ℕ → Holder → Prop} {taken : ℕ}

/-- Each of the things that were handed out is with exactly one holder. -/
structure OneHolder (Holds : ℕ → Holder → Prop) (taken : ℕ) : Prop where
  known : ∀ thing holder, Holds thing holder → thing < taken
  held : ∀ thing, thing < taken → ∃ holder, Holds thing holder
  once : ∀ thing first second, Holds thing first → Holds thing second → first = second

theorem oneHolder_none (empty : ∀ thing holder, ¬ Holds thing holder) : OneHolder Holds 0 where
  known thing holder holds := absurd holds (empty thing holder)
  held thing bound := absurd bound (Nat.not_lt_zero thing)
  once thing first _ holds := absurd holds (empty thing first)

theorem OneHolder.congr (custody : OneHolder Holds taken)
    (same : ∀ thing holder, Next thing holder ↔ Holds thing holder) : OneHolder Next taken where
  known thing holder holds := custody.known thing holder ((same thing holder).mp holds)
  held thing bound := by
    apply (custody.held thing bound).imp
    intro holder holds
    exact (same thing holder).mpr holds
  once thing first second left right :=
    custody.once thing first second ((same thing first).mp left) ((same thing second).mp right)

/-- One more is handed out. -/
theorem OneHolder.take (custody : OneHolder Holds taken) {holder : Holder}
    (after : ∀ thing other, Next thing other ↔ Holds thing other ∨ thing = taken ∧ other = holder) :
    OneHolder Next (taken + 1) where
  known thing other holds := by
    rcases (after thing other).mp holds with old | ⟨new, -⟩
    · have bound := custody.known thing other old
      omega
    · omega
  held thing bound := by
    by_cases new : thing = taken
    · exact ⟨holder, (after thing holder).mpr (.inr ⟨new, rfl⟩)⟩
    · apply (custody.held thing (by omega)).imp
      intro other holds
      exact (after thing other).mpr (.inl holds)
  once thing first second left right := by
    rcases (after thing first).mp left with old | ⟨new, isFirst⟩
    · rcases (after thing second).mp right with old' | ⟨new, -⟩
      · exact custody.once thing first second old old'
      · have bound := custody.known thing first old
        omega
    · rcases (after thing second).mp right with old | ⟨-, isSecond⟩
      · have bound := custody.known thing second old
        omega
      · rw [isFirst, isSecond]

/-- One goes from its holder to another. -/
theorem OneHolder.move (custody : OneHolder Holds taken) {thing : ℕ} {source target : Holder}
    (held : Holds thing source) (gain : Next thing target) (lose : ¬ Next thing source)
    (frame : ∀ other holder, ¬ (other = thing ∧ (holder = source ∨ holder = target)) →
      (Next other holder ↔ Holds other holder)) : OneHolder Next taken := by
  -- nobody but the source had it, so nobody but the target has it
  have only : ∀ holder, Next thing holder → holder = target := by
    intro holder holds
    by_contra different
    by_cases same : holder = source
    · rw [same] at holds
      exact lose holds
    · have before := (frame thing holder (by tauto)).mp holds
      exact same (custody.once thing holder source before held)
  refine ⟨fun other holder holds => ?_, fun other bound => ?_, fun other first second left right => ?_⟩
  · by_cases same : other = thing
    · rw [same]
      exact custody.known thing source held
    · exact custody.known other holder ((frame other holder (by tauto)).mp holds)
  · by_cases same : other = thing
    · rw [same]
      exact ⟨target, gain⟩
    · apply (custody.held other bound).imp
      intro holder holds
      exact (frame other holder (by tauto)).mpr holds
  · by_cases same : other = thing
    · rw [same] at left right
      rw [only first left, only second right]
    · apply custody.once other
      · exact (frame other first (by tauto)).mp left
      · exact (frame other second (by tauto)).mp right

end Cairn.Library.Custody

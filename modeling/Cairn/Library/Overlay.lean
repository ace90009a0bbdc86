import Mathlib.Data.List.Induction

/-!
Owns overlays: a base content over positions and a sequence of patches written
onto it, the latest patch winning at every position it covers. Contents are
functions, so two ways to compute one are compared position by position.
-/

set_option autoImplicit false

namespace Cairn.Library.Overlay

universe u v

variable {Value : Type u}

/-- Values written from a start position on. -/
structure Patch (Value : Type u) where
  start : Nat
  data : List Value

namespace Patch

/-- The value a patch writes at a position. -/
def at? (patch : Patch Value) (position : Nat) : Option Value :=
  if patch.start ≤ position then patch.data[position - patch.start]? else none

/-- Writing the patch. -/
def apply (patch : Patch Value) (content : Nat → Value) : Nat → Value := fun position =>
  (patch.at? position).getD (content position)

theorem at?_eq_none {patch : Patch Value} {position : Nat} :
    patch.at? position = none ↔
      ¬ (patch.start ≤ position ∧ position < patch.start + patch.data.length) := by
  unfold at?
  split
  · rw [List.getElem?_eq_none_iff]
    omega
  · simp
    omega

end Patch

/-- The content after all patches, the last one on top. -/
def overlay (base : Nat → Value) (patches : List (Patch Value)) : Nat → Value :=
  patches.foldl (fun content patch => patch.apply content) base

@[simp] theorem overlay_nil (base : Nat → Value) : overlay base [] = base := rfl

theorem overlay_append (base : Nat → Value) (first second : List (Patch Value)) :
    overlay base (first ++ second) = overlay (overlay base first) second :=
  List.foldl_append

theorem overlay_concat (base : Nat → Value) (patches : List (Patch Value)) (last : Patch Value) :
    overlay base (patches ++ [last]) = last.apply (overlay base patches) := by
  rw [overlay_append]
  rfl

/-- Positions that no patch covers keep the base. -/
theorem overlay_eq_base {base : Nat → Value} {patches : List (Patch Value)} {position : Nat}
    (uncovered : ∀ patch ∈ patches, patch.at? position = none) :
    overlay base patches position = base position := by
  induction patches using List.reverseRecOn with
  | nil => rfl
  | append_singleton patches last inductionHypothesis =>
      rw [overlay_concat, Patch.apply, uncovered last (by simp), Option.getD_none]
      exact inductionHypothesis fun patch member => uncovered patch (List.mem_append_left _ member)

/-- The last patch that covers a position decides it. -/
theorem overlay_eq_newest {base : Nat → Value} {before after : List (Patch Value)}
    {patch : Patch Value} {position : Nat} {value : Value}
    (covers : patch.at? position = some value)
    (uncovered : ∀ later ∈ after, later.at? position = none) :
    overlay base (before ++ patch :: after) position = value := by
  rw [overlay_append, ← List.singleton_append, overlay_append, overlay_eq_base uncovered]
  show patch.apply (overlay base before) position = value
  rw [Patch.apply, covers, Option.getD_some]

/-- Contents that agree below keep agreeing. -/
theorem overlay_congr {first second : Nat → Value} (patches : List (Patch Value)) {position : Nat}
    (agree : first position = second position) :
    overlay first patches position = overlay second patches position := by
  induction patches using List.reverseRecOn with
  | nil => exact agree
  | append_singleton patches last inductionHypothesis =>
      rw [overlay_concat, overlay_concat, Patch.apply, Patch.apply, inductionHypothesis]

/-! ### Cutoffs -/

variable {Item : Type v}

/-- Items in ascending order split at a cutoff. -/
theorem filter_le_append_filter_lt {keyOf : Item → Nat} {items : List Item}
    (ascending : items.Pairwise fun first second => keyOf first ≤ keyOf second) (cutoff : Nat) :
    items.filter (fun item => keyOf item ≤ cutoff) ++ items.filter (fun item => cutoff < keyOf item) =
      items := by
  induction items with
  | nil => rfl
  | cons item rest inductionHypothesis =>
      obtain ⟨least, ascending⟩ := List.pairwise_cons.mp ascending
      by_cases below : keyOf item ≤ cutoff
      · rw [List.filter_cons_of_pos (by simpa using below),
          List.filter_cons_of_neg (by simpa using below), List.cons_append,
          inductionHypothesis ascending]
      · have above : ∀ other ∈ rest, cutoff < keyOf other := fun other member => by
          have := least other member
          omega
        rw [List.filter_cons_of_neg (by simpa using below),
          List.filter_cons_of_pos (by simpa using below),
          List.filter_eq_nil_iff.mpr fun other member => by simpa using above other member,
          List.filter_eq_self.mpr fun other member => by simpa using above other member]
        rfl

/-- Patches may be written in two parts, split at a cutoff of an ascending key. -/
theorem overlay_cutoff (base : Nat → Value) {keyOf : Item → Nat} {items : List Item}
    (ascending : items.Pairwise fun first second => keyOf first ≤ keyOf second)
    (patchOf : Item → Patch Value) (cutoff : Nat) :
    overlay (overlay base ((items.filter fun item => keyOf item ≤ cutoff).map patchOf))
        ((items.filter fun item => cutoff < keyOf item).map patchOf) =
      overlay base (items.map patchOf) := by
  rw [← overlay_append, ← List.map_append, filter_le_append_filter_lt ascending]

end Cairn.Library.Overlay

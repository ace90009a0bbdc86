import Mathlib.Data.List.Basic

/-!
Owns where an item of a list that grows at its end stands, for histories that are
extended one entry at a time.
-/

set_option autoImplicit false

namespace Cairn.Library.Lists

variable {Item : Type}

/-- An item of an extended list stands in the list or is the new one. -/
theorem append_singleton_split {items before after : List Item} {last item : Item} :
    items ++ [last] = before ++ item :: after ↔
      (after = [] ∧ before = items ∧ item = last) ∨
        ∃ rest, after = rest ++ [last] ∧ items = before ++ item :: rest := by
  constructor
  · intro split
    rcases List.eq_nil_or_concat after with rfl | ⟨rest, final, rfl⟩
    · obtain ⟨rfl, same⟩ := List.append_inj' split rfl
      exact .inl ⟨rfl, rfl, (List.cons.inj same).1.symm⟩
    · rw [List.concat_eq_append, ← List.cons_append, ← List.append_assoc] at split
      obtain ⟨same, isLast⟩ := List.append_inj' split rfl
      refine .inr ⟨rest, ?_, same⟩
      rw [List.concat_eq_append, (List.cons.inj isLast).1]
  · rintro (⟨rfl, rfl, rfl⟩ | ⟨rest, rfl, rfl⟩)
    · rfl
    · simp

end Cairn.Library.Lists

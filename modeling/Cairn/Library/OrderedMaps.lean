import Mathlib.Algebra.BigOperators.Group.List.Basic
import Mathlib.Algebra.Order.Ring.Nat
import Mathlib.Data.List.Sort

/-!
Owns what a verification of indexed data needs of ordered maps with natural
keys: lookups stated with equality of keys, the values in key order, and the
totals of a map that groups the entries of a list by a key.
-/

set_option autoImplicit false

namespace Cairn.Library.OrderedMaps

open Std (ExtTreeMap)

universe u v

variable {Value : Type u} {map : ExtTreeMap Nat Value}

/-! ### Lookups -/

theorem getElem?_insert (key other : Nat) (value : Value) :
    (map.insert key value)[other]? = if key = other then some value else map[other]? := by
  simp [ExtTreeMap.getElem?_insert]

theorem getElem?_erase (key other : Nat) :
    (map.erase key)[other]? = if key = other then none else map[other]? := by
  simp [ExtTreeMap.getElem?_erase]

theorem getElem?_modify (key other : Nat) (change : Value → Value) :
    (map.modify key change)[other]? = if key = other then map[key]?.map change else map[other]? := by
  simp [ExtTreeMap.getElem?_modify]

@[simp] theorem getElem?_empty (key : Nat) : (∅ : ExtTreeMap Nat Value)[key]? = none := by
  simp

/-- Changing every key of a duplicate-free list, one after the other. -/
theorem getElem?_foldl {step : ExtTreeMap Nat Value → Nat → ExtTreeMap Nat Value}
    (change : Option Value → Option Value)
    (changes : ∀ (map : ExtTreeMap Nat Value) key other,
      (step map key)[other]? = if key = other then change map[key]? else map[other]?)
    {keys : List Nat} (distinct : keys.Nodup) (map : ExtTreeMap Nat Value) (other : Nat) :
    (keys.foldl step map)[other]? = if other ∈ keys then change map[other]? else map[other]? := by
  induction keys generalizing map with
  | nil => simp
  | cons key rest inductionHypothesis =>
      obtain ⟨fresh, distinct⟩ := List.nodup_cons.mp distinct
      rw [List.foldl_cons, inductionHypothesis distinct, changes]
      by_cases same : other = key
      · subst other
        simp [fresh]
      · simp [same, Ne.symm same]

/-! ### Values -/

/-- The values in ascending order of their keys. -/
def values (map : ExtTreeMap Nat Value) : List Value := map.toList.map Prod.snd

theorem mem_values {value : Value} : value ∈ values map ↔ ∃ key : Nat, map[key]? = some value := by
  simp only [values, List.mem_map, Prod.exists, ExtTreeMap.mem_toList_iff_getElem?_eq_some,
    exists_eq_right]

/-- Values that carry their own key are listed in strictly ascending order. -/
theorem values_pairwise {keyOf : Value → Nat}
    (carried : ∀ key value, map[key]? = some value → keyOf value = key) :
    (values map).Pairwise fun first second => keyOf first < keyOf second := by
  have ordered := ExtTreeMap.ordered_keys_toList (t := map)
  have entries : ∀ entry ∈ map.toList, keyOf entry.2 = entry.1 := fun entry member =>
    carried entry.1 entry.2 (ExtTreeMap.mem_toList_iff_getElem?_eq_some.mp member)
  rw [values, List.pairwise_map]
  refine ordered.imp_of_mem fun {first second} firstMem secondMem before => ?_
  rw [entries first firstMem, entries second secondMem]
  exact compare_lt_iff_lt.mp before

/-! ### Totals of groups -/

variable {Item : Type v}

private theorem sum_single {keys : List Nat} (distinct : keys.Nodup) {key weight : Nat}
    (member : key ∈ keys) :
    (keys.map fun other => if key = other then weight else 0).sum = weight := by
  induction keys with
  | nil => cases member
  | cons head rest inductionHypothesis =>
      obtain ⟨fresh, distinct⟩ := List.nodup_cons.mp distinct
      rw [List.map_cons, List.sum_cons]
      by_cases same : key = head
      · subst key
        have others : rest.map (fun other => if head = other then weight else 0) =
            rest.map fun _ => 0 :=
          List.map_congr_left fun other isRest => if_neg fun (same : head = other) => fresh (same ▸ isRest)
        rw [others]
        simp
      · rw [if_neg same, inductionHypothesis distinct ((List.mem_cons.mp member).resolve_left same),
          Nat.zero_add]

/-- A sum over groups is the sum over the grouped list. -/
theorem sum_groups {keys : List Nat} (distinct : keys.Nodup) (keyOf weight : Item → Nat)
    (items : List Item) (covered : ∀ item ∈ items, keyOf item ∈ keys) :
    (keys.map fun key => ((items.filter fun item => keyOf item = key).map weight).sum).sum =
      (items.map weight).sum := by
  induction items with
  | nil => simp
  | cons item rest inductionHypothesis =>
      have rest_covered := fun other member => covered other (List.mem_cons_of_mem item member)
      have split : ∀ key : Nat,
          (((item :: rest).filter fun other => keyOf other = key).map weight).sum =
            (if keyOf item = key then weight item else 0) +
              ((rest.filter fun other => keyOf other = key).map weight).sum := by
        intro key
        by_cases same : keyOf item = key <;> simp [same]
      rw [List.map_congr_left fun key _ => split key, List.sum_map_add,
        sum_single distinct (covered item (by simp)), inductionHypothesis rest_covered]
      simp

/-- The least values of two lists agree when each bounds the other. -/
theorem min?_eq_min? {first second : List Nat}
    (firstBounded : ∀ value ∈ first, ∃ below ∈ second, below ≤ value)
    (secondBounded : ∀ value ∈ second, ∃ below ∈ first, below ≤ value) :
    first.min? = second.min? := by
  cases found : second.min? with
  | none =>
      rw [List.min?_eq_none_iff] at found ⊢
      subst second
      refine List.eq_nil_iff_forall_not_mem.mpr fun value member => ?_
      obtain ⟨_, impossible, -⟩ := firstBounded value member
      cases impossible
  | some least =>
      rw [List.min?_eq_some_iff] at found ⊢
      obtain ⟨below, belowMem, belowLeast⟩ := secondBounded least found.1
      obtain ⟨other, otherMem, otherBelow⟩ := firstBounded below belowMem
      have same : below = least := by
        have := found.2 other otherMem
        omega
      refine ⟨same ▸ belowMem, fun value member => ?_⟩
      obtain ⟨bound, boundMem, bounded⟩ := firstBounded value member
      exact (found.2 bound boundMem).trans bounded

end Cairn.Library.OrderedMaps

import Mathlib.Algebra.Order.BigOperators.Group.List
import Mathlib.Algebra.Order.Ring.Nat
import Mathlib.Data.List.AList

/-!
Owns what a verification of keyed tables adds to Mathlib's association lists:
tables with one type of values, their size, the removal of the entries that
fail a test, and lookups stated with equality of keys.
-/

set_option autoImplicit false

namespace Cairn.Library.HashMaps

universe u v

/-- A finite table from keys to values, each key at most once. -/
abbrev HashMap (Key : Type u) (Value : Type v) := AList (fun _ : Key => Value)

variable {Key : Type u} {Value : Type v}

/-- The number of entries. -/
def size (table : HashMap Key Value) : Nat := table.entries.length

/-- Keep the entries that pass a test. -/
def retain (keep : Key → Value → Bool) (table : HashMap Key Value) : HashMap Key Value :=
  ⟨table.entries.filter fun entry => keep entry.1 entry.2,
    table.nodupKeys.sublist List.filter_sublist⟩

/-- The total of a quantity over the values. -/
def sum (quantity : Value → Nat) (table : HashMap Key Value) : Nat :=
  (table.entries.map fun entry => quantity entry.2).sum

@[simp] theorem sum_empty (quantity : Value → Nat) : sum quantity (∅ : HashMap Key Value) = 0 :=
  rfl

variable [DecidableEq Key]

/-- The value of a key, or a default. -/
def getD (table : HashMap Key Value) (key : Key) (default : Value) : Value :=
  (table.lookup key).getD default

theorem lookup_insert (table : HashMap Key Value) (key other : Key) (value : Value) :
    (table.insert key value).lookup other =
      if other = key then some value else table.lookup other := by
  by_cases same : other = key
  · subst other
    simp
  · rw [if_neg same, AList.lookup_insert_ne same]

theorem lookup_erase (table : HashMap Key Value) (key other : Key) :
    (table.erase key).lookup other = if other = key then none else table.lookup other := by
  by_cases same : other = key
  · subst other
    simp
  · rw [if_neg same, AList.lookup_erase_ne same]

/-- Change the value of a key that has one. -/
def modify (key : Key) (change : Value → Value) (table : HashMap Key Value) : HashMap Key Value :=
  match table.lookup key with
  | some value => table.insert key (change value)
  | none => table

theorem lookup_modify (key other : Key) (change : Value → Value) (table : HashMap Key Value) :
    (modify key change table).lookup other =
      if other = key then (table.lookup key).map change else table.lookup other := by
  unfold modify
  split
  · rename_i value found
    rw [lookup_insert, found]
    rfl
  · rename_i absent
    split
    · rename_i same
      rw [same, absent]
      rfl
    · rfl

/-- The other entries of a table after one is erased. -/
theorem lookup_of_erase {table : HashMap Key Value} {key other : Key} {value : Value}
    (found : (table.erase key).lookup other = some value) :
    other ≠ key ∧ table.lookup other = some value := by
  rw [lookup_erase] at found
  split at found
  · cases found
  · exact ⟨by assumption, found⟩

theorem eq_empty_of_lookup {table : HashMap Key Value} (absent : ∀ key, table.lookup key = none) :
    table = ∅ :=
  AList.ext (List.eq_nil_iff_forall_not_mem.mpr fun entry member => by
    simpa [absent] using AList.mem_lookup_iff.mpr member)

theorem getD_insert (table : HashMap Key Value) (key other : Key) (value default : Value) :
    getD (table.insert key value) other default =
      if other = key then value else getD table other default := by
  unfold getD
  rw [lookup_insert]
  by_cases same : other = key <;> simp [same]

theorem lookup_retain (keep : Key → Value → Bool) (table : HashMap Key Value) (key : Key) :
    (retain keep table).lookup key = (table.lookup key).filter (keep key) := by
  ext value
  have unique : ∀ other, (⟨key, other⟩ : Sigma fun _ : Key => Value) ∈ table.entries →
      table.lookup key = some other := fun other stored => AList.mem_lookup_iff.mpr stored
  rw [← Option.mem_def, AList.mem_lookup_iff, Option.filter_eq_some_iff]
  simp only [retain, List.mem_filter]
  constructor
  · rintro ⟨stored, kept⟩
    exact ⟨unique value stored, kept⟩
  · rintro ⟨stored, kept⟩
    exact ⟨AList.mem_lookup_iff.mp stored, kept⟩

theorem kerase_eq_filter {entries : List (Sigma fun _ : Key => Value)}
    (unique : entries.NodupKeys) (key : Key) :
    entries.kerase key = entries.filter fun entry => entry.1 ≠ key := by
  induction entries with
  | nil => rfl
  | cons entry rest inductionHypothesis =>
      obtain ⟨absent, unique⟩ := List.nodupKeys_cons.mp unique
      by_cases same : key = entry.1
      · subst same
        have kept : rest.filter (fun other => other.1 ≠ entry.1) = rest :=
          List.filter_eq_self.mpr fun other member => by
            have distinct : other.1 ≠ entry.1 := fun equal =>
              absent (equal ▸ List.mem_keys_of_mem member)
            simpa using distinct
        rw [List.kerase_cons_eq rfl, List.filter_cons_of_neg (by simp), kept]
      · rw [List.kerase_cons_ne same, inductionHypothesis unique,
          List.filter_cons_of_pos (by simpa using Ne.symm same)]

/-- Erasing a key keeps the entries with another key. -/
theorem erase_eq_retain (table : HashMap Key Value) (key : Key) :
    table.erase key = retain (fun other _ => other ≠ key) table :=
  AList.ext (kerase_eq_filter table.nodupKeys key)

/-! ### Totals -/

variable (quantity : Value → Nat)

/-- An entry contributes its own quantity, and erasing it takes that away. -/
theorem sum_eq_add_erase {table : HashMap Key Value} {key : Key} {value : Value}
    (found : table.lookup key = some value) :
    sum quantity table = quantity value + sum quantity (table.erase key) := by
  have stored : key ∈ table := AList.lookup_isSome.mp (by rw [found]; rfl)
  obtain ⟨other, before, after, _, entries, erased⟩ := List.exists_of_kerase stored
  have member : (⟨key, other⟩ : Sigma fun _ : Key => Value) ∈ table.entries := by simp [entries]
  obtain rfl : value = other :=
    Option.some.inj (found.symm.trans (AList.mem_lookup_iff.mpr member))
  have erasedEntries : (table.erase key).entries = before ++ after := erased
  simp only [sum, entries, erasedEntries, List.map_append, List.map_cons, List.sum_append,
    List.sum_cons]
  omega

theorem sum_insert (table : HashMap Key Value) (key : Key) (value : Value) :
    sum quantity (table.insert key value) = quantity value + sum quantity (table.erase key) := by
  have others : (table.erase key).entries = table.entries.kerase key := rfl
  simp [sum, AList.entries_insert, others]

theorem erase_of_notMem {table : HashMap Key Value} {key : Key} (absent : key ∉ table) :
    table.erase key = table :=
  AList.ext (List.kerase_of_notMem_keys absent)

theorem sum_insert_of_notMem {table : HashMap Key Value} {key : Key} (value : Value)
    (absent : key ∉ table) :
    sum quantity (table.insert key value) = quantity value + sum quantity table := by
  rw [sum_insert, erase_of_notMem absent]

/-- Replacing an entry exchanges its quantity. -/
theorem sum_replace {table : HashMap Key Value} {key : Key} {old : Value}
    (found : table.lookup key = some old) (value : Value) :
    sum quantity (table.insert key value) + quantity old = sum quantity table + quantity value := by
  rw [sum_insert, sum_eq_add_erase quantity found]
  omega

theorem le_sum {table : HashMap Key Value} {key : Key} {value : Value}
    (found : table.lookup key = some value) : quantity value ≤ sum quantity table := by
  rw [sum_eq_add_erase quantity found]
  exact Nat.le_add_right _ _

/-- Quantities ordered at every entry have ordered totals. -/
theorem sum_le_sum {first second : Value → Nat} {table : HashMap Key Value}
    (ordered : ∀ key value, table.lookup key = some value → first value ≤ second value) :
    sum first table ≤ sum second table :=
  List.sum_le_sum fun entry member =>
    ordered entry.1 entry.2 (AList.mem_lookup_iff.mpr member)

theorem sum_congr {first second : Value → Nat} {table : HashMap Key Value}
    (same : ∀ key value, table.lookup key = some value → first value = second value) :
    sum first table = sum second table :=
  congrArg List.sum (List.map_congr_left fun entry member =>
    same entry.1 entry.2 (AList.mem_lookup_iff.mpr member))

omit [DecidableEq Key] in
theorem sum_retain_le (keep : Key → Value → Bool) (table : HashMap Key Value) :
    sum quantity (retain keep table) ≤ sum quantity table :=
  (List.filter_sublist.map _).sum_le_sum fun _ _ => Nat.zero_le _

theorem sum_eq_zero {table : HashMap Key Value}
    (zero : ∀ key value, table.lookup key = some value → quantity value = 0) :
    sum quantity table = 0 :=
  List.sum_eq_zero fun _ member => by
    obtain ⟨entry, stored, rfl⟩ := List.mem_map.mp member
    exact zero entry.1 entry.2 (AList.mem_lookup_iff.mpr stored)

/-! ### Sizes -/

theorem size_insert_of_notMem {table : HashMap Key Value} {key : Key} (value : Value)
    (absent : key ∉ table) : size (table.insert key value) = size table + 1 := by
  have entries : (table.insert key value).entries = ⟨key, value⟩ :: table.entries :=
    AList.entries_insert_of_notMem absent
  unfold size
  rw [entries, List.length_cons]

omit [DecidableEq Key] in
/-- A table whose keys are among those of another is no larger. -/
theorem size_le_size {Other : Type v} {table : HashMap Key Value} {other : HashMap Key Other}
    (inside : ∀ key ∈ table, key ∈ other) : size table ≤ size other := by
  have keys : table.keys.Subperm other.keys :=
    List.subperm_of_subset table.keys_nodup fun key member => inside key member
  have lengths := keys.length_le
  simpa [size, AList.keys, List.keys] using lengths

theorem size_erase_lt {table : HashMap Key Value} {key : Key} (present : key ∈ table) :
    size (table.erase key) < size table := by
  have absent : key ∉ table.erase key := AList.lookup_eq_none.mp (AList.lookup_erase key table)
  obtain ⟨value, found⟩ := Option.isSome_iff_exists.mp (AList.lookup_isSome.mpr present)
  have larger := size_insert_of_notMem value absent
  have bounded : size ((table.erase key).insert key value) ≤ size table := by
    refine size_le_size fun other member => ?_
    rw [AList.mem_insert] at member
    rcases member with rfl | member
    · exact present
    · exact (AList.mem_erase.mp member).2
  omega

end Cairn.Library.HashMaps

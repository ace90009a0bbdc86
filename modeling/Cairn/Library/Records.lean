import Mathlib.Algebra.Order.Ring.Nat
import Mathlib.Data.List.Nodup

/-!
Owns tables kept as lists of records that name their own key: storing a record
replaces the one with its key. `total_put_of_found` and `total_put_of_absent` say how a
total over the table changes, which is what bounds and balances need.
-/

set_option autoImplicit false

namespace Cairn.Library.Records

universe u v

variable {Record : Type u} {Key : Type v} [DecidableEq Key] (key : Record → Key)

/-- The record of a key. -/
def find (id : Key) (records : List Record) : Option Record :=
  records.find? fun record => key record = id

/-- The records with another key. -/
def remove (id : Key) (records : List Record) : List Record :=
  records.filter fun record => key record ≠ id

/-- Store a record in place of the one with its key. -/
def put (record : Record) (records : List Record) : List Record :=
  record :: remove key (key record) records

omit [DecidableEq Key] in
/-- No two records share a key. -/
def Keyed (records : List Record) : Prop := (records.map key).Nodup

variable {key} {id : Key} {record old : Record} {records : List Record}

theorem mem_of_find (found : find key id records = some record) :
    record ∈ records ∧ key record = id :=
  ⟨List.mem_of_find?_eq_some found, of_decide_eq_true (List.find?_some found :)⟩

theorem find_of_mem (keyed : Keyed key records) (member : record ∈ records) :
    find key (key record) records = some record := by
  induction records with
  | nil => exact absurd member List.not_mem_nil
  | cons head rest inductionHypothesis =>
      obtain ⟨absent, keyed⟩ := List.nodup_cons.mp keyed
      rcases List.mem_cons.mp member with rfl | later
      · exact List.find?_cons_of_pos (by simp)
      · have apart : key head ≠ key record := fun same =>
          absent (List.mem_map.mpr ⟨record, later, same.symm⟩)
        rw [find, List.find?_cons_of_neg (by simpa using apart)]
        exact inductionHypothesis keyed later

theorem find_none_iff : find key id records = none ↔ ∀ record ∈ records, key record ≠ id := by
  simp [find]

@[simp] theorem mem_remove : record ∈ remove key id records ↔ record ∈ records ∧ key record ≠ id := by
  simp [remove]

@[simp] theorem mem_put {other : Record} :
    other ∈ put key record records ↔ other = record ∨ other ∈ records ∧ key other ≠ key record := by
  simp [put]

theorem remove_of_absent (absent : find key id records = none) : remove key id records = records :=
  List.filter_eq_self.mpr fun other member => by
    simpa using find_none_iff.mp absent other member

theorem keyed_put (keyed : Keyed key records) : Keyed key (put key record records) := by
  refine List.nodup_cons.mpr ⟨?_, keyed.sublist (List.filter_sublist.map key)⟩
  rintro member
  obtain ⟨other, isOther, same⟩ := List.mem_map.mp member
  exact (mem_remove.mp isOther).2 same

theorem find_put :
    find key id (put key record records) =
      if id = key record then some record else find key id records := by
  by_cases same : id = key record
  · rw [if_pos same]
    exact List.find?_cons_of_pos (by simp [same])
  · rw [if_neg same, find, put, List.find?_cons_of_neg (by simpa using Ne.symm same), remove,
      List.find?_filter, find]
    refine congrArg (fun test => records.find? test) (funext fun other => ?_)
    by_cases named : key other = id
    · simp [named, same]
    · simp [named]

theorem find_remove {other : Key} :
    find key id (remove key other records) = if id = other then none else find key id records := by
  by_cases same : id = other
  · subst same
    rw [if_pos rfl]
    exact find_none_iff.mpr fun record member => (mem_remove.mp member).2
  · rw [if_neg same, find, remove, List.find?_filter, find]
    refine congrArg (fun test => records.find? test) (funext fun record => ?_)
    by_cases named : key record = id
    · simp [named, same]
    · simp [named]

/-- A change that keeps the keys changes the record that is found. -/
theorem find_map {change : Record → Record} (kept : ∀ record, key (change record) = key record) :
    find key id (records.map change) = (find key id records).map change := by
  rw [find, List.find?_map, find]
  exact congrArg (fun test => (records.find? test).map change)
    (funext fun record => by simp [Function.comp, kept])

/-! ### Totals -/

/-- The total of a quantity over a table. -/
def total (quantity : Record → Nat) (records : List Record) : Nat := (records.map quantity).sum

omit [DecidableEq Key] in
@[simp] theorem total_cons (quantity : Record → Nat) :
    total quantity (record :: records) = quantity record + total quantity records := by
  simp [total]

omit [DecidableEq Key] in
theorem countP_eq_total (test : Record → Bool) :
    records.countP test = total (fun record => if test record then 1 else 0) records := by
  induction records with
  | nil => rfl
  | cons head tail inductionHypothesis =>
      rw [List.countP_cons, total_cons, inductionHypothesis, Nat.add_comm]

/-- A record contributes its own quantity to a total. -/
theorem total_remove_of_found (keyed : Keyed key records) (quantity : Record → Nat)
    (found : find key id records = some old) :
    total quantity (remove key id records) + quantity old = total quantity records := by
  induction records with
  | nil => simp [find] at found
  | cons head tail inductionHypothesis =>
      obtain ⟨absent, keyed⟩ := List.nodup_cons.mp keyed
      by_cases same : key head = id
      · rw [find, List.find?_cons_of_pos (by simpa using same)] at found
        obtain rfl := Option.some.inj found
        have alone : find key id tail = none :=
          find_none_iff.mpr fun other member equal =>
            absent (List.mem_map.mpr ⟨other, member, equal.trans same.symm⟩)
        rw [remove, List.filter_cons_of_neg (by simpa using same), total_cons, Nat.add_comm]
        exact congrArg (fun kept => quantity head + total quantity kept) (remove_of_absent alone)
      · rw [find, List.find?_cons_of_neg (by simpa using same)] at found
        have kept := inductionHypothesis keyed found
        rw [remove, List.filter_cons_of_pos (by simpa using same), total_cons, total_cons,
          Nat.add_assoc]
        exact congrArg (quantity head + ·) kept

/-- Replacing a record takes its share of a total away and adds that of the new one. -/
theorem total_put_of_found (keyed : Keyed key records) (quantity : Record → Nat)
    (found : find key (key record) records = some old) :
    total quantity (put key record records) + quantity old =
      total quantity records + quantity record := by
  have kept := total_remove_of_found keyed quantity found
  rw [put, total_cons]
  omega

/-- A record with a new key adds its share to a total. -/
theorem total_put_of_absent (quantity : Record → Nat)
    (absent : find key (key record) records = none) :
    total quantity (put key record records) = total quantity records + quantity record := by
  rw [put, remove_of_absent absent, total_cons, Nat.add_comm]

/-- Replacing a record takes its share of a count away and adds that of the new one. -/
theorem countP_put_of_found (keyed : Keyed key records) (test : Record → Bool)
    (found : find key (key record) records = some old) :
    (put key record records).countP test + (if test old then 1 else 0) =
      records.countP test + (if test record then 1 else 0) := by
  rw [countP_eq_total, countP_eq_total]
  exact total_put_of_found keyed _ found

/-- A record with a new key adds its share to a count. -/
theorem countP_put_of_absent (test : Record → Bool)
    (absent : find key (key record) records = none) :
    (put key record records).countP test = records.countP test + (if test record then 1 else 0) := by
  rw [countP_eq_total, countP_eq_total]
  exact total_put_of_absent _ absent

end Cairn.Library.Records

import Cairn.Nodes.SharedBlocksFrames

/-!
Owns the safety and the progress of shared-object collection: what `claim`
selects, and that in every reachable inventory it can only select objects no
publication references, while every other object remains selectable.
-/

set_option autoImplicit false

namespace Cairn.Nodes.SharedBlocks

open Cairn.Library.Transactions

/-! ### `claim` -/

instance : Std.Total claimedBefore :=
  ⟨fun first second => by unfold claimedBefore; omega⟩

instance : IsTrans ObjectRow claimedBefore :=
  ⟨fun first second third start rest => by unfold claimedBefore at *; omega⟩

/-- A claim takes every eligible object, or a full batch of objects that are
ordered before the ones it leaves. -/
theorem claimable_full {db : Db} {cutoff now : Int} {row : ObjectRow} (member : row ∈ db.objects)
    (eligible : Eligible db cutoff now row) (left : row ∉ claimable db cutoff now) :
    (claimable db cutoff now).length = batch ∧
      ∀ taken ∈ claimable db cutoff now, claimedBefore taken row := by
  unfold claimable at left ⊢
  generalize sortedEq : (db.objects.filter fun row => Eligible db cutoff now row).insertionSort
    claimedBefore = sorted at left ⊢
  have sortedMem : row ∈ sorted := by
    rw [← sortedEq, List.mem_insertionSort]
    exact List.mem_filter.mpr ⟨member, by simpa using eligible⟩
  have ordered : sorted.Pairwise claimedBefore := by
    rw [← sortedEq]
    exact List.pairwise_insertionSort ..
  rw [← List.take_append_drop batch sorted] at sortedMem ordered
  have dropped : row ∈ sorted.drop batch := (List.mem_append.mp sortedMem).resolve_left left
  have long : batch < sorted.length := by
    have := List.length_pos_of_mem dropped
    rw [List.length_drop] at this
    omega
  refine ⟨by rw [List.length_take]; omega, fun taken takenMem => ?_⟩
  exact (List.pairwise_append.mp ordered).2.2 taken takenMem row dropped

/-- Every shared deletion of a claim names an eligible object. -/
theorem claim_shared {db : Db} {cutoff : Int} {clock : Nat → Int} {deletion : Deletion}
    (member : deletion ∈ (claim cutoff clock db).2) (shared : deletion.shared) :
    ∃ row ∈ db.objects, row.id = deletion.id ∧ Eligible db cutoff (clock 0) row := by
  rcases List.mem_append.mp member with isObject | isQueued
  · obtain ⟨row, claimed, rfl⟩ := List.mem_map.mp isObject
    obtain ⟨rowMem, eligible⟩ := mem_claimable claimed
    exact ⟨row, rowMem, rfl, eligible⟩
  · obtain ⟨row, -, rfl⟩ := List.mem_map.mp isQueued
    cases shared

theorem claim_mem {db : Db} {cutoff : Int} {clock : Nat → Int} {row : ObjectRow}
    (claimed : row ∈ claimable db cutoff (clock 0)) :
    ⟨row.id, row.location, key row.hash row.id, false, true⟩ ∈ (claim cutoff clock db).2 :=
  List.mem_append_left _ (List.mem_map_of_mem claimed)

theorem claim_unreferenced {db : Db} {cutoff : Int} {clock : Nat → Int} {deletion : Deletion}
    (member : deletion ∈ (claim cutoff clock db).2) (shared : deletion.shared) :
    ¬ db.Referenced deletion.id := by
  obtain ⟨row, -, same, eligible⟩ := claim_shared member shared
  exact same ▸ eligible.2.2

/-! ### Sound inventories -/

/-- An unreferenced object of a sound inventory is eligible from the moment it
became unused and its retry delay passed. -/
theorem Sound.eligible {db : Db} (sound : Sound db) {row : ObjectRow} (member : row ∈ db.objects)
    (unreferenced : ¬ db.Referenced row.id) :
    ∃ at_, row.unusedAt = some at_ ∧
      ∀ cutoff now, at_ ≤ cutoff → row.retryAt ≤ now → Eligible db cutoff now row := by
  obtain ⟨at_, isUnused⟩ := Option.ne_none_iff_exists'.mp
    ((sound.unused row member).not.mpr unreferenced)
  exact ⟨at_, isUnused, fun cutoff now old retry => ⟨⟨at_, isUnused, old⟩, retry, unreferenced⟩⟩

/-- What the collection of a reachable inventory guarantees. -/
theorem collection_safe (digests : Digests) (transactions : List Transaction) :
    let db := runs (Transaction.apply digests) {} transactions
    (∀ row ∈ db.objects, row.unusedAt = none ↔ db.Referenced row.id) ∧
    (∀ row ∈ db.objects, db.Referenced row.id →
      row.state ≠ .deleting ∧
      (∀ cutoff clock, ∀ deletion ∈ (claim cutoff clock db).2,
        deletion.shared → deletion.id ≠ row.id) ∧
      ∀ (transaction : Transaction) next, transaction.apply digests db = .ok next →
        ∃ kept ∈ next.objects, row.Continues kept) ∧
    (∀ first ∈ db.objects, ∀ second ∈ db.objects,
      first.destination = second.destination → first.hash = second.hash →
        first.state = .ready → second.state = .ready → first = second) ∧
    (∀ row ∈ db.objects, row.state = .pending → ∀ first second,
      ⟨first, row.id⟩ ∈ db.references → ⟨second, row.id⟩ ∈ db.references → first = second) ∧
    (∀ row ∈ db.objects, ¬ db.Referenced row.id →
      (∃ at_, row.unusedAt = some at_ ∧ ∀ cutoff clock, at_ ≤ cutoff → row.retryAt ≤ clock 0 →
        ⟨row.id, row.location, key row.hash row.id, false, true⟩ ∈ (claim cutoff clock db).2 ∨
          ((claimable db cutoff (clock 0)).length = batch ∧
            ∀ taken ∈ claimable db cutoff (clock 0), claimedBefore taken row)) ∧
      ∀ (transaction : Transaction) next, transaction.apply digests db = .ok next →
        (∃ kept ∈ next.objects, row.Continues kept) ∨
          (row.state = .deleting ∧ ∃ completed, transaction = .finish completed ∧
            ∃ deletion ∈ completed, deletion.shared ∧ deletion.id = row.id)) := by
  intro db
  have sound : Sound db := .runs digests transactions
  refine ⟨sound.unused, fun row member referenced => ⟨sound.live row member referenced, ?_, ?_⟩,
    ?_, ?_, fun row member unreferenced => ⟨?_, ?_⟩⟩
  · rintro cutoff clock deletion claimed shared same
    exact claim_unreferenced claimed shared (same ▸ referenced)
  · intro transaction next applied
    exact (transaction_keeps applied member).resolve_right fun removed => removed.2.1 referenced
  · intro first firstMem second secondMem destination hash firstReady secondReady
    exact sound.row_eq firstMem secondMem
      (sound.oneReady first firstMem second secondMem destination hash firstReady secondReady)
  · intro row member pending first second firstHolds secondHolds
    have same := sound.pendingOnce row member pending _ firstHolds _ secondHolds rfl rfl
    injection same
  · obtain ⟨at_, isUnused, eligible⟩ := sound.eligible member unreferenced
    refine ⟨at_, isUnused, fun cutoff clock old retry => ?_⟩
    by_cases claimed : row ∈ claimable db cutoff (clock 0)
    · exact Or.inl (claim_mem claimed)
    · exact Or.inr (claimable_full member (eligible cutoff (clock 0) old retry) claimed)
  · intro transaction next applied
    refine (transaction_keeps applied member).imp id fun removed => ⟨removed.1, removed.2.2⟩

end Cairn.Nodes.SharedBlocks

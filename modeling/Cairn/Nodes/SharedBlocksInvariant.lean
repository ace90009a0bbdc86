import Cairn.Library.Results
import Cairn.Library.Transactions
import Cairn.Nodes.SharedBlocks

/-!
Owns the inventory invariant `Sound`. It links the two soft-delete
representations, the reference rows and the `unused_at` timestamps; every
transaction keeps it, so it holds after every run from the empty inventory.
-/

set_option autoImplicit false

namespace Cairn.Nodes.SharedBlocks

open Cairn.Library.Results Cairn.Library.Transactions

/-- The inventory invariant. -/
structure Sound (db : Db) : Prop where
  objectIds : (db.objects.map ObjectRow.id).Nodup
  references : db.references.Nodup
  targets : ∀ reference ∈ db.references, db.HasTargets reference
  unused : ∀ row ∈ db.objects, row.unusedAt = none ↔ db.Referenced row.id
  live : ∀ row ∈ db.objects, db.Referenced row.id → row.state ≠ .deleting
  oneReady : ∀ first ∈ db.objects, ∀ second ∈ db.objects,
    first.destination = second.destination → first.hash = second.hash →
      first.state = .ready → second.state = .ready → first.id = second.id
  pendingOnce : ∀ row ∈ db.objects, row.state = .pending →
    ∀ first ∈ db.references, ∀ second ∈ db.references,
      first.object = row.id → second.object = row.id → first = second

theorem Sound.empty : Sound {} := by
  constructor <;> simp

/-- Rows of a sound inventory are determined by their identifier. -/
theorem Sound.row_eq {db : Db} (sound : Sound db) {first second : ObjectRow}
    (firstMem : first ∈ db.objects) (secondMem : second ∈ db.objects)
    (same : first.id = second.id) : first = second :=
  List.inj_on_of_nodup_map sound.objectIds firstMem secondMem same

/-! ### Statements -/

namespace Db

variable {db next : Db}

theorem referenced_iff (object : String) :
    db.Referenced object ↔ ∃ publication, (⟨publication, object⟩ : Reference) ∈ db.references := by
  constructor
  · rintro ⟨⟨publication, _⟩, member, rfl⟩
    exact ⟨publication, member⟩
  · rintro ⟨publication, member⟩
    exact ⟨_, member, rfl⟩

@[simp] theorem updateObject_references (id : String) (change : ObjectRow → ObjectRow) :
    (db.updateObject id change).references = db.references := rfl

@[simp] theorem updateObject_publications (id : String) (change : ObjectRow → ObjectRow) :
    (db.updateObject id change).publications = db.publications := rfl

@[simp] theorem updateObject_referenced (id : String) (change : ObjectRow → ObjectRow)
    (object : String) :
    (db.updateObject id change).Referenced object ↔ db.Referenced object := Iff.rfl

theorem mem_updateObject (id : String) (change : ObjectRow → ObjectRow) (row : ObjectRow) :
    row ∈ (db.updateObject id change).objects ↔
      ∃ old ∈ db.objects, (if old.id = id then change old else old) = row := by
  simp [updateObject]

theorem updateObject_ids (id : String) (change : ObjectRow → ObjectRow)
    (keepsId : ∀ row, (change row).id = row.id) :
    (db.updateObject id change).objects.map ObjectRow.id = db.objects.map ObjectRow.id := by
  simp only [updateObject, List.map_map]
  refine List.map_congr_left fun row _ => ?_
  simp only [Function.comp_apply]
  split
  · exact keepsId row
  · rfl

theorem insertPublication_ok {row : PublicationRow} (inserted : db.insertPublication row = .ok next) :
    row.id ∉ db.publications.map PublicationRow.id ∧
      next = { db with publications := db.publications ++ [row] } := by
  unfold insertPublication at inserted
  split at inserted
  · cases inserted
  · exact ⟨‹_›, by simpa using inserted.symm⟩

theorem insertObject_ok {row : ObjectRow} (inserted : db.insertObject row = .ok next) :
    row.id ∉ db.objects.map ObjectRow.id ∧
      next = { db with objects := db.objects ++ [row] } := by
  unfold insertObject at inserted
  split at inserted
  · cases inserted
  · exact ⟨‹_›, by simpa using inserted.symm⟩

theorem insertReference_ok {reference : Reference}
    (inserted : db.insertReference reference = .ok next) :
    reference ∉ db.references ∧ db.HasTargets reference ∧
      next = { db with references := db.references ++ [reference] } := by
  unfold insertReference at inserted
  split at inserted
  · cases inserted
  · rename_i accepted
    push Not at accepted
    exact ⟨accepted.1, accepted.2, by simpa using inserted.symm⟩

theorem insertReferenceOrIgnore_ok {reference : Reference}
    (inserted : db.insertReferenceOrIgnore reference = .ok next) :
    next.objects = db.objects ∧ db.references ⊆ next.references := by
  unfold insertReferenceOrIgnore at inserted
  split at inserted
  · simp only [Except.ok.injEq] at inserted
    exact inserted ▸ ⟨rfl, fun _ => id⟩
  · obtain ⟨-, -, rfl⟩ := insertReference_ok inserted
    exact ⟨rfl, List.subset_append_left ..⟩

theorem insertReferenceOrIgnore_mem {reference : Reference}
    (inserted : db.insertReferenceOrIgnore reference = .ok next) : reference ∈ next.references := by
  unfold insertReferenceOrIgnore at inserted
  split at inserted
  · simp only [Except.ok.injEq] at inserted
    exact inserted ▸ ‹_›
  · obtain ⟨-, -, rfl⟩ := insertReference_ok inserted
    exact List.mem_append_right _ (List.mem_singleton.mpr rfl)

theorem setReady_ok {row : ObjectRow} (updated : db.setReady row = .ok next) :
    (∀ other ∈ db.objects, other.id ≠ row.id → other.destination = row.destination →
      other.hash = row.hash → other.state ≠ .ready) ∧
      next = db.updateObject row.id fun row => { row with state := .ready } := by
  unfold setReady at updated
  split at updated
  · cases updated
  · rename_i accepted
    push Not at accepted
    exact ⟨fun other member different destination hash =>
      accepted other member different destination hash, by simpa using updated.symm⟩

theorem lookup_some {destination hash : String} {row : ObjectRow}
    (found : db.lookup destination hash = some row) :
    row ∈ db.objects ∧ row.destination = destination ∧ row.hash = hash ∧ row.state = .ready := by
  have selected := List.find?_some found
  simp only [decide_eq_true_eq] at selected
  exact ⟨List.mem_of_find?_eq_some found, selected⟩

theorem lookup_none {destination hash : String} (found : db.lookup destination hash = none)
    (row : ObjectRow) (member : row ∈ db.objects) (sameDestination : row.destination = destination)
    (sameHash : row.hash = hash) : row.state ≠ .ready := by
  have rejected := List.find?_eq_none.mp found row member
  simp only [decide_eq_true_eq, not_and] at rejected
  exact rejected sameDestination sameHash

end Db

/-! ### Composite updates

Single statements break `Sound` for a moment: an object is inserted before the
row that references it. `Sound.rewrite` therefore takes all statements of one
branch together, as one change of every object row and a new reference table. -/

theorem Sound.rewrite {db : Db} (sound : Sound db) (change : ObjectRow → ObjectRow)
    (publications : List PublicationRow) (references : List Reference)
    (keeps : ∀ row, (change row).id = row.id ∧ (change row).destination = row.destination ∧
      (change row).hash = row.hash)
    (nodup : references.Nodup)
    (targets : ∀ reference ∈ references,
      reference.publication ∈ publications.map PublicationRow.id ∧
        reference.object ∈ db.objects.map ObjectRow.id)
    (unused : ∀ row ∈ db.objects,
      (change row).unusedAt = none ↔ ∃ reference ∈ references, reference.object = row.id)
    (live : ∀ row ∈ db.objects, (∃ reference ∈ references, reference.object = row.id) →
      (change row).state ≠ .deleting)
    (oneReady : ∀ first ∈ db.objects, ∀ second ∈ db.objects,
      first.destination = second.destination → first.hash = second.hash →
        (change first).state = .ready → (change second).state = .ready → first.id = second.id)
    (pendingOnce : ∀ row ∈ db.objects, (change row).state = .pending →
      ∀ first ∈ references, ∀ second ∈ references,
        first.object = row.id → second.object = row.id → first = second) :
    Sound { db with publications, objects := db.objects.map change, references } := by
  have ids : (db.objects.map change).map ObjectRow.id = db.objects.map ObjectRow.id := by
    rw [List.map_map]
    exact List.map_congr_left fun row _ => (keeps row).1
  constructor
  · exact ids ▸ sound.objectIds
  · exact nodup
  · intro reference member
    refine ⟨(targets reference member).1, ?_⟩
    show reference.object ∈ (db.objects.map change).map ObjectRow.id
    exact ids ▸ (targets reference member).2
  · intro updated member
    obtain ⟨row, old, rfl⟩ := List.mem_map.mp member
    rw [(keeps row).1]
    exact unused row old
  · intro updated member
    obtain ⟨row, old, rfl⟩ := List.mem_map.mp member
    rw [(keeps row).1]
    exact live row old
  · intro first firstMem second secondMem
    obtain ⟨firstRow, firstOld, rfl⟩ := List.mem_map.mp firstMem
    obtain ⟨secondRow, secondOld, rfl⟩ := List.mem_map.mp secondMem
    simp only [(keeps firstRow).1, (keeps firstRow).2.1, (keeps firstRow).2.2,
      (keeps secondRow).1, (keeps secondRow).2.1, (keeps secondRow).2.2]
    exact oneReady firstRow firstOld secondRow secondOld
  · intro updated member
    obtain ⟨row, old, rfl⟩ := List.mem_map.mp member
    rw [(keeps row).1]
    exact pendingOnce row old

/-- Changes of one row that keep its timestamp, and its references. -/
theorem Sound.updateObject {db : Db} (sound : Sound db) (id : String)
    (change : ObjectRow → ObjectRow)
    (keeps : ∀ row, (change row).id = row.id ∧ (change row).destination = row.destination ∧
      (change row).hash = row.hash ∧ (change row).unusedAt = row.unusedAt)
    (live : ∀ row ∈ db.objects, row.id = id → db.Referenced id → (change row).state ≠ .deleting)
    (ready : ∀ row ∈ db.objects, row.id = id → (change row).state = .ready →
      row.state = .ready ∨ ∀ other ∈ db.objects, other.id ≠ id →
        other.destination = row.destination → other.hash = row.hash → other.state ≠ .ready)
    (pending : ∀ row ∈ db.objects, row.id = id → (change row).state = .pending →
      row.state = .pending) :
    Sound (db.updateObject id change) := by
  refine sound.rewrite (fun row => if row.id = id then change row else row) db.publications
    db.references ?_ sound.references sound.targets ?_ ?_ ?_ ?_
  · intro row
    have := keeps row
    split <;> simp_all
  · intro row member
    rw [← Db.Referenced, ← sound.unused row member]
    split
    · rw [(keeps row).2.2.2]
    · rfl
  · intro row member referenced
    split
    · subst id
      exact live row member rfl referenced
    · exact sound.live row member referenced
  · intro first firstMem second secondMem destination hash
    have old := sound.oneReady first firstMem second secondMem destination hash
    split <;> split <;> intro firstReady secondReady
    · simp_all
    · rename_i firstIs secondIs
      rcases ready first firstMem firstIs firstReady with was | alone
      · exact old was secondReady
      · exact absurd secondReady (alone second secondMem secondIs destination.symm hash.symm)
    · rename_i firstIs secondIs
      rcases ready second secondMem secondIs secondReady with was | alone
      · exact old firstReady was
      · exact absurd firstReady (alone first firstMem firstIs destination hash)
    · exact old firstReady secondReady
  · intro row member
    split
    · intro isPending
      exact sound.pendingOnce row member (pending row member ‹_› isPending)
    · exact sound.pendingOnce row member

private theorem exists_referencing_append (references : List Reference) (added : Reference)
    (object : String) :
    (∃ reference ∈ references ++ [added], reference.object = object) ↔
      (∃ reference ∈ references, reference.object = object) ∨ added.object = object := by
  simp [or_and_right, exists_or]

/-- A reused incarnation gets one more reference. -/
theorem Sound.reuse {db next : Db} (sound : Sound db) {row : ObjectRow} {publication : String}
    (member : row ∈ db.objects) (ready : row.state = .ready)
    (inserted : (db.setUnused row.id none).insertReference ⟨publication, row.id⟩ = .ok next) :
    Sound next := by
  obtain ⟨fresh, targets, rfl⟩ := Db.insertReference_ok inserted
  simp only [Db.setUnused, Db.updateObject_references] at fresh
  have ids : (db.updateObject row.id fun row => { row with unusedAt := none }).objects.map
      ObjectRow.id = db.objects.map ObjectRow.id := Db.updateObject_ids row.id _ fun _ => rfl
  refine sound.rewrite (fun other => if other.id = row.id then { other with unusedAt := none } else other)
    db.publications (db.references ++ [⟨publication, row.id⟩]) ?_ ?_ ?_ ?_ ?_ ?_ ?_
  · intro other
    split <;> simp
  · exact List.nodup_append.mpr ⟨sound.references, by simp, by
      rintro reference isOld other isNew rfl
      exact fresh (by simpa using (List.mem_singleton.mp isNew) ▸ isOld)⟩
  · intro reference isReference
    rcases List.mem_append.mp isReference with old | new
    · exact sound.targets reference old
    · rw [List.mem_singleton.mp new]
      exact ⟨targets.1, ids ▸ targets.2⟩
  · intro other isObject
    rw [exists_referencing_append, ← Db.Referenced, ← sound.unused other isObject]
    by_cases same : other.id = row.id
    · simp [same]
    · simp [same, Ne.symm same]
  · intro other isObject referenced
    rw [exists_referencing_append] at referenced
    by_cases same : other.id = row.id
    · rw [sound.row_eq isObject member same]
      simp [ready]
    · simp only [same, if_false]
      exact sound.live other isObject (referenced.resolve_right (Ne.symm same))
  · intro first firstMem second secondMem destination hash
    have := sound.oneReady first firstMem second secondMem destination hash
    split <;> split <;> exact this
  · intro other isObject isPending
    by_cases same : other.id = row.id
    · rw [sound.row_eq isObject member same] at isPending
      simp [ready] at isPending
    · simp only [same, if_false] at isPending
      intro first firstMem second secondMem firstIs secondIs
      have old : ∀ reference ∈ db.references ++ [⟨publication, row.id⟩],
          reference.object = other.id → reference ∈ db.references := by
        intro reference isReference isOther
        rcases List.mem_append.mp isReference with kept | new
        · exact kept
        · rw [List.mem_singleton.mp new] at isOther
          exact absurd isOther.symm same
      exact sound.pendingOnce other isObject isPending first (old first firstMem firstIs)
        second (old second secondMem secondIs) firstIs secondIs

/-- A fresh object is inserted pending together with its only reference. -/
theorem Sound.insert {db middle next : Db} (sound : Sound db) {row : ObjectRow}
    {publication : String} (pending : row.state = .pending) (used : row.unusedAt = none)
    (insertedObject : db.insertObject row = .ok middle)
    (insertedReference : middle.insertReference ⟨publication, row.id⟩ = .ok next) :
    Sound next := by
  obtain ⟨fresh, rfl⟩ := Db.insertObject_ok insertedObject
  obtain ⟨freshReference, targets, rfl⟩ := Db.insertReference_ok insertedReference
  have unreferenced : ¬ db.Referenced row.id := by
    rintro ⟨reference, member, same⟩
    exact fresh (same ▸ (sound.targets reference member).2)
  have distinct : ∀ old ∈ db.objects, old.id ≠ row.id := by
    intro old member same
    exact fresh (same ▸ List.mem_map_of_mem member)
  constructor
  · show ((db.objects ++ [row]).map ObjectRow.id).Nodup
    rw [List.map_append]
    exact List.nodup_append.mpr ⟨sound.objectIds, by simp, by
      rintro id isOld other isNew rfl
      exact fresh ((List.mem_singleton.mp isNew) ▸ isOld)⟩
  · exact List.nodup_append.mpr ⟨sound.references, by simp, by
      rintro reference isOld other isNew rfl
      exact freshReference ((List.mem_singleton.mp isNew) ▸ isOld)⟩
  · intro reference isReference
    rcases List.mem_append.mp isReference with old | new
    · have kept := sound.targets reference old
      exact ⟨kept.1, by simpa using Or.inl kept.2⟩
    · exact List.mem_singleton.mp new ▸ targets
  · intro other isObject
    rw [Db.Referenced, exists_referencing_append]
    rcases List.mem_append.mp isObject with old | new
    · have different : row.id ≠ other.id := (distinct other old).symm
      simpa [different, Db.Referenced] using sound.unused other old
    · simp [List.mem_singleton.mp new, used]
  · intro other isObject referenced
    rcases List.mem_append.mp isObject with old | new
    · rw [Db.Referenced, exists_referencing_append] at referenced
      exact sound.live other old (referenced.resolve_right (Ne.symm (distinct other old)))
    · simp [List.mem_singleton.mp new, pending]
  · intro first firstMem second secondMem destination hash firstReady secondReady
    rcases List.mem_append.mp firstMem with firstOld | firstNew
    · rcases List.mem_append.mp secondMem with secondOld | secondNew
      · exact sound.oneReady first firstOld second secondOld destination hash firstReady secondReady
      · simp [List.mem_singleton.mp secondNew, pending] at secondReady
    · simp [List.mem_singleton.mp firstNew, pending] at firstReady
  · intro other isObject isPending first firstMem second secondMem firstIs secondIs
    have split : ∀ reference ∈ db.references ++ [⟨publication, row.id⟩],
        reference ∈ db.references ∨ reference = ⟨publication, row.id⟩ := by
      intro reference isReference
      simpa using isReference
    rcases List.mem_append.mp isObject with old | new
    · have kept : ∀ reference ∈ db.references ++ [⟨publication, row.id⟩],
          reference.object = other.id → reference ∈ db.references := by
        intro reference isReference isOther
        rcases split reference isReference with kept | rfl
        · exact kept
        · exact absurd isOther.symm (distinct other old)
      exact sound.pendingOnce other old isPending first (kept first firstMem firstIs)
        second (kept second secondMem secondIs) firstIs secondIs
    · have only : ∀ reference ∈ db.references ++ [⟨publication, row.id⟩],
          reference.object = other.id → reference = ⟨publication, row.id⟩ := by
        intro reference isReference isOther
        rcases split reference isReference with kept | rfl
        · exact absurd ⟨reference, kept, List.mem_singleton.mp new ▸ isOther⟩ unreferenced
        · rfl
      rw [only first firstMem firstIs, only second secondMem secondIs]

/-- A duplicate upload gives way to the ready incarnation. -/
theorem Sound.replace {db next : Db} (sound : Sound db) {row canonical : ObjectRow}
    {publication : String} (now : Int) (rowMem : row ∈ db.objects)
    (pending : row.state = .pending) (owned : ⟨publication, row.id⟩ ∈ db.references)
    (canonicalMem : canonical ∈ db.objects) (ready : canonical.state = .ready)
    (inserted : db.insertReferenceOrIgnore ⟨publication, canonical.id⟩ = .ok next) :
    Sound (((next.setUnused canonical.id none).deleteReference ⟨publication, row.id⟩).setUnused
      row.id (some now)) := by
  have different : canonical.id ≠ row.id := by
    intro same
    have := sound.row_eq canonicalMem rowMem same
    simp_all
  obtain ⟨references, referencesEq, nodup, mem⟩ : ∃ references,
      next = { db with references } ∧ references.Nodup ∧
        ∀ reference, reference ∈ references ↔
          reference ∈ db.references ∨ reference = ⟨publication, canonical.id⟩ := by
    unfold Db.insertReferenceOrIgnore at inserted
    split at inserted
    · rename_i present
      refine ⟨db.references, by simpa using inserted.symm, sound.references, fun reference => ?_⟩
      constructor
      · exact Or.inl
      · rintro (old | rfl) <;> assumption
    · obtain ⟨fresh, -, rfl⟩ := Db.insertReference_ok inserted
      refine ⟨_, rfl, List.nodup_append.mpr ⟨sound.references, by simp, ?_⟩, by simp⟩
      rintro reference isOld other isNew rfl
      exact fresh ((List.mem_singleton.mp isNew) ▸ isOld)
  subst referencesEq
  have ownership : ∀ reference ∈ db.references, reference.object = row.id →
      reference = ⟨publication, row.id⟩ := by
    intro reference member isRow
    exact sound.pendingOnce row rowMem pending reference member _ owned isRow rfl
  have kept : ∀ reference, reference ∈ references.filter (fun row_ => row_ ≠ ⟨publication, row.id⟩) ↔
      (reference ∈ db.references ∧ reference.object ≠ row.id) ∨
        reference = ⟨publication, canonical.id⟩ := by
    intro reference
    simp only [List.mem_filter, mem, decide_eq_true_eq]
    constructor
    · rintro ⟨old | new, notOwned⟩
      · exact Or.inl ⟨old, fun isRow => notOwned (ownership reference old isRow)⟩
      · exact Or.inr new
    · rintro (⟨old, notRow⟩ | rfl)
      · exact ⟨Or.inl old, fun same => notRow (by rw [same])⟩
      · exact ⟨Or.inr rfl, fun same => different (by injection same)⟩
  have updated : (((({ db with references } : Db).setUnused canonical.id none).deleteReference
      ⟨publication, row.id⟩).setUnused row.id (some now)) =
        { db with
          objects := db.objects.map fun other =>
            if other.id = row.id then { other with unusedAt := some now }
            else if other.id = canonical.id then { other with unusedAt := none } else other
          references := references.filter fun row_ => row_ ≠ ⟨publication, row.id⟩ } := by
    simp only [Db.setUnused, Db.updateObject, Db.deleteReference, List.map_map]
    congr 1
    refine List.map_congr_left fun other _ => ?_
    simp only [Function.comp_apply]
    by_cases isCanonical : other.id = canonical.id
    · simp [isCanonical, different]
    · simp [isCanonical]
  rw [updated]
  have referencing : ∀ object, (∃ reference ∈ references.filter
      (fun row_ => row_ ≠ ⟨publication, row.id⟩), reference.object = object) ↔
        (db.Referenced object ∧ object ≠ row.id) ∨ object = canonical.id := by
    intro object
    constructor
    · rintro ⟨reference, member, rfl⟩
      rcases (kept reference).mp member with ⟨old, notRow⟩ | rfl
      · exact Or.inl ⟨⟨reference, old, rfl⟩, notRow⟩
      · exact Or.inr rfl
    · rintro (⟨⟨reference, old, rfl⟩, notRow⟩ | rfl)
      · exact ⟨reference, (kept reference).mpr (Or.inl ⟨old, notRow⟩), rfl⟩
      · exact ⟨_, (kept _).mpr (Or.inr rfl), rfl⟩
  refine sound.rewrite _ db.publications _ ?_ (nodup.filter _) ?_ ?_ ?_ ?_ ?_
  · intro other
    split_ifs <;> simp
  · intro reference member
    rcases (kept reference).mp member with ⟨old, -⟩ | rfl
    · exact sound.targets reference old
    · exact ⟨(sound.targets _ owned).1, List.mem_map_of_mem canonicalMem⟩
  · intro other member
    rw [referencing, ← sound.unused other member]
    by_cases isRow : other.id = row.id
    · simp [isRow, different.symm]
    · by_cases isCanonical : other.id = canonical.id
      · simp [isCanonical, different]
      · simp [isRow, isCanonical]
  · intro other member referenced
    rw [referencing] at referenced
    by_cases isRow : other.id = row.id
    · simp [isRow, different.symm] at referenced
    · by_cases isCanonical : other.id = canonical.id
      · rw [sound.row_eq member canonicalMem isCanonical]
        simp [different, ready]
      · simp only [isRow, isCanonical, if_false]
        exact sound.live other member (referenced.resolve_right isCanonical).1
  · intro first firstMem second secondMem destination hash
    have old := sound.oneReady first firstMem second secondMem destination hash
    split_ifs <;> exact old
  · intro other member isPending first firstMem second secondMem firstIs secondIs
    have isPending : other.state = .pending := by
      split_ifs at isPending <;> exact isPending
    have old : ∀ reference ∈ references.filter (fun row_ => row_ ≠ ⟨publication, row.id⟩),
        reference.object = other.id → reference ∈ db.references := by
      intro reference isReference isOther
      rcases (kept reference).mp isReference with ⟨old, -⟩ | rfl
      · exact old
      · have := sound.row_eq canonicalMem member isOther
        simp_all
    exact sound.pendingOnce other member isPending first (old first firstMem firstIs)
      second (old second secondMem secondIs) firstIs secondIs

/-! ### Transactions -/

theorem Sound.insertPublication {db next : Db} (sound : Sound db) {row : PublicationRow}
    (inserted : db.insertPublication row = .ok next) : Sound next := by
  obtain ⟨-, rfl⟩ := Db.insertPublication_ok inserted
  have grown := sound.rewrite id (db.publications ++ [row]) db.references (by simp)
    sound.references
    (fun reference member => ⟨by simpa using Or.inl (sound.targets reference member).1,
      (sound.targets reference member).2⟩)
    sound.unused sound.live sound.oneReady sound.pendingOnce
  simpa using grown

/-- The two outcomes of a hash met for the first time. -/
theorem reserveObject_ok {destination : String} {point : Point} {ids : Nat → String}
    {state next : Reserving} {hash : String} {size : UInt64} {object : Object}
    (reserved : reserveObject destination point ids state hash size = .ok (next, object)) :
    (∃ row db, state.db.lookup destination hash = some row ∧ row.size = size.toInt64 ∧
      (state.db.setUnused row.id none).insertReference ⟨point.id, row.id⟩ = .ok db ∧
      object = ⟨row.id, hash, size, true⟩ ∧
      next = { state with db, objects := state.objects ++ [(hash, object)] }) ∨
    (∃ middle db, state.db.lookup destination hash = none ∧
      state.db.insertObject ⟨ids state.drawn, destination, hash, size.toInt64, point.location,
        .pending, none, 0⟩ = .ok middle ∧
      middle.insertReference ⟨point.id, ids state.drawn⟩ = .ok db ∧
      object = ⟨ids state.drawn, hash, size, false⟩ ∧
      next = { state with
        db, objects := state.objects ++ [(hash, object)], drawn := state.drawn + 1 }) := by
  unfold SharedBlocks.reserveObject at reserved
  cases found : state.db.lookup destination hash with
  | some row =>
      simp only [found] at reserved
      by_cases same : row.size = size.toInt64
      · simp only [same, ne_eq, not_true_eq_false, if_false] at reserved
        obtain ⟨db, inserted, reserved⟩ := bind_eq_ok.mp reserved
        simp only [pure, Except.pure, Except.ok.injEq, Prod.mk.injEq] at reserved
        obtain ⟨rfl, rfl⟩ := reserved
        exact Or.inl ⟨row, db, rfl, same, inserted, rfl, rfl⟩
      · simp only [ne_eq, same, not_false_eq_true, if_true] at reserved
        cases reserved
  | none =>
      simp only [found] at reserved
      obtain ⟨middle, insertedObject, reserved⟩ := bind_eq_ok.mp reserved
      obtain ⟨db, insertedReference, reserved⟩ := bind_eq_ok.mp reserved
      simp only [pure, Except.pure, Except.ok.injEq, Prod.mk.injEq] at reserved
      obtain ⟨rfl, rfl⟩ := reserved
      exact Or.inr ⟨middle, db, rfl, insertedObject, insertedReference, rfl, rfl⟩

theorem Sound.reserveObject {destination : String} {point : Point} {ids : Nat → String}
    {state next : Reserving} {hash : String} {size : UInt64} {object : Object}
    (sound : Sound state.db)
    (reserved : reserveObject destination point ids state hash size = .ok (next, object)) :
    Sound next.db := by
  rcases reserveObject_ok reserved with
    ⟨row, db, found, -, inserted, -, rfl⟩ | ⟨middle, db, -, insertedObject, insertedReference, -, rfl⟩
  · obtain ⟨member, -, -, ready⟩ := Db.lookup_some found
    exact sound.reuse member ready inserted
  · exact sound.insert rfl rfl insertedObject insertedReference

theorem objectFor_ok {destination : String} {point : Point} {ids : Nat → String}
    {state next : Reserving} {hash : String} {size : UInt64} {object : Object}
    (found : objectFor destination point ids state hash size = .ok (next, object)) :
    (state.objects.lookup hash = some object ∧ next = state) ∨
      (state.objects.lookup hash = none ∧
        reserveObject destination point ids state hash size = .ok (next, object)) := by
  unfold objectFor at found
  split at found
  · simp only [Except.ok.injEq, Prod.mk.injEq] at found
    exact Or.inl ⟨found.2 ▸ ‹_›, found.1.symm⟩
  · exact Or.inr ⟨‹_›, found⟩

/-- A block without a hash is copied; any other names the object of its hash. -/
theorem reserveBlock_ok {destination : String} {point : Point} {ids : Nat → String}
    {state next : Reserving} {block : Block}
    (reserved : reserveBlock destination point ids state block = .ok next) :
    (block.hash = none ∧ next = { state with blocks := state.blocks ++ [block] }) ∨
    (∃ hash middle object, block.hash = some hash ∧
      objectFor destination point ids state hash block.size = .ok (middle, object) ∧
      object.size = block.size ∧
      next = { middle with blocks := middle.blocks ++ [{ block with object := some object.id }] }) := by
  unfold reserveBlock at reserved
  split at reserved
  · rename_i isHash
    exact Or.inl ⟨isHash, by simpa using reserved.symm⟩
  · rename_i hash isHash
    obtain ⟨⟨middle, object⟩, found, reserved⟩ := bind_eq_ok.mp reserved
    by_cases same : object.size = block.size
    · simp only [same, ne_eq, not_true_eq_false, if_false, pure, Except.pure,
        Except.ok.injEq] at reserved
      exact Or.inr ⟨hash, middle, object, isHash, found, same, reserved.symm⟩
    · simp only [ne_eq, same, not_false_eq_true, if_true] at reserved
      cases reserved

theorem Sound.reserveBlock {destination : String} {point : Point} {ids : Nat → String}
    {state next : Reserving} {block : Block} (sound : Sound state.db)
    (reserved : reserveBlock destination point ids state block = .ok next) : Sound next.db := by
  rcases reserveBlock_ok reserved with ⟨-, rfl⟩ | ⟨hash, middle, object, -, found, -, rfl⟩
  · exact sound
  · rcases objectFor_ok found with ⟨-, rfl⟩ | ⟨-, first⟩
    · exact sound
    · have kept : Sound middle.db := sound.reserveObject first
      exact kept

theorem reserve_ok {digests : Digests} {point : Point} {ids : Nat → String} {blocks : List Block}
    {db next : Db} {objects : List Object} {rewritten : List Block}
    (reserved : reserve digests point ids blocks db = .ok (next, objects, rewritten)) :
    ∃ opened final, db.insertPublication ⟨point.id, point.runId⟩ = .ok opened ∧
      blocks.foldlM (reserveBlock (digests.destination point.location) point ids) { db := opened } =
        .ok final ∧
      next = final.db ∧ objects = takeObjects final.blocks final.objects ∧
        rewritten = final.blocks := by
  unfold reserve at reserved
  obtain ⟨opened, inserted, reserved⟩ := bind_eq_ok.mp reserved
  obtain ⟨final, looped, reserved⟩ := bind_eq_ok.mp reserved
  simp only [pure, Except.pure, Except.ok.injEq, Prod.mk.injEq] at reserved
  exact ⟨opened, final, inserted, looped, reserved.1.symm, reserved.2.1.symm, reserved.2.2.symm⟩

theorem Sound.reserve {digests : Digests} {point : Point} {ids : Nat → String}
    {blocks : List Block} {db next : Db} {objects : List Object} {rewritten : List Block}
    (sound : Sound db)
    (reserved : reserve digests point ids blocks db = .ok (next, objects, rewritten)) :
    Sound next := by
  obtain ⟨opened, final, inserted, looped, rfl, -, -⟩ := reserve_ok reserved
  exact foldlM_eq_ok (motive := fun _ state => Sound state.db)
    (fun _ _ _ _ holds reserved => Sound.reserveBlock holds reserved)
    (sound.insertPublication inserted) looped

/-- The rows `complete_uploads` visits: pending, referenced by the publication,
and each only once. -/
theorem pendingOf_mem {db : Db} {publication : String} {row : ObjectRow}
    (member : row ∈ pendingOf db publication) :
    row ∈ db.objects ∧ row.state = .pending ∧ ⟨publication, row.id⟩ ∈ db.references := by
  obtain ⟨⟨owner, object⟩, isReference, found⟩ := List.mem_filterMap.mp member
  split at found
  · rename_i same
    have selected := List.find?_some found
    simp only [decide_eq_true_eq] at selected
    obtain ⟨rfl, pending⟩ := selected
    simp only at same
    exact ⟨List.mem_of_find?_eq_some found, pending, same ▸ isReference⟩
  · cases found

theorem pendingOf_ids_nodup {db : Db} (nodup : db.references.Nodup) (publication : String) :
    ((pendingOf db publication).map ObjectRow.id).Nodup := by
  unfold pendingOf
  rw [List.map_filterMap]
  refine nodup.filterMap ?_
  rintro ⟨firstOwner, firstObject⟩ ⟨secondOwner, secondObject⟩ id first second
  simp only [Option.mem_def, Option.map_eq_some_iff] at first second
  obtain ⟨firstRow, firstFound, firstId⟩ := first
  obtain ⟨secondRow, secondFound, secondId⟩ := second
  split at firstFound
  · split at secondFound
    · have firstSelected := List.find?_some firstFound
      have secondSelected := List.find?_some secondFound
      simp_all
    · cases secondFound
  · cases firstFound

/-- The two outcomes of a pending object of a finished upload. -/
theorem completeObject_ok {publication : String} {clock : Nat → Int} {state next : Completing}
    {row : ObjectRow} (completed : completeObject publication clock state row = .ok next) :
    (∃ db, state.db.lookup row.destination row.hash = none ∧ state.db.setReady row = .ok db ∧
      next = { state with db }) ∨
    (∃ canonical db, state.db.lookup row.destination row.hash = some canonical ∧
      row.size = canonical.size ∧
      state.db.insertReferenceOrIgnore ⟨publication, canonical.id⟩ = .ok db ∧
      next = ⟨((db.setUnused canonical.id none).deleteReference ⟨publication, row.id⟩).setUnused
          row.id (some (clock state.replacements.length)),
        state.replacements ++ [(row.id, canonical.id)]⟩) := by
  unfold completeObject at completed
  cases found : state.db.lookup row.destination row.hash with
  | none =>
      simp only [found] at completed
      obtain ⟨db, updated, completed⟩ := bind_eq_ok.mp completed
      simp only [pure, Except.pure, Except.ok.injEq] at completed
      exact Or.inl ⟨db, rfl, updated, completed.symm⟩
  | some canonical =>
      simp only [found] at completed
      by_cases same : row.size = canonical.size
      · simp only [same, ne_eq, not_true_eq_false, if_false] at completed
        obtain ⟨db, inserted, completed⟩ := bind_eq_ok.mp completed
        simp only [pure, Except.pure, Except.ok.injEq] at completed
        exact Or.inr ⟨canonical, db, rfl, same, inserted, completed.symm⟩
      · simp only [ne_eq, same, not_false_eq_true, if_true] at completed
        cases completed

/-- What the remaining rows of the loop of `complete_uploads` satisfy. -/
structure Remaining (publication : String) (rest : List ObjectRow) (db : Db) : Prop where
  sound : Sound db
  distinct : (rest.map ObjectRow.id).Nodup
  members : ∀ row ∈ rest, row ∈ db.objects ∧ row.state = .pending ∧
    ⟨publication, row.id⟩ ∈ db.references

theorem Remaining.of_pending {db : Db} (sound : Sound db) (publication : String) :
    Remaining publication (pendingOf db publication) db :=
  ⟨sound, pendingOf_ids_nodup sound.references publication, fun _ => pendingOf_mem⟩

/-- A round only changes the rows of its own object and of a ready one. -/
theorem Remaining.completeObject {publication : String} {clock : Nat → Int}
    {state next : Completing} {row : ObjectRow} {rest : List ObjectRow}
    (remaining : Remaining publication (row :: rest) state.db)
    (completed : completeObject publication clock state row = .ok next) :
    Remaining publication rest next.db := by
  obtain ⟨rowMem, pending, owned⟩ := remaining.members row (by simp)
  have distinct := List.nodup_cons.mp (List.map_cons ▸ remaining.distinct)
  have others : ∀ other ∈ rest, other.id ≠ row.id := fun other member same =>
    distinct.1 (same ▸ List.mem_map_of_mem member)
  rcases completeObject_ok completed with
    ⟨db, -, updated, rfl⟩ | ⟨canonical, db, found, -, inserted, rfl⟩
  · obtain ⟨alone, rfl⟩ := Db.setReady_ok updated
    refine ⟨?_, distinct.2, fun other member => ?_⟩
    · refine remaining.sound.updateObject row.id _ ?_ ?_ ?_ ?_
      · intro other
        simp
      · simp
      · intro other member same _
        rw [remaining.sound.row_eq member rowMem same]
        exact Or.inr alone
      · simp
    · obtain ⟨otherMem, otherPending, otherOwned⟩ :=
        remaining.members other (List.mem_cons_of_mem row member)
      refine ⟨(Db.mem_updateObject ..).mpr ⟨other, otherMem, ?_⟩, otherPending, otherOwned⟩
      rw [if_neg (others other member)]
  · obtain ⟨canonicalMem, -, -, ready⟩ := Db.lookup_some found
    refine ⟨?_, distinct.2, fun other member => ?_⟩
    · exact remaining.sound.replace _ rowMem pending owned canonicalMem ready inserted
    · obtain ⟨otherMem, otherPending, otherOwned⟩ :=
        remaining.members other (List.mem_cons_of_mem row member)
      have notCanonical : other.id ≠ canonical.id := by
        intro same
        have := remaining.sound.row_eq otherMem canonicalMem same
        simp_all
      obtain ⟨objectsEq, kept⟩ := Db.insertReferenceOrIgnore_ok inserted
      refine ⟨?_, otherPending, ?_⟩
      · refine (Db.mem_updateObject ..).mpr ⟨other, ?_, if_neg (others other member)⟩
        refine (Db.mem_updateObject ..).mpr ⟨other, objectsEq ▸ otherMem, if_neg notCanonical⟩
      · refine List.mem_filter.mpr ⟨kept otherOwned, ?_⟩
        simpa using others other member

/-- A verified publication references ready objects only. -/
theorem verified_ok {publication : String} {db : Db} (checked : verified publication db = .ok ()) :
    ∀ row ∈ db.objects, ⟨publication, row.id⟩ ∈ db.references → row.state = .ready := by
  unfold verified at checked
  split at checked
  · cases checked
  · rename_i noneInvalid
    intro row member held
    by_contra notReady
    exact noneInvalid ⟨_, held, rfl, row, member, rfl, notReady⟩

theorem completeUploads_ok {publication : String} {clock : Nat → Int} {blocks rewritten : List Block}
    {db next : Db} (completed : completeUploads publication clock blocks db = .ok (next, rewritten)) :
    ∃ final, (pendingOf db publication).foldlM (completeObject publication clock) { db } = .ok final ∧
      verified publication final.db = .ok () ∧ next = final.db ∧
        rewritten = blocks.map (rewriteBlock final.replacements) := by
  unfold completeUploads at completed
  obtain ⟨final, looped, completed⟩ := bind_eq_ok.mp completed
  obtain ⟨⟨⟩, checked, completed⟩ := bind_eq_ok.mp completed
  simp only [pure, Except.pure, Except.ok.injEq, Prod.mk.injEq] at completed
  exact ⟨final, looped, checked, completed.1.symm, completed.2.symm⟩

theorem Sound.completeUploads {publication : String} {clock : Nat → Int}
    {blocks rewritten : List Block} {db next : Db} (sound : Sound db)
    (completed : completeUploads publication clock blocks db = .ok (next, rewritten)) :
    Sound next := by
  obtain ⟨final, looped, -, rfl, -⟩ := completeUploads_ok completed
  have finished : Remaining publication [] final.db :=
    foldlM_eq_ok (motive := fun rest state => Remaining publication rest state.db)
      (fun _ _ _ _ remaining completed => remaining.completeObject completed)
      (.of_pending sound publication) looped
  exact finished.sound

theorem Sound.release {db : Db} (sound : Sound db) (publication : String) (now : Int) :
    Sound (release publication now db) := by
  have referencing : ∀ object, (∃ reference ∈ db.references.filter
      (fun row => row.publication ≠ publication), reference.object = object) ↔
        ∃ reference ∈ db.references, reference.object = object ∧
          reference.publication ≠ publication := by
    intro object
    simp only [List.mem_filter, decide_eq_true_eq]
    exact exists_congr fun reference => by tauto
  refine sound.rewrite _ _ _ ?_ (sound.references.filter _) ?_ ?_ ?_ ?_ ?_
  · intro row
    split <;> simp
  · intro reference member
    obtain ⟨old, other⟩ := List.mem_filter.mp member
    obtain ⟨publicationTarget, objectTarget⟩ := sound.targets reference old
    obtain ⟨owner, ownerMem, isOwner⟩ := List.mem_map.mp publicationTarget
    refine ⟨List.mem_map.mpr ⟨owner, List.mem_filter.mpr ⟨ownerMem, ?_⟩, isOwner⟩, objectTarget⟩
    simpa [isOwner] using other
  · intro row member
    rw [referencing]
    by_cases held : ∃ reference ∈ db.references, reference.object = row.id ∧
        reference.publication ≠ publication
    · have referenced : db.Referenced row.id := by
        obtain ⟨reference, old, same, -⟩ := held
        exact ⟨reference, old, same⟩
      simpa [held] using (sound.unused row member).mpr referenced
    · by_cases owned : (⟨publication, row.id⟩ : Reference) ∈ db.references
      · simp [owned, held]
      · have unreferenced : ¬ db.Referenced row.id := by
          rintro ⟨reference, old, same⟩
          refine held ⟨reference, old, same, fun isOwner => owned ?_⟩
          rw [← isOwner, ← same]
          exact old
        simpa [owned, held] using (sound.unused row member).not.mpr unreferenced
  · intro row member referenced
    obtain ⟨reference, old, same, -⟩ := (referencing row.id).mp referenced
    have := sound.live row member ⟨reference, old, same⟩
    split <;> exact this
  · intro first firstMem second secondMem destination hash
    have := sound.oneReady first firstMem second secondMem destination hash
    split <;> split <;> exact this
  · intro row member isPending first firstMem second secondMem
    have isPending : row.state = .pending := by
      split at isPending <;> exact isPending
    exact sound.pendingOnce row member isPending first (List.mem_of_mem_filter firstMem)
      second (List.mem_of_mem_filter secondMem)

theorem Sound.releaseRun {db : Db} (sound : Sound db) (run : String) (keep : List String)
    (clock : Nat → Int) : Sound (releaseRun run keep clock db) :=
  List.foldlRecOn _ _ sound fun _ sound entry _ => sound.release entry.1 (clock entry.2)

theorem Sound.invalidate {db : Db} (sound : Sound db) (object : String) :
    Sound (invalidate object db) := by
  refine sound.updateObject object _ ?_ ?_ ?_ ?_
  · intro row
    split <;> simp
  · intro row member same referenced
    split
    · simp
    · exact sound.live row member (same ▸ referenced)
  · intro row _ _
    split
    · simp
    · exact Or.inl
  · intro row _ _
    split
    · simp
    · exact id

/-- The invariant does not read the queue of remote deletions. -/
theorem Sound.deletions {db : Db} (sound : Sound db) (deletions : List RemoteDeletion) :
    Sound { db with deletions } :=
  ⟨sound.objectIds, sound.references, sound.targets, sound.unused, sound.live, sound.oneReady,
    sound.pendingOnce⟩

theorem Sound.queue {db : Db} (sound : Sound db) (digests : Digests) (location : Location)
    (key : String) (whole : Bool) : Sound (queue digests location key whole db) := by
  simp only [SharedBlocks.queue]
  split
  · exact sound
  · exact sound.deletions _

theorem mem_claimable {db : Db} {cutoff now : Int} {row : ObjectRow}
    (member : row ∈ claimable db cutoff now) : row ∈ db.objects ∧ Eligible db cutoff now row := by
  have sorted := List.mem_of_mem_take member
  rw [List.mem_insertionSort] at sorted
  simpa using List.mem_filter.mp sorted

/-- A claimed row is unreferenced, so it may be marked. -/
theorem Sound.mark {db : Db} (sound : Sound db) {id : String} (unreferenced : ¬ db.Referenced id)
    (retryAt : Int) :
    Sound (db.updateObject id fun row => { row with state := .deleting, retryAt }) := by
  refine sound.updateObject id _ ?_ ?_ ?_ ?_
  · intro row
    simp
  · intro row _ _ referenced
    exact absurd referenced unreferenced
  · simp
  · simp

theorem Sound.claim {db : Db} (sound : Sound db) (cutoff : Int) (clock : Nat → Int) :
    Sound (claim cutoff clock db).1 := by
  let claimed := claimable db cutoff (clock 0)
  have marked : Sound (claimed.zipIdx.foldl (fun db entry =>
      db.updateObject entry.1.id fun row =>
        { row with state := .deleting, retryAt := clock (entry.2 + 1) + 60000 }) db) := by
    refine (List.foldlRecOn claimed.zipIdx _ (motive := fun current =>
      Sound current ∧ current.references = db.references) ⟨sound, rfl⟩ ?_).1
    rintro current ⟨sound, sameReferences⟩ entry member
    refine ⟨sound.mark ?_ _, sameReferences⟩
    have eligible := (mem_claimable (List.fst_mem_of_mem_zipIdx member)).2
    have unreferenced := eligible.2.2
    rwa [Db.Referenced, sameReferences]
  exact List.foldlRecOn _ _ marked fun _ sound entry _ => sound.deletions _

theorem Sound.finishDeletion {db : Db} (sound : Sound db) (deletion : Deletion) :
    Sound (finishDeletion db deletion) := by
  unfold SharedBlocks.finishDeletion
  split
  · have kept : ∀ row ∈ db.objects.filter fun row =>
        ¬ (row.id = deletion.id ∧ row.state = .deleting ∧ ¬ db.Referenced deletion.id),
        row ∈ db.objects := fun row => List.mem_of_mem_filter
    constructor
    · exact sound.objectIds.sublist (List.filter_sublist.map _)
    · exact sound.references
    · intro reference member
      obtain ⟨publicationTarget, objectTarget⟩ := sound.targets reference member
      obtain ⟨row, rowMem, isRow⟩ := List.mem_map.mp objectTarget
      refine ⟨publicationTarget, List.mem_map.mpr ⟨row, List.mem_filter.mpr ⟨rowMem, ?_⟩, isRow⟩⟩
      simp only [decide_eq_true_eq, not_and, not_not]
      rintro same -
      exact ⟨reference, member, isRow.symm.trans same⟩
    · exact fun row member => sound.unused row (kept row member)
    · exact fun row member => sound.live row (kept row member)
    · exact fun first firstMem second secondMem =>
        sound.oneReady first (kept first firstMem) second (kept second secondMem)
    · exact fun row member => sound.pendingOnce row (kept row member)
  · exact sound.deletions _

theorem Sound.finish {db : Db} (sound : Sound db) (completed : List Deletion) :
    Sound (finish completed db) :=
  List.foldlRecOn _ _ sound fun _ sound deletion _ => sound.finishDeletion deletion

/-- Every committed transaction keeps the invariant. -/
theorem Sound.transaction {digests : Digests} {db next : Db} (sound : Sound db)
    {transaction : Transaction} (applied : transaction.apply digests db = .ok next) :
    Sound next := by
  cases transaction with
  | reserve point ids blocks =>
      obtain ⟨⟨_, objects, rewritten⟩, reserved, rfl⟩ := map_eq_ok.mp applied
      exact sound.reserve reserved
  | completeUploads publication clock blocks =>
      obtain ⟨⟨_, rewritten⟩, completed, rfl⟩ := map_eq_ok.mp applied
      exact sound.completeUploads completed
  | verified publication =>
      obtain ⟨_, -, rfl⟩ := map_eq_ok.mp applied
      exact sound
  | release publication now =>
      rw [← Except.ok.inj applied]
      exact sound.release publication now
  | releaseRun run keep clock =>
      rw [← Except.ok.inj applied]
      exact sound.releaseRun run keep clock
  | queue location key whole =>
      rw [← Except.ok.inj applied]
      exact sound.queue digests location key whole
  | invalidate object =>
      rw [← Except.ok.inj applied]
      exact sound.invalidate object
  | claim cutoff clock =>
      rw [← Except.ok.inj applied]
      exact sound.claim cutoff clock
  | finish completed =>
      rw [← Except.ok.inj applied]
      exact sound.finish completed

theorem Sound.runs (digests : Digests) (transactions : List Transaction) :
    Sound (runs (Transaction.apply digests) {} transactions) :=
  runs_invariant (fun _ _ _ sound applied => sound.transaction applied) transactions .empty

end Cairn.Nodes.SharedBlocks

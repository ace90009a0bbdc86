import Cairn.Nodes.SharedBlocksInvariant

/-!
Owns the frame of every inventory transaction: which rows survive it and whose
references it leaves alone. Only `finish` removes object rows, and only a
release removes references, apart from the duplicate that `complete_uploads`
replaces for its own publication.
-/

set_option autoImplicit false

namespace Cairn.Nodes.SharedBlocks

open Cairn.Library.Results

/-- The columns of an object row that no statement changes. -/
def ObjectRow.identity (row : ObjectRow) : String × String × String × Int64 :=
  (row.id, row.destination, row.hash, row.size)

/-- The row of `kept` continues the one of `row`: no upload of it starts again. -/
def ObjectRow.Continues (row kept : ObjectRow) : Prop :=
  kept.identity = row.identity ∧ (row.state ≠ .pending → kept.state ≠ .pending)

/-- Every object row of `db` is still there. -/
def Retains (db next : Db) : Prop :=
  ∀ row ∈ db.objects, ∃ kept ∈ next.objects, row.Continues kept

/-- Every reference of the publication is still there. -/
def KeepsReferences (publication : String) (db next : Db) : Prop :=
  ∀ object, (⟨publication, object⟩ : Reference) ∈ db.references →
    (⟨publication, object⟩ : Reference) ∈ next.references

@[simp] theorem ObjectRow.Continues.refl (row : ObjectRow) : row.Continues row := ⟨rfl, fun settled => settled⟩

theorem Retains.refl (db : Db) : Retains db db := fun row member => ⟨row, member, .refl row⟩

theorem Retains.trans {first second third : Db} (start : Retains first second)
    (rest : Retains second third) : Retains first third := by
  intro row member
  obtain ⟨middle, middleMem, same, settled⟩ := start row member
  obtain ⟨kept, keptMem, keptSame, keptSettled⟩ := rest middle middleMem
  exact ⟨kept, keptMem, keptSame.trans same, keptSettled ∘ settled⟩

theorem KeepsReferences.refl (publication : String) (db : Db) :
    KeepsReferences publication db db := fun _ => id

theorem KeepsReferences.trans {publication : String} {first second third : Db}
    (start : KeepsReferences publication first second)
    (rest : KeepsReferences publication second third) : KeepsReferences publication first third :=
  fun object held => rest object (start object held)

/-! ### Statements -/

theorem Retains.of_objects {db next : Db} (same : next.objects = db.objects) : Retains db next :=
  fun row member => ⟨row, same ▸ member, .refl row⟩

theorem Retains.map {db next : Db} {change : ObjectRow → ObjectRow}
    (mapped : next.objects = db.objects.map change)
    (continues : ∀ row : ObjectRow, row.Continues (change row)) : Retains db next :=
  fun row member => ⟨change row, mapped ▸ List.mem_map_of_mem member, continues row⟩

theorem Retains.updateObject (db : Db) (id : String) {change : ObjectRow → ObjectRow}
    (continues : ∀ row : ObjectRow, row.Continues (change row)) : Retains db (db.updateObject id change) := by
  refine .map rfl fun row => ?_
  split
  · exact continues row
  · exact .refl row

theorem Retains.setUnused (db : Db) (id : String) (at_ : Option Int) :
    Retains db (db.setUnused id at_) := .updateObject db id fun _ => ⟨rfl, fun settled => settled⟩

theorem Retains.insertObject {db next : Db} {row : ObjectRow}
    (inserted : db.insertObject row = .ok next) : Retains db next := by
  obtain ⟨-, rfl⟩ := Db.insertObject_ok inserted
  exact fun row member => ⟨row, List.mem_append_left _ member, .refl row⟩

theorem Retains.insertReference {db next : Db} {reference : Reference}
    (inserted : db.insertReference reference = .ok next) : Retains db next := by
  obtain ⟨-, -, rfl⟩ := Db.insertReference_ok inserted
  exact .refl db

theorem KeepsReferences.of_references {publication : String} {db next : Db}
    (subset : db.references ⊆ next.references) : KeepsReferences publication db next :=
  fun _ held => subset held

theorem KeepsReferences.insertReference {publication : String} {db next : Db}
    {reference : Reference} (inserted : db.insertReference reference = .ok next) :
    KeepsReferences publication db next := by
  obtain ⟨-, -, rfl⟩ := Db.insertReference_ok inserted
  exact .of_references (List.subset_append_left ..)

/-! ### Transactions -/

theorem reserveObject_frame {destination : String} {point : Point} {ids : Nat → String}
    {state next : Reserving} {hash : String} {size : UInt64} {object : Object}
    (reserved : reserveObject destination point ids state hash size = .ok (next, object)) :
    Retains state.db next.db ∧ ∀ publication, KeepsReferences publication state.db next.db := by
  rcases reserveObject_ok reserved with
    ⟨row, db, -, -, inserted, -, rfl⟩ | ⟨middle, db, -, insertedObject, insertedReference, -, rfl⟩
  · exact ⟨(Retains.setUnused state.db row.id none).trans (.insertReference inserted),
      fun publication object held => KeepsReferences.insertReference inserted object held⟩
  · refine ⟨(Retains.insertObject insertedObject).trans (.insertReference insertedReference),
      fun publication object held => ?_⟩
    obtain ⟨-, rfl⟩ := Db.insertObject_ok insertedObject
    exact KeepsReferences.insertReference insertedReference object held

theorem reserveBlock_frame {destination : String} {point : Point} {ids : Nat → String}
    {state next : Reserving} {block : Block}
    (reserved : reserveBlock destination point ids state block = .ok next) :
    Retains state.db next.db ∧ ∀ publication, KeepsReferences publication state.db next.db := by
  rcases reserveBlock_ok reserved with ⟨-, rfl⟩ | ⟨hash, middle, object, -, found, -, rfl⟩
  · exact ⟨.refl _, fun publication => .refl publication _⟩
  · rcases objectFor_ok found with ⟨-, rfl⟩ | ⟨-, first⟩
    · exact ⟨.refl _, fun publication => .refl publication _⟩
    · have frame := reserveObject_frame first
      exact frame

theorem reserve_frame {digests : Digests} {point : Point} {ids : Nat → String}
    {blocks rewritten : List Block} {db next : Db} {objects : List Object}
    (reserved : reserve digests point ids blocks db = .ok (next, objects, rewritten)) :
    Retains db next ∧ ∀ publication, KeepsReferences publication db next := by
  obtain ⟨opened, final, inserted, looped, rfl, -, -⟩ := reserve_ok reserved
  obtain ⟨-, rfl⟩ := Db.insertPublication_ok inserted
  refine foldlM_eq_ok (motive := fun _ state =>
    Retains db state.db ∧ ∀ publication, KeepsReferences publication db state.db) ?_
    ⟨.of_objects rfl, fun _ => .of_references (List.Subset.refl _)⟩ looped
  intro block rest state next holds reserved
  obtain ⟨retains, keeps⟩ := reserveBlock_frame reserved
  exact ⟨holds.1.trans retains, fun publication => (holds.2 publication).trans (keeps publication)⟩

theorem completeObject_frame {publication : String} {clock : Nat → Int} {state next : Completing}
    {row : ObjectRow} (completed : completeObject publication clock state row = .ok next) :
    Retains state.db next.db ∧
      ∀ other, other ≠ publication → KeepsReferences other state.db next.db := by
  rcases completeObject_ok completed with
    ⟨db, -, updated, rfl⟩ | ⟨canonical, db, -, -, inserted, rfl⟩
  · obtain ⟨-, rfl⟩ := Db.setReady_ok updated
    exact ⟨.updateObject state.db row.id fun _ => ⟨rfl, by simp⟩, fun other _ => .of_references (List.Subset.refl _)⟩
  · obtain ⟨objectsEq, kept⟩ := Db.insertReferenceOrIgnore_ok inserted
    refine ⟨?_, fun other different object held => ?_⟩
    · exact (Retains.of_objects objectsEq).trans
        ((Retains.setUnused db canonical.id none).trans (Retains.setUnused _ row.id _))
    · refine List.mem_filter.mpr ⟨kept held, ?_⟩
      simp [different]

theorem completeUploads_frame {publication : String} {clock : Nat → Int}
    {blocks rewritten : List Block} {db next : Db}
    (completed : completeUploads publication clock blocks db = .ok (next, rewritten)) :
    Retains db next ∧ ∀ other, other ≠ publication → KeepsReferences other db next := by
  obtain ⟨final, looped, -, rfl, -⟩ := completeUploads_ok completed
  refine foldlM_eq_ok (motive := fun _ state =>
    Retains db state.db ∧ ∀ other, other ≠ publication → KeepsReferences other db state.db) ?_
    ⟨.refl db, fun other _ => .refl other db⟩ looped
  intro row rest state next holds completed
  obtain ⟨retains, keeps⟩ := completeObject_frame completed
  exact ⟨holds.1.trans retains,
    fun other different => (holds.2 other different).trans (keeps other different)⟩

theorem release_frame (publication : String) (now : Int) (db : Db) :
    Retains db (release publication now db) ∧
      ∀ other, other ≠ publication → KeepsReferences other db (release publication now db) := by
  constructor
  · refine .map rfl fun row => ?_
    split <;> exact ⟨rfl, fun settled => settled⟩
  · intro other different object held
    exact List.mem_filter.mpr ⟨held, by simpa using different⟩

theorem releaseRun_frame (run : String) (keep : List String) (clock : Nat → Int) (db : Db) :
    Retains db (releaseRun run keep clock db) ∧
      ∀ other, (∀ row ∈ db.publications, row.id = other → row.runId = run → row.id ∈ keep) →
        KeepsReferences other db (releaseRun run keep clock db) := by
  let ids := (db.publications.filter fun row => row.runId = run ∧ row.id ∉ keep).map PublicationRow.id
  refine List.foldlRecOn ids.zipIdx _ (motive := fun current => Retains db current ∧
    ∀ other, (∀ row ∈ db.publications, row.id = other → row.runId = run → row.id ∈ keep) →
      KeepsReferences other db current) ⟨.refl db, fun other _ => .refl other db⟩ ?_
  intro current holds entry member
  obtain ⟨retains, keeps⟩ := release_frame entry.1 (clock entry.2) current
  refine ⟨holds.1.trans retains, fun other pinned => (holds.2 other pinned).trans (keeps other ?_)⟩
  rintro rfl
  obtain ⟨row, rowMem, same⟩ := List.mem_map.mp (List.fst_mem_of_mem_zipIdx member)
  obtain ⟨isRow, selected⟩ := List.mem_filter.mp rowMem
  simp only [decide_eq_true_eq] at selected
  exact selected.2 (pinned row isRow same selected.1)

theorem invalidate_frame (object : String) (db : Db) :
    Retains db (invalidate object db) ∧
      ∀ publication, KeepsReferences publication db (invalidate object db) := by
  refine ⟨.updateObject db object fun row => ?_, fun publication => .of_references (List.Subset.refl _)⟩
  split
  · exact ⟨rfl, by simp⟩
  · exact .refl row

theorem queue_frame (digests : Digests) (location : Location) (key : String) (whole : Bool) (db : Db) :
    Retains db (queue digests location key whole db) ∧
      ∀ publication, KeepsReferences publication db (queue digests location key whole db) := by
  simp only [queue]
  split
  · exact ⟨.refl db, fun publication => .refl publication db⟩
  · exact ⟨.of_objects rfl, fun publication => .of_references (List.Subset.refl _)⟩

theorem claim_frame (cutoff : Int) (clock : Nat → Int) (db : Db) :
    Retains db (claim cutoff clock db).1 ∧
      ∀ publication, KeepsReferences publication db (claim cutoff clock db).1 := by
  have marked := List.foldlRecOn (claimable db cutoff (clock 0)).zipIdx (fun db entry =>
    db.updateObject entry.1.id fun row =>
      { row with state := .deleting, retryAt := clock (entry.2 + 1) + 60000 })
    (motive := fun current => Retains db current ∧ current.references = db.references)
    ⟨.refl db, rfl⟩ fun current holds entry _ =>
      ⟨holds.1.trans (.updateObject current entry.1.id fun _ => ⟨rfl, by simp⟩), holds.2⟩
  have delayed : Retains db (claim cutoff clock db).1 ∧
      (claim cutoff clock db).1.references = db.references :=
    List.foldlRecOn _ _ (motive := fun current => Retains db current ∧
      current.references = db.references) marked fun current holds entry _ =>
        ⟨holds.1.trans (.of_objects rfl), holds.2⟩
  exact ⟨delayed.1, fun publication => .of_references (delayed.2 ▸ List.Subset.refl _)⟩

/-- `finish` removes no reference, and only rows a finished deletion names that
are marked and unreferenced. -/
theorem finish_frame (completed : List Deletion) (db : Db) :
    (finish completed db).references = db.references ∧
      ∀ row ∈ db.objects, row ∈ (finish completed db).objects ∨
        (row.state = .deleting ∧ ¬ db.Referenced row.id ∧
          ∃ deletion ∈ completed, deletion.shared ∧ deletion.id = row.id) := by
  refine List.foldlRecOn completed _ (motive := fun current : Db =>
    current.references = db.references ∧ ∀ row ∈ db.objects, row ∈ current.objects ∨
      (row.state = .deleting ∧ ¬ db.Referenced row.id ∧
        ∃ deletion ∈ completed, deletion.shared ∧ deletion.id = row.id))
    ⟨rfl, fun _ member => Or.inl member⟩ ?_
  intro current holds deletion listed
  unfold finishDeletion
  split
  · rename_i shared
    refine ⟨holds.1, fun row member => (holds.2 row member).elim (fun kept => ?_) Or.inr⟩
    by_cases removed : row.id = deletion.id ∧ row.state = .deleting ∧ ¬ current.Referenced deletion.id
    · obtain ⟨same, marked, unreferenced⟩ := removed
      rw [Db.Referenced, holds.1, ← same] at unreferenced
      exact Or.inr ⟨marked, unreferenced, deletion, listed, shared, same.symm⟩
    · exact Or.inl (List.mem_filter.mpr ⟨kept, decide_eq_true removed⟩)
  · exact holds

/-- A committed transaction removes no object row, except that `finish` removes
marked and unreferenced ones. -/
theorem transaction_keeps {digests : Digests} {transaction : Transaction} {db next : Db}
    (applied : transaction.apply digests db = .ok next) {row : ObjectRow} (member : row ∈ db.objects) :
    (∃ kept ∈ next.objects, row.Continues kept) ∨
      (row.state = .deleting ∧ ¬ db.Referenced row.id ∧ ∃ completed, transaction = .finish completed ∧
        ∃ deletion ∈ completed, deletion.shared ∧ deletion.id = row.id) := by
  cases transaction with
  | reserve point ids blocks =>
      obtain ⟨⟨_, objects, rewritten⟩, reserved, rfl⟩ := map_eq_ok.mp applied
      exact Or.inl ((reserve_frame reserved).1 row member)
  | completeUploads publication clock blocks =>
      obtain ⟨⟨_, rewritten⟩, completed, rfl⟩ := map_eq_ok.mp applied
      exact Or.inl ((completeUploads_frame completed).1 row member)
  | verified publication =>
      obtain ⟨_, -, rfl⟩ := map_eq_ok.mp applied
      exact Or.inl ⟨row, member, .refl row⟩
  | release publication now =>
      rw [← Except.ok.inj applied]
      exact Or.inl ((release_frame publication now db).1 row member)
  | releaseRun run keep clock =>
      rw [← Except.ok.inj applied]
      exact Or.inl ((releaseRun_frame run keep clock db).1 row member)
  | queue location key whole =>
      rw [← Except.ok.inj applied]
      exact Or.inl ((queue_frame digests location key whole db).1 row member)
  | invalidate object =>
      rw [← Except.ok.inj applied]
      exact Or.inl ((invalidate_frame object db).1 row member)
  | claim cutoff clock =>
      rw [← Except.ok.inj applied]
      exact Or.inl ((claim_frame cutoff clock db).1 row member)
  | finish completed =>
      rw [← Except.ok.inj applied]
      rcases (finish_frame completed db).2 row member with kept | ⟨marked, unreferenced, named⟩
      · exact Or.inl ⟨row, kept, .refl row⟩
      · exact Or.inr ⟨marked, unreferenced, completed, rfl, named⟩

end Cairn.Nodes.SharedBlocks

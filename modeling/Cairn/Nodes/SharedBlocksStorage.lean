import Mathlib.Data.List.Induction
import Cairn.Nodes.SharedBlocksCollection

/-!
Owns what the transactions of the inventory do to the remote keys its rows name: only
`reserve` and `queue` add one, only `finish` takes one away, and `claim` hands out the
keys of rows that stay.
-/

set_option autoImplicit false

namespace Cairn.Nodes.SharedBlocks

open Cairn.Library.Results

/-- An object of a bucket. -/
abbrev Remote := Location × String

/-- The remote object of a row. -/
def ObjectRow.remote (row : ObjectRow) : Remote := (row.location, key row.hash row.id)

/-- The remote object a queued deletion names. -/
def RemoteDeletion.remote (row : RemoteDeletion) : Remote := (row.location, row.key)

/-- The remote object a claimed deletion names. -/
def Deletion.remote (deletion : Deletion) : Remote := (deletion.location, deletion.key)

/-- The columns of an object row that name its remote object. -/
def ObjectRow.address (row : ObjectRow) : String × String × Location :=
  (row.id, row.hash, row.location)

/-- The columns of a queued deletion that no statement changes. -/
def RemoteDeletion.request (row : RemoteDeletion) : String × Location × String × Bool :=
  (row.id, row.location, row.key, row.whole)

theorem ObjectRow.remote_congr {row other : ObjectRow} (same : row.address = other.address) :
    row.id = other.id ∧ row.remote = other.remote := by
  simp only [ObjectRow.address, Prod.mk.injEq] at same
  simp [ObjectRow.remote, same]

theorem RemoteDeletion.remote_congr {row other : RemoteDeletion}
    (same : row.request = other.request) : row.id = other.id ∧ row.remote = other.remote := by
  simp only [RemoteDeletion.request, Prod.mk.injEq] at same
  simp [RemoteDeletion.remote, same]

/-- The rows name the same remote objects. -/
structure SameStorage (db next : Db) : Prop where
  addresses : next.objects.map ObjectRow.address = db.objects.map ObjectRow.address
  requests : next.deletions.map RemoteDeletion.request = db.deletions.map RemoteDeletion.request

namespace SameStorage

variable {db middle next : Db}

theorem refl (db : Db) : SameStorage db db := ⟨rfl, rfl⟩

theorem trans (first : SameStorage db middle) (second : SameStorage middle next) :
    SameStorage db next :=
  ⟨second.addresses.trans first.addresses, second.requests.trans first.requests⟩

theorem symm (same : SameStorage db next) : SameStorage next db :=
  ⟨same.addresses.symm, same.requests.symm⟩

theorem object (same : SameStorage db next) {row : ObjectRow} (member : row ∈ db.objects) :
    ∃ kept ∈ next.objects, kept.address = row.address := by
  have listed : row.address ∈ next.objects.map ObjectRow.address :=
    same.addresses ▸ List.mem_map_of_mem member
  obtain ⟨kept, isKept, equal⟩ := List.mem_map.mp listed
  exact ⟨kept, isKept, equal⟩

theorem deletion (same : SameStorage db next) {row : RemoteDeletion} (member : row ∈ db.deletions) :
    ∃ kept ∈ next.deletions, kept.request = row.request := by
  have listed : row.request ∈ next.deletions.map RemoteDeletion.request :=
    same.requests ▸ List.mem_map_of_mem member
  obtain ⟨kept, isKept, equal⟩ := List.mem_map.mp listed
  exact ⟨kept, isKept, equal⟩

theorem of_map {change : ObjectRow → ObjectRow} (mapped : next.objects = db.objects.map change)
    (keeps : ∀ row : ObjectRow, (change row).address = row.address)
    (same : next.deletions = db.deletions) : SameStorage db next := by
  refine ⟨?_, by rw [same]⟩
  rw [mapped, List.map_map]
  exact List.map_congr_left fun row _ => keeps row

theorem updateObject (db : Db) (id : String) {change : ObjectRow → ObjectRow}
    (keeps : ∀ row : ObjectRow, (change row).address = row.address) :
    SameStorage db (db.updateObject id change) := by
  refine of_map rfl (fun row => ?_) rfl
  split
  · exact keeps row
  · rfl

theorem setUnused (db : Db) (id : String) (unused : Option Int) :
    SameStorage db (db.setUnused id unused) := updateObject db id fun _ => rfl

end SameStorage

/-! ### `reserve` -/

/-- The rows grow by new ones, and the rest of the storage stays. -/
structure GrowsStorage (db next : Db) : Prop where
  addresses : db.objects.map ObjectRow.address <+: next.objects.map ObjectRow.address
  requests : next.deletions = db.deletions

theorem GrowsStorage.refl (db : Db) : GrowsStorage db db := ⟨List.prefix_refl _, rfl⟩

theorem GrowsStorage.trans {db middle next : Db} (first : GrowsStorage db middle)
    (second : GrowsStorage middle next) : GrowsStorage db next :=
  ⟨first.addresses.trans second.addresses, second.requests.trans first.requests⟩

theorem GrowsStorage.object {db next : Db} (grows : GrowsStorage db next) {row : ObjectRow}
    (member : row ∈ db.objects) : ∃ kept ∈ next.objects, kept.address = row.address := by
  have listed : row.address ∈ next.objects.map ObjectRow.address :=
    grows.addresses.subset (List.mem_map_of_mem member)
  exact List.mem_map.mp listed

/-- An object that a publication is to upload has its row and its reference. -/
def Uploads (point : Point) (db : Db) (object : Object) : Prop :=
  ∃ row ∈ db.objects, row.address = (object.id, object.hash, point.location) ∧
    (⟨point.id, object.id⟩ : Reference) ∈ db.references

theorem Uploads.grow {point : Point} {db next : Db} {object : Object}
    (uploads : Uploads point db object) (grows : GrowsStorage db next)
    (keeps : KeepsReferences point.id db next) : Uploads point next object := by
  obtain ⟨row, member, address, held⟩ := uploads
  obtain ⟨kept, isKept, same⟩ := grows.object member
  exact ⟨kept, isKept, same.trans address, keeps object.id held⟩

theorem reserveObject_storage {destination : String} {point : Point} {ids : Nat → String}
    {state next : Reserving} {hash : String} {size : UInt64} {object : Object}
    (reserved : reserveObject destination point ids state hash size = .ok (next, object)) :
    GrowsStorage state.db next.db ∧ next.objects = state.objects ++ [(hash, object)] ∧
      (object.ready = false → Uploads point next.db object) := by
  rcases reserveObject_ok reserved with
    ⟨row, db, -, -, inserted, rfl, rfl⟩ | ⟨middle, db, -, insertedObject, insertedReference, rfl, rfl⟩
  · obtain ⟨-, -, rfl⟩ := Db.insertReference_ok inserted
    refine ⟨⟨?_, rfl⟩, rfl, by simp⟩
    exact (SameStorage.setUnused state.db row.id none).addresses ▸ List.prefix_refl _
  · obtain ⟨-, rfl⟩ := Db.insertObject_ok insertedObject
    obtain ⟨-, -, rfl⟩ := Db.insertReference_ok insertedReference
    refine ⟨⟨?_, rfl⟩, rfl, fun _ => ⟨_, List.mem_append_right _ (List.mem_singleton.mpr rfl), rfl,
      List.mem_append_right _ (List.mem_singleton.mpr rfl)⟩⟩
    rw [List.map_append]
    exact List.prefix_append _ _

/-- What the loop of `reserve` keeps for the objects it has to upload. -/
structure Reserved (point : Point) (start : Db) (state : Reserving) : Prop where
  grows : GrowsStorage start state.db
  uploads : ∀ entry ∈ state.objects, entry.2.ready = false → Uploads point state.db entry.2

theorem Reserved.reserveBlock {destination : String} {point : Point} {ids : Nat → String}
    {start : Db} {state next : Reserving} {block : Block} (holds : Reserved point start state)
    (reserved : reserveBlock destination point ids state block = .ok next) :
    Reserved point start next := by
  have frame := (reserveBlock_frame reserved).2 point.id
  rcases reserveBlock_ok reserved with ⟨-, rfl⟩ | ⟨hash, middle, object, -, found, -, rfl⟩
  · exact ⟨holds.grows, holds.uploads⟩
  · rcases objectFor_ok found with ⟨-, rfl⟩ | ⟨-, first⟩
    · exact ⟨holds.grows, holds.uploads⟩
    · obtain ⟨grows, objects, uploads⟩ := reserveObject_storage first
      refine ⟨holds.grows.trans grows, fun entry member pending => ?_⟩
      rw [show _ = middle.objects from rfl, objects] at member
      rcases List.mem_append.mp member with earlier | added
      · exact (holds.uploads entry earlier pending).grow grows frame
      · obtain rfl := List.mem_singleton.mp added
        exact uploads pending

theorem mem_takeObjects {blocks : List Block} {objects : List (String × Object)} {object : Object}
    (member : object ∈ takeObjects blocks objects) : ∃ entry ∈ objects, entry.2 = object := by
  induction blocks generalizing objects with
  | nil => simp [takeObjects] at member
  | cons block rest inductionHypothesis =>
      unfold takeObjects at member
      split at member
      · exact inductionHypothesis member
      · rename_i hash taken found
        rcases List.mem_cons.mp member with rfl | later
        · obtain ⟨named, isHash, looked⟩ := Option.bind_eq_some_iff.mp found
          obtain ⟨object, isObject, same⟩ := Option.map_eq_some_iff.mp looked
          obtain ⟨rfl, rfl⟩ := Prod.mk.inj same
          obtain ⟨before, after, listed, -⟩ := List.lookup_eq_some_iff.mp isObject
          exact ⟨(named, object), by simp [listed], rfl⟩
        · obtain ⟨entry, isEntry, same⟩ := inductionHypothesis later
          exact ⟨entry, (List.mem_filter.mp isEntry).1, same⟩

theorem reserve_storage {digests : Digests} {point : Point} {ids : Nat → String}
    {blocks rewritten : List Block} {db next : Db} {objects : List Object}
    (reserved : reserve digests point ids blocks db = .ok (next, objects, rewritten)) :
    GrowsStorage db next ∧ ∀ object ∈ objects, object.ready = false → Uploads point next object := by
  obtain ⟨opened, final, inserted, looped, rfl, rfl, -⟩ := reserve_ok reserved
  obtain ⟨-, rfl⟩ := Db.insertPublication_ok inserted
  have held : Reserved point db final :=
    foldlM_eq_ok (motive := fun _ state => Reserved point db state)
      (fun _ _ _ _ holds reserved => holds.reserveBlock reserved)
      ⟨⟨List.prefix_refl _, rfl⟩, by simp⟩ looped
  refine ⟨held.grows, fun object member pending => ?_⟩
  obtain ⟨entry, isEntry, rfl⟩ := mem_takeObjects member
  exact held.uploads entry isEntry pending

/-! ### The transactions that name the same objects -/

theorem completeObject_storage {publication : String} {clock : Nat → Int} {state next : Completing}
    {row : ObjectRow} (completed : completeObject publication clock state row = .ok next) :
    SameStorage state.db next.db := by
  rcases completeObject_ok completed with
    ⟨db, -, updated, rfl⟩ | ⟨canonical, db, -, -, inserted, rfl⟩
  · obtain ⟨-, rfl⟩ := Db.setReady_ok updated
    exact SameStorage.updateObject state.db row.id fun _ => rfl
  · have ignored : SameStorage state.db db := by
      unfold Db.insertReferenceOrIgnore at inserted
      split at inserted
      · exact Except.ok.inj inserted ▸ SameStorage.refl _
      · obtain ⟨-, -, rfl⟩ := Db.insertReference_ok inserted
        exact ⟨rfl, rfl⟩
    have deleted : SameStorage (db.setUnused canonical.id none)
        ((db.setUnused canonical.id none).deleteReference ⟨publication, row.id⟩) := ⟨rfl, rfl⟩
    exact ((ignored.trans (.setUnused db canonical.id none)).trans deleted).trans
      (.setUnused _ row.id _)

theorem completeUploads_storage {publication : String} {clock : Nat → Int}
    {blocks rewritten : List Block} {db next : Db}
    (completed : completeUploads publication clock blocks db = .ok (next, rewritten)) :
    SameStorage db next := by
  obtain ⟨final, looped, -, rfl, -⟩ := completeUploads_ok completed
  exact foldlM_eq_ok (motive := fun _ state => SameStorage db state.db)
    (fun _ _ _ _ holds completed => holds.trans (completeObject_storage completed))
    (.refl db) looped

theorem release_storage (publication : String) (now : Int) (db : Db) :
    SameStorage db (release publication now db) := by
  refine SameStorage.of_map rfl (fun row => ?_) rfl
  split <;> rfl

theorem releaseRun_storage (run : String) (keep : List String) (clock : Nat → Int) (db : Db) :
    SameStorage db (releaseRun run keep clock db) :=
  List.foldlRecOn _ _ (SameStorage.refl db) fun current holds entry _ =>
    holds.trans (release_storage entry.1 (clock entry.2) current)

theorem invalidate_storage (object : String) (db : Db) : SameStorage db (invalidate object db) := by
  refine SameStorage.updateObject db object fun row => ?_
  split <;> rfl

/-- `queue` adds the request of a key unless a row has its digest. -/
theorem queue_storage (digests : Digests) (location : Location) (name : String) (whole : Bool)
    (db : Db) :
    (queue digests location name whole db).objects = db.objects ∧
      (queue digests location name whole db).references = db.references ∧
      (queue digests location name whole db).publications = db.publications ∧
      ((queue digests location name whole db).deletions = db.deletions ∧
          digests.deletion location name whole ∈ db.deletions.map RemoteDeletion.id ∨
        (queue digests location name whole db).deletions = db.deletions ++
            [{ id := digests.deletion location name whole, location, key := name, whole }] ∧
          digests.deletion location name whole ∉ db.deletions.map RemoteDeletion.id) := by
  simp only [queue]
  split
  · exact ⟨rfl, rfl, rfl, .inl ⟨rfl, ‹_›⟩⟩
  · exact ⟨rfl, rfl, rfl, .inr ⟨rfl, ‹_›⟩⟩

/-! ### `claim` and `finish` -/

/-- The updates of the objects a claim selects. -/
def markAll (clock : Nat → Int) (entries : List (ObjectRow × Nat)) (db : Db) : Db :=
  entries.foldl (fun db entry =>
    db.updateObject entry.1.id fun row =>
      { row with state := .deleting, retryAt := clock (entry.2 + 1) + 60000 }) db

theorem markAll_storage (clock : Nat → Int) (entries : List (ObjectRow × Nat)) (db : Db) :
    SameStorage db (markAll clock entries db) ∧
      (markAll clock entries db).references = db.references ∧
      (markAll clock entries db).publications = db.publications ∧
      (markAll clock entries db).deletions = db.deletions :=
  List.foldlRecOn entries _ (motive := fun current => SameStorage db current ∧
      current.references = db.references ∧ current.publications = db.publications ∧
      current.deletions = db.deletions)
    ⟨.refl db, rfl, rfl, rfl⟩ fun current holds entry _ =>
      ⟨holds.1.trans (.updateObject current entry.1.id fun _ => rfl), holds.2.1, holds.2.2.1,
        holds.2.2.2⟩

/-- Every row that a claim selects is marked. -/
theorem markAll_marked (clock : Nat → Int) (entries : List (ObjectRow × Nat)) (db : Db) :
    ∀ row ∈ (markAll clock entries db).objects,
      row.id ∈ entries.map (fun entry => entry.1.id) → row.state = .deleting := by
  induction entries using List.reverseRecOn with
  | nil => simp
  | append_singleton entries last inductionHypothesis =>
      intro row member named
      rw [markAll, List.foldl_append] at member
      obtain ⟨earlier, isEarlier, rfl⟩ := (Db.mem_updateObject ..).mp member
      by_cases same : earlier.id = last.1.id
      · rw [if_pos same]
      · rw [if_neg same] at named ⊢
        rw [List.map_append, List.mem_append, List.map_singleton, List.mem_singleton] at named
        exact inductionHypothesis earlier isEarlier (named.resolve_right same)

/-- The updates of the queued deletions a claim selects. -/
def delayAll (clock : Nat → Int) (offset : Nat) (entries : List (RemoteDeletion × Nat))
    (db : Db) : Db :=
  entries.foldl (fun db entry =>
    { db with deletions := db.deletions.map fun row =>
        if row.id = entry.1.id then
          { row with retryAt := clock (offset + entry.2 + 2) + 60000 }
        else row }) db

theorem delayAll_storage (clock : Nat → Int) (offset : Nat) (entries : List (RemoteDeletion × Nat))
    (db : Db) :
    (delayAll clock offset entries db).objects = db.objects ∧
      (delayAll clock offset entries db).references = db.references ∧
      (delayAll clock offset entries db).publications = db.publications ∧
      SameStorage db (delayAll clock offset entries db) := by
  refine List.foldlRecOn entries _ (motive := fun current : Db => current.objects = db.objects ∧
    current.references = db.references ∧ current.publications = db.publications ∧
    SameStorage db current) ⟨rfl, rfl, rfl, .refl db⟩ fun current holds entry _ => ?_
  refine ⟨holds.1, holds.2.1, holds.2.2.1, holds.2.2.2.trans ⟨rfl, ?_⟩⟩
  rw [List.map_map]
  refine List.map_congr_left fun row _ => ?_
  simp only [Function.comp_apply]
  split <;> rfl

/-- A claim marks what it selects, delays what was queued and hands both out. -/
theorem claim_eq (cutoff : Int) (clock : Nat → Int) (db : Db) :
    claim cutoff clock db =
      let rows := claimable db cutoff (clock 0)
      let marked := markAll clock rows.zipIdx db
      let queued := due marked (clock (rows.length + 1))
      (delayAll clock rows.length queued.zipIdx marked,
        rows.map (fun row => ⟨row.id, row.location, key row.hash row.id, false, true⟩) ++
          queued.map fun row => ⟨row.id, row.location, row.key, row.whole, false⟩) := rfl

theorem claim_storage (cutoff : Int) (clock : Nat → Int) (db : Db) :
    SameStorage db (claim cutoff clock db).1 ∧
      (claim cutoff clock db).1.references = db.references ∧
      (claim cutoff clock db).1.publications = db.publications := by
  rw [claim_eq]
  obtain ⟨marked, references, publications, -⟩ :=
    markAll_storage clock (claimable db cutoff (clock 0)).zipIdx db
  obtain ⟨-, sameReferences, samePublications, delayed⟩ := delayAll_storage clock
    (claimable db cutoff (clock 0)).length
    (due (markAll clock (claimable db cutoff (clock 0)).zipIdx db)
      (clock ((claimable db cutoff (clock 0)).length + 1))).zipIdx
    (markAll clock (claimable db cutoff (clock 0)).zipIdx db)
  exact ⟨marked.trans delayed, sameReferences.trans references,
    samePublications.trans publications⟩

/-- A shared deletion of a claim names a marked row. -/
theorem claim_shared_storage {db : Db} {cutoff : Int} {clock : Nat → Int} {deletion : Deletion}
    (member : deletion ∈ (claim cutoff clock db).2) (shared : deletion.shared = true) :
    deletion.whole = false ∧ ∃ row ∈ (claim cutoff clock db).1.objects, row.id = deletion.id ∧
      row.remote = deletion.remote ∧ row.state = .deleting := by
  rw [claim_eq] at member ⊢
  rcases List.mem_append.mp member with isObject | isQueued
  · obtain ⟨row, claimed, rfl⟩ := List.mem_map.mp isObject
    obtain ⟨kept, isKept, address⟩ :=
      (markAll_storage clock (claimable db cutoff (clock 0)).zipIdx db).1.object
        (mem_claimable claimed).1
    obtain ⟨same, remote⟩ := ObjectRow.remote_congr address
    refine ⟨rfl, kept, ?_, same, remote, markAll_marked clock _ db kept isKept ?_⟩
    · dsimp only
      rw [(delayAll_storage ..).1]
      exact isKept
    · have selected : row ∈ (claimable db cutoff (clock 0)).zipIdx.map Prod.fst := by
        rw [List.zipIdx_map_fst]
        exact claimed
      obtain ⟨entry, listed, rfl⟩ := List.mem_map.mp selected
      exact same ▸ List.mem_map.mpr ⟨entry, listed, rfl⟩
  · obtain ⟨row, -, rfl⟩ := List.mem_map.mp isQueued
    cases shared

/-- The other deletions of a claim name queued rows. -/
theorem claim_queued_storage {db : Db} {cutoff : Int} {clock : Nat → Int} {deletion : Deletion}
    (member : deletion ∈ (claim cutoff clock db).2) (queued : deletion.shared = false) :
    ∃ row ∈ (claim cutoff clock db).1.deletions,
      row.request = (deletion.id, deletion.location, deletion.key, deletion.whole) := by
  have same := (claim_storage cutoff clock db).1
  rw [claim_eq] at member
  rcases List.mem_append.mp member with isObject | isQueued
  · obtain ⟨row, -, rfl⟩ := List.mem_map.mp isObject
    cases queued
  · obtain ⟨row, selected, rfl⟩ := List.mem_map.mp isQueued
    have sorted := List.mem_of_mem_take selected
    rw [List.mem_insertionSort] at sorted
    have listed := (List.mem_filter.mp sorted).1
    rw [(markAll_storage clock (claimable db cutoff (clock 0)).zipIdx db).2.2.2] at listed
    obtain ⟨kept, isKept, request⟩ := same.deletion listed
    exact ⟨kept, isKept, request⟩

/-- `finish` only takes rows away, a queued one when a finished deletion has its
digest. -/
theorem finish_storage (completed : List Deletion) (db : Db) :
    (finish completed db).objects ⊆ db.objects ∧ (finish completed db).deletions ⊆ db.deletions ∧
      (finish completed db).publications = db.publications ∧
      ∀ row ∈ db.deletions, row ∈ (finish completed db).deletions ∨
        ∃ deletion ∈ completed, deletion.shared = false ∧ deletion.id = row.id := by
  refine List.foldlRecOn completed _ (motive := fun current : Db =>
    current.objects ⊆ db.objects ∧ current.deletions ⊆ db.deletions ∧
      current.publications = db.publications ∧ ∀ row ∈ db.deletions, row ∈ current.deletions ∨
        ∃ deletion ∈ completed, deletion.shared = false ∧ deletion.id = row.id)
    ⟨List.Subset.refl _, List.Subset.refl _, rfl, fun _ member => .inl member⟩ ?_
  intro current holds deletion listed
  obtain ⟨objects, deletions, publications, kept⟩ := holds
  unfold finishDeletion
  split
  · exact ⟨fun row member => objects (List.mem_of_mem_filter member), deletions, publications, kept⟩
  · rename_i queued
    refine ⟨objects, fun row member => deletions (List.mem_of_mem_filter member), publications,
      fun row member => (kept row member).elim (fun stays => ?_) .inr⟩
    by_cases same : row.id = deletion.id
    · exact .inr ⟨deletion, listed, Bool.eq_false_iff.mpr queued, same.symm⟩
    · exact .inl (List.mem_filter.mpr ⟨stays, by simpa using same⟩)

end Cairn.Nodes.SharedBlocks

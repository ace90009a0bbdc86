import Cairn.Storage.CleanCache

/-!
Owns what holds of the index of clean files: the two lists of files agree after every
operation, the counter is the total of the sizes while that fits, and an eviction deletes
the oldest files up to its target.
-/

set_option autoImplicit false

namespace Cairn.Storage.CleanCache

open Cairn.Library.HashMaps Cairn.Library.Steps

variable {Path : Type} [LinearOrder Path]

namespace Index

/-- The path of an entry. -/
def pathOf (entry : Entry Path) : Path := (ofLex entry).2

/-- The size that an index has for an entry. -/
def sizeAt (index : Index Path) (entry : Entry Path) : Nat :=
  ((index.files.lookup (pathOf entry)).map Prod.fst).getD 0

/-- `oldest` lists the files of `files`, each with its own time. -/
def Mirrored (index : Index Path) : Prop :=
  ∀ entry, entry ∈ index.oldest ↔
    ∃ size, index.files.lookup (pathOf entry) = some (size, (ofLex entry).1)

/-- The counter is the total of the sizes. -/
def Exact (index : Index Path) : Prop := index.bytes = index.total ∧ index.total ≤ u64Max

variable {index : Index Path} {path : Path}

/-! ### Single operations -/

theorem remove_of_found {size : Nat} {modified : Int}
    (found : index.files.lookup path = some (size, modified)) :
    index.remove path =
      ({ index with
          files := index.files.erase path
          oldest := index.oldest.erase (toLex (modified, path))
          bytes := index.bytes - size }, some size) := by
  rw [remove, found]

theorem remove_of_absent (absent : index.files.lookup path = none) :
    index.remove path = (index, none) := by
  rw [remove, absent]

/-- A removal erases its path from the files. -/
theorem remove_files (index : Index Path) (path : Path) :
    (index.remove path).1.files = index.files.erase path := by
  cases found : index.files.lookup path with
  | none =>
      rw [remove_of_absent found]
      exact (erase_of_notMem (AList.lookup_eq_none.mp found)).symm
  | some stored => rw [remove_of_found found]

omit [LinearOrder Path] in
/-- An entry of another path is not the entry of this one. -/
theorem ne_of_pathOf_ne {entry : Entry Path} {modified : Int} (different : pathOf entry ≠ path) :
    entry ≠ toLex (modified, path) := fun same => different (by rw [same]; rfl)

theorem Mirrored.empty (scannedAt : Nat) : (empty scannedAt : Index Path).Mirrored := by
  intro entry
  constructor
  · intro impossible
    exact absurd impossible (Finset.notMem_empty entry)
  · rintro ⟨size, found⟩
    rw [Index.empty, AList.lookup_empty] at found
    cases found

theorem Mirrored.remove (mirrored : index.Mirrored) (path : Path) :
    (index.remove path).1.Mirrored := by
  cases found : index.files.lookup path with
  | none =>
      rw [remove_of_absent found]
      exact mirrored
  | some stored =>
      obtain ⟨size, modified⟩ := stored
      rw [remove_of_found found]
      intro entry
      show entry ∈ index.oldest.erase _ ↔ _
      rw [Finset.mem_erase, mirrored entry, lookup_erase]
      by_cases same : pathOf entry = path
      · rw [if_pos same]
        constructor
        · rintro ⟨different, size', stored⟩
          rw [same, found] at stored
          refine absurd ?_ different
          have time : modified = (ofLex entry).1 := (Prod.mk.inj (Option.some.inj stored)).2
          rw [time, ← same]
          rfl
        · rintro ⟨size', impossible⟩
          cases impossible
      · rw [if_neg same]
        exact and_iff_right (ne_of_pathOf_ne same)

theorem Mirrored.insert (mirrored : index.Mirrored) (file : Found Path) :
    (index.insert file).Mirrored := by
  have removed := mirrored.remove file.path
  intro entry
  show entry ∈ Insert.insert (toLex (file.modified, file.path)) (index.remove file.path).1.oldest ↔
    ∃ size, ((index.remove file.path).1.files.insert file.path (file.size, file.modified)).lookup
      (pathOf entry) = some (size, (ofLex entry).1)
  rw [Finset.mem_insert, lookup_insert]
  by_cases same : pathOf entry = file.path
  · rw [if_pos same]
    constructor
    · rintro (isEntry | older)
      · exact ⟨file.size, by rw [isEntry]; rfl⟩
      · obtain ⟨size, stored⟩ := (removed entry).mp older
        rw [remove_files, lookup_erase, if_pos same] at stored
        cases stored
    · rintro ⟨size, stored⟩
      left
      have time : file.modified = (ofLex entry).1 := (Prod.mk.inj (Option.some.inj stored)).2
      rw [time, ← same]
      rfl
  · rw [if_neg same, removed entry]
    exact or_iff_right (ne_of_pathOf_ne same)

theorem Mirrored.touch (mirrored : index.Mirrored) (path : Path) (modified : Int) :
    (index.touch path modified).Mirrored := by
  have removed := mirrored.remove path
  unfold Index.touch
  split
  · rename_i rest size isRest
    rw [isRest] at removed
    exact removed.insert _
  · rename_i rest isRest
    rw [isRest] at removed
    exact removed

theorem Mirrored.foldl (mirrored : index.Mirrored) (found : List (Found Path)) :
    (found.foldl Index.insert index).Mirrored := by
  induction found generalizing index with
  | nil => exact mirrored
  | cons file rest inductionHypothesis => exact inductionHypothesis (mirrored.insert file)

/-! ### The counter -/

theorem total_remove (index : Index Path) (path : Path) :
    (index.remove path).1.total + ((index.remove path).2.getD 0) = index.total := by
  cases found : index.files.lookup path with
  | none =>
      rw [remove_of_absent found]
      exact Nat.add_zero _
  | some stored =>
      obtain ⟨size, modified⟩ := stored
      rw [remove_of_found found]
      show sum Prod.fst (index.files.erase path) + size = sum Prod.fst index.files
      rw [sum_eq_add_erase Prod.fst found]
      exact Nat.add_comm _ _

theorem bytes_remove (index : Index Path) (path : Path) :
    (index.remove path).1.bytes = index.bytes - (index.remove path).2.getD 0 := by
  cases found : index.files.lookup path with
  | none =>
      rw [remove_of_absent found]
      exact (Nat.sub_zero _).symm
  | some stored => rw [remove_of_found found]; rfl

theorem Exact.remove (exact : index.Exact) (path : Path) : (index.remove path).1.Exact := by
  have total := total_remove index path
  have bytes := bytes_remove index path
  obtain ⟨same, fits⟩ := exact
  exact ⟨by omega, by omega⟩

/-- The total after an insertion: the file replaces what its path had. -/
theorem total_insert (index : Index Path) (file : Found Path) :
    (index.insert file).total = (index.remove file.path).1.total + file.size := by
  have absent : file.path ∉ (index.remove file.path).1.files := by
    rw [remove_files]
    exact AList.lookup_eq_none.mp (AList.lookup_erase _ _)
  show sum Prod.fst ((index.remove file.path).1.files.insert _ _) = _
  rw [sum_insert_of_notMem Prod.fst _ absent]
  exact Nat.add_comm _ _

theorem Exact.insert (exact : index.Exact) {file : Found Path}
    (fits : (index.insert file).total ≤ u64Max) : (index.insert file).Exact := by
  refine ⟨?_, fits⟩
  have removed := (exact.remove file.path).1
  rw [total_insert] at fits ⊢
  show min ((index.remove file.path).1.bytes + file.size) u64Max = _
  rw [removed]
  exact Nat.min_eq_left fits

/-- A touch keeps the total. -/
theorem total_touch (index : Index Path) (path : Path) (modified : Int) :
    (index.touch path modified).total = index.total := by
  have total := total_remove index path
  unfold Index.touch
  split
  · rename_i rest size isRest
    rw [isRest] at total
    have again := total_remove rest path
    have gone : (rest.remove path).2 = none := by
      have absent : rest.files.lookup path = none := by
        have files := remove_files index path
        rw [isRest] at files
        rw [files]
        exact AList.lookup_erase _ _
      rw [remove_of_absent absent]
    rw [gone] at again
    rw [total_insert]
    exact (congrArg (· + size) again).trans total
  · rename_i rest isRest
    rw [isRest] at total
    exact total

theorem Exact.touch (exact : index.Exact) (path : Path) (modified : Int) :
    (index.touch path modified).Exact := by
  have total := total_touch index path modified
  have removed := exact.remove path
  unfold Index.touch at total ⊢
  split
  · rename_i rest size isRest
    rw [isRest] at removed total
    exact removed.insert (total.trans_le exact.2)
  · rename_i rest isRest
    rw [isRest] at removed
    exact removed

theorem Exact.empty (scannedAt : Nat) : (empty scannedAt : Index Path).Exact :=
  ⟨rfl, Nat.zero_le u64Max⟩

theorem Exact.foldl (exact : index.Exact) {found : List (Found Path)}
    (fits : index.total + (found.map Found.size).sum ≤ u64Max) :
    (found.foldl Index.insert index).Exact := by
  induction found generalizing index with
  | nil => exact exact
  | cons file rest inductionHypothesis =>
      rw [List.map_cons, List.sum_cons] at fits
      have total := total_remove index file.path
      have inserted := total_insert index file
      refine inductionHypothesis (exact.insert ?_) ?_
      · omega
      · omega

end Index

/-! ### One clearing -/

/-- The files that leave the index in a clearing, in order: those that it deletes, and the one
that was not there. -/
def Cleared.taken (cleared : Cleared Path) : List (Entry Path) :=
  cleared.evicted ++
    match cleared.stop with
    | .missing entry => [entry]
    | _ => []

/-- Why a clearing ended is what it found. -/
def Cleared.Stopped (removal : Path → Removal) (target : Nat) (cleared : Cleared Path) : Prop :=
  match cleared.stop with
  | .finished => target ≤ cleared.removed ∨ cleared.index.oldest = ∅
  | .missing entry => removal (Index.pathOf entry) = .missing
  | .failed entry => removal (Index.pathOf entry) = .failed ∧ entry ∈ cleared.index.oldest

/-- A clearing takes the oldest files, one after the other, and stops at its target, at an
index without files, or at a file that it cannot delete. -/
structure Clears (removal : Path → Removal) (target : Nat) (start : Index Path) (before : Nat)
    (cleared : Cleared Path) : Prop where
  mirrored : cleared.index.Mirrored
  ordered : cleared.taken.Pairwise (· < ·)
  oldest : ∀ entry, entry ∈ start.oldest ↔ entry ∈ cleared.taken ∨ entry ∈ cleared.index.oldest
  oldestFirst : ∀ gone ∈ cleared.taken, ∀ kept ∈ cleared.index.oldest, gone < kept
  files : ∀ path, cleared.index.files.lookup path =
    if path ∈ cleared.taken.map Index.pathOf then none else start.files.lookup path
  deleted : ∀ entry ∈ cleared.evicted, removal (Index.pathOf entry) = .removed
  stopped : cleared.Stopped removal target
  /-- The bytes removed are those of the deleted files, and every deletion found the target
  unmet. -/
  prompt : start.Exact → before + start.total ≤ u64Max → cleared.index.Exact ∧
    cleared.removed = before + (cleared.evicted.map start.sizeAt).sum ∧
    ∀ front entry, front ++ [entry] <+: cleared.evicted →
      before + (front.map start.sizeAt).sum < target

namespace Clears

open Index

variable {removal : Path → Removal} {target before : Nat} {start : Index Path}

/-- A clearing that takes nothing. -/
theorem nothing {stop : Stop Path} (mirrored : start.Mirrored)
    (quiet : ∀ entry, stop ≠ .missing entry)
    (stopped : Cleared.Stopped removal target ⟨start, before, stop, []⟩) :
    Clears removal target start before ⟨start, before, stop, []⟩ := by
  have taken : Cleared.taken ⟨start, before, stop, []⟩ = [] := by
    cases stop with
    | finished => rfl
    | missing entry => exact absurd rfl (quiet entry)
    | failed entry => rfl
  refine ⟨mirrored, ?_, ?_, ?_, ?_, nofun, stopped, fun exact fits => ⟨exact, rfl, ?_⟩⟩
  · rw [taken]
    exact List.Pairwise.nil
  · intro entry
    rw [taken]
    exact ⟨.inr, fun either => either.resolve_left List.not_mem_nil⟩
  · rw [taken]
    nofun
  · intro path
    rw [taken]
    rfl
  · intro front entry starts
    have length := starts.length_le
    simp at length

variable {entry : Entry Path}

/-- The index without its oldest entry. -/
theorem remove_oldest (mirrored : start.Mirrored) (member : entry ∈ start.oldest) :
    (start.remove (pathOf entry)).1.oldest = start.oldest.erase entry := by
  obtain ⟨size, found⟩ := (mirrored entry).mp member
  rw [remove_of_found found]
  rfl

theorem sizeAt_eq (mirrored : start.Mirrored) (member : entry ∈ start.oldest) :
    start.sizeAt entry = (start.remove (pathOf entry)).2.getD 0 := by
  obtain ⟨size, found⟩ := (mirrored entry).mp member
  rw [remove_of_found found, sizeAt, found]
  rfl

/-- What is left when the least entry goes is later. -/
theorem lt_of_least (least : start.oldest.min = some entry) {other : Entry Path}
    (member : other ∈ start.oldest.erase entry) : entry < other := by
  obtain ⟨different, inside⟩ := Finset.mem_erase.mp member
  exact lt_of_le_of_ne (Finset.min_le_of_eq inside least) (Ne.symm different)

/-- The oldest file is missing: it leaves the index, and the clearing ends. -/
theorem missing (mirrored : start.Mirrored) (least : start.oldest.min = some entry)
    (gone : removal (pathOf entry) = .missing) :
    Clears removal target start before
      ⟨(start.remove (pathOf entry)).1, before, .missing entry, []⟩ := by
  have member := Finset.mem_of_min least
  have rest := remove_oldest mirrored member
  refine ⟨mirrored.remove _, List.pairwise_singleton _ _, ?_, ?_, ?_, nofun, gone,
    fun exact fits => ⟨exact.remove _, rfl, ?_⟩⟩
  · intro other
    show _ ↔ other ∈ [entry] ∨ other ∈ (start.remove (pathOf entry)).1.oldest
    rw [rest, List.mem_singleton, Finset.mem_erase]
    by_cases same : other = entry
    · exact ⟨fun _ => .inl same, fun _ => same ▸ member⟩
    · simp [same]
  · intro first isFirst kept inside
    rw [List.mem_singleton.mp isFirst]
    rw [rest] at inside
    exact lt_of_least least inside
  · intro path
    show (start.remove (pathOf entry)).1.files.lookup path =
      if path ∈ [pathOf entry] then none else _
    rw [remove_files, lookup_erase]
    simp only [List.mem_singleton]
  · intro front other starts
    have length := starts.length_le
    simp at length

/-- The oldest file is deleted, and the clearing goes on. -/
theorem deletes {cleared : Cleared Path} (mirrored : start.Mirrored)
    (least : start.oldest.min = some entry) (unmet : ¬ target ≤ before)
    (removed : removal (pathOf entry) = .removed)
    (clears : Clears removal target (start.remove (pathOf entry)).1
      ((before + (start.remove (pathOf entry)).2.getD 0) % 2 ^ 64) cleared) :
    Clears removal target start before { cleared with evicted := entry :: cleared.evicted } := by
  have member := Finset.mem_of_min least
  have rest := remove_oldest mirrored member
  have taken : Cleared.taken { cleared with evicted := entry :: cleared.evicted } =
      entry :: cleared.taken := rfl
  have later : ∀ other ∈ cleared.taken, entry < other := fun other inside => by
    refine lt_of_least least ?_
    rw [← rest]
    exact (clears.oldest other).mpr (.inl inside)
  refine ⟨clears.mirrored, ?_, ?_, ?_, ?_, ?_, clears.stopped, ?_⟩
  · rw [taken]
    exact List.pairwise_cons.mpr ⟨later, clears.ordered⟩
  · intro other
    rw [taken, List.mem_cons, or_assoc, ← clears.oldest, rest, Finset.mem_erase]
    by_cases same : other = entry
    · exact ⟨fun _ => .inl same, fun _ => same ▸ member⟩
    · simp [same]
  · intro gone isGone kept inside
    rcases List.mem_cons.mp isGone with rfl | isLater
    · refine lt_of_least least ?_
      rw [← rest]
      exact (clears.oldest kept).mpr (.inr inside)
    · exact clears.oldestFirst gone isLater kept inside
  · intro path
    rw [taken, List.map_cons, clears.files, remove_files, lookup_erase]
    by_cases inside : path ∈ cleared.taken.map pathOf
    · rw [if_pos inside, if_pos (List.mem_cons_of_mem _ inside)]
    · rw [if_neg inside]
      simp [inside]
  · intro other isDeleted
    rcases List.mem_cons.mp isDeleted with rfl | isLater
    · exact removed
    · exact clears.deleted other isLater
  · intro exact fits
    have total := total_remove start (pathOf entry)
    have size := sizeAt_eq mirrored member
    have unwrapped : (before + (start.remove (pathOf entry)).2.getD 0) % 2 ^ 64 =
        before + start.sizeAt entry := by
      rw [size]
      refine Nat.mod_eq_of_lt ?_
      unfold u64Max at fits
      omega
    obtain ⟨exactRest, bytes, prompt⟩ := clears.prompt (exact.remove _) (by omega)
    -- Every other file has the size that it had at the start.
    have sizes : ∀ other ∈ cleared.evicted,
        (start.remove (pathOf entry)).1.sizeAt other = start.sizeAt other := fun other inside => by
      have listed := (clears.oldest other).mpr (.inl (List.mem_append_left _ inside))
      obtain ⟨size, found⟩ := (mirrored.remove (pathOf entry) other).mp listed
      have found' := found
      rw [remove_files, lookup_erase] at found
      split at found
      · cases found
      · rw [sizeAt, sizeAt, found', found]
    rw [unwrapped] at bytes prompt
    refine ⟨exactRest, ?_, ?_⟩
    · show cleared.removed = before + ((entry :: cleared.evicted).map start.sizeAt).sum
      rw [List.map_cons, List.sum_cons, bytes, List.map_congr_left sizes]
      omega
    · intro front other starts
      cases front with
      | nil => exact Nat.lt_of_not_le unmet
      | cons head front =>
          have starts : head :: (front ++ [other]) <+: entry :: cleared.evicted := starts
          obtain ⟨same, within⟩ := List.cons_prefix_cons.mp starts
          have earlier := prompt front other within
          have sizesFront : ∀ file ∈ front,
              (start.remove (pathOf entry)).1.sizeAt file = start.sizeAt file := fun file inside =>
            sizes file (within.mem (List.mem_append_left [other] inside))
          rw [List.map_congr_left sizesFront] at earlier
          rw [List.map_cons, List.sum_cons, same]
          omega

end Clears

/-- A loop with one round more than there are files ends. -/
theorem clear_clears {removal : Path → Removal} {target rounds before : Nat} {start : Index Path}
    (mirrored : start.Mirrored) (enough : start.oldest.card < rounds) :
    ∃ cleared, clear removal target rounds start before = some cleared ∧
      Clears removal target start before cleared := by
  induction rounds generalizing start before with
  | zero => omega
  | succ rounds inductionHypothesis =>
      rw [clear]
      by_cases met : target ≤ before
      · rw [if_pos met]
        exact ⟨_, rfl, .nothing mirrored (fun _ same => by cases same) (.inl met)⟩
      rw [if_neg met]
      cases least : start.oldest.min with
      | top => exact ⟨_, rfl, .nothing mirrored (fun _ same => by cases same) (.inr (Finset.min_eq_top.mp least))⟩
      | coe entry =>
          have member := Finset.mem_of_min least
          dsimp only
          cases answer : removal (ofLex entry).2 with
          | failed => exact ⟨_, rfl, .nothing mirrored (fun _ same => by cases same) ⟨answer, member⟩⟩
          | missing => exact ⟨_, rfl, .missing mirrored least answer⟩
          | removed =>
              have fewer : (start.remove (Index.pathOf entry)).1.oldest.card < rounds := by
                rw [Clears.remove_oldest mirrored member]
                have less := Finset.card_erase_lt_of_mem member
                omega
              obtain ⟨cleared, ended, clears⟩ := inductionHypothesis (mirrored.remove _) fewer
              refine ⟨_, ?_, .deletes mirrored least met answer clears⟩
              show (clear removal target rounds (start.remove (Index.pathOf entry)).1
                ((before + (start.remove (Index.pathOf entry)).2.getD 0) % 2 ^ 64)).map _ = _
              rw [ended]
              rfl

end Cairn.Storage.CleanCache

import Cairn.Storage.Lazy.Appending
import Cairn.Storage.Lazy.Disk

/-!
Owns `write_at` and `write_batch` of `storage/lazy/mod.rs`, and the comparison of a batch with
its writes one by one: committing after every append or only after the last one leaves the
same journal, the same files and the same accounting.

Does not own what a disk reads back, nor concurrent calls.
-/

set_option autoImplicit false

namespace Cairn.Storage.Lazy

universe u

variable {Hash : Type u}

/-! ### Committing everything -/

/-- Syncing some files. -/
def Store.syncAll (names : List SegmentName) (store : Store Hash) : Store Hash :=
  { store with files := fun name =>
      if name ∈ names then (store.files name).map File.sync else store.files name }

theorem Store.syncAll_files (names : List SegmentName) (store : Store Hash) (name : SegmentName) :
    (store.syncAll names).files name =
      if name ∈ names then (store.files name).map File.sync else store.files name := rfl

theorem Store.modifyFile_files (store : Store Hash) (name : SegmentName) (change : File → File)
    (other : SegmentName) : (store.modifyFile name change).files other =
      if other = name then (store.files other).map change else store.files other := by
  by_cases same : other = name
  · subst same
    rw [if_pos rfl]
    exact Function.update_self ..
  · rw [if_neg same]
    exact Function.update_of_ne same ..

/-- Without a failure every file of a commit is synced. -/
theorem LazyDisk.syncFiles_none (names : List SegmentName) (store : Store Hash) :
    syncFiles none names store = (store.syncAll names, .ok ()) := by
  induction names generalizing store with
  | nil => rfl
  | cons name rest inductionHypothesis =>
      show syncFiles none rest (store.modifyFile name File.sync) = _
      rw [inductionHypothesis]
      refine congrArg (·, _) (congrArg (Store.mk store.db) (funext fun other => ?_))
      rw [Store.modifyFile_files]
      by_cases same : other = name
      · rw [if_pos same, if_pos (List.mem_cons.mpr (.inl same)), Option.map_map]
        split
        · rfl
        · rfl
      · simp only [same, List.mem_cons, if_false, false_or]

namespace Volume

/-- A group commit of everything that was appended. -/
def commitAll (volume : Volume Hash) : Volume Hash :=
  if volume.journal.next - 1 ≤ volume.journal.durableThrough then volume
  else {
    store := volume.store.syncAll (volume.journal.pending.map Prod.fst)
    journal := { volume.journal with
      durableThrough := volume.journal.next - 1
      pending := volume.journal.pending.filter fun entry => volume.journal.next - 1 < entry.2 } }

theorem commitAll_journal (volume : Volume Hash) :
    ∃ durableThrough pending,
      volume.commitAll.journal = { volume.journal with durableThrough, pending } := by
  unfold commitAll
  split
  · exact ⟨_, _, rfl⟩
  · exact ⟨_, _, rfl⟩

theorem commitAll_db (volume : Volume Hash) : volume.commitAll.store.db = volume.store.db := by
  unfold commitAll
  split
  · rfl
  · rfl

/-- What a commit does to a file. -/
theorem commitAll_files (volume : Volume Hash) (name : SegmentName) :
    volume.commitAll.store.files name = volume.store.files name ∨
      volume.commitAll.store.files name = (volume.store.files name).map File.sync := by
  unfold commitAll
  split
  · exact .inl rfl
  · dsimp only [Store.syncAll]
    split
    · exact .inr rfl
    · exact .inl rfl

@[simp] theorem commitAll_next (volume : Volume Hash) :
    volume.commitAll.journal.next = volume.journal.next := by
  obtain ⟨_, _, same⟩ := volume.commitAll_journal
  rw [same]

@[simp] theorem commitAll_failed (volume : Volume Hash) :
    volume.commitAll.journal.failed = volume.journal.failed := by
  obtain ⟨_, _, same⟩ := volume.commitAll_journal
  rw [same]

@[simp] theorem commitAll_stats (volume : Volume Hash) :
    volume.commitAll.journal.stats = volume.journal.stats := by
  obtain ⟨_, _, same⟩ := volume.commitAll_journal
  rw [same]
  rfl

theorem commitAll_of_committed {volume : Volume Hash}
    (committed : volume.journal.next - 1 ≤ volume.journal.durableThrough) :
    volume.commitAll = volume := if_pos committed

theorem commitAll_files_behind {volume : Volume Hash}
    (behind : ¬ volume.journal.next - 1 ≤ volume.journal.durableThrough) (name : SegmentName) :
    volume.commitAll.store.files name =
      if name ∈ volume.journal.pending.map Prod.fst then (volume.store.files name).map File.sync
      else volume.store.files name := by
  rw [commitAll, if_neg behind, Store.syncAll_files]

theorem commitAll_of_behind {volume : Volume Hash}
    (behind : ¬ volume.journal.next - 1 ≤ volume.journal.durableThrough) :
    volume.commitAll = {
      store := volume.store.syncAll (volume.journal.pending.map Prod.fst)
      journal := { volume.journal with
        durableThrough := volume.journal.next - 1
        pending := volume.journal.pending.filter fun entry => volume.journal.next - 1 < entry.2 } } :=
  if_neg behind

theorem commitAll_journal_behind {volume : Volume Hash}
    (behind : ¬ volume.journal.next - 1 ≤ volume.journal.durableThrough) :
    volume.commitAll.journal = { volume.journal with
      durableThrough := volume.journal.next - 1
      pending := volume.journal.pending.filter fun entry => volume.journal.next - 1 < entry.2 } := by
  rw [commitAll, if_neg behind]

theorem ext_fields {first second : Volume Hash} (db : first.store.db = second.store.db)
    (files : ∀ name, first.store.files name = second.store.files name)
    (journal : first.journal = second.journal) : first = second := by
  obtain ⟨⟨_, _⟩, _⟩ := first
  obtain ⟨⟨_, _⟩, _⟩ := second
  obtain rfl : _ = _ := db
  obtain rfl : _ = _ := journal
  obtain rfl : _ = _ := funext files
  rfl

theorem rotated_files (volume : Volume Hash) (name : SegmentName) :
    volume.rotated.store.files name =
      if name = volume.nextName then some ⟨[], 0⟩ else volume.store.files name := by
  by_cases same : name = volume.nextName
  · rw [if_pos same, same]
    exact Function.update_self ..
  · rw [if_neg same]
    exact Function.update_of_ne same ..

theorem written_files (checksums : Checksums) (frame : Frame) (index : Nat) (segment : Segment)
    (volume : Volume Hash) (name : SegmentName) :
    (volume.written checksums frame index segment).store.files name =
      if name = segment.name then
        (volume.store.files name).map fun file => file.writeAt segment.length (frame.encode checksums)
      else volume.store.files name :=
  Store.modifyFile_files ..

/-- A commit before a rotation is a commit behind it. -/
theorem commitAll_rotated (volume : Volume Hash) :
    volume.commitAll.rotated = volume.rotated.commitAll := by
  by_cases committed : volume.journal.next - 1 ≤ volume.journal.durableThrough
  · rw [commitAll_of_committed committed]
    exact (@commitAll_of_committed _ volume.rotated committed).symm
  · have same_name : volume.commitAll.nextName = volume.nextName := by
      rw [nextName, commitAll_journal_behind committed, nextName]
    refine ext_fields ?_ (fun name => ?_) ?_
    · rw [commitAll_db, commitAll_of_behind committed]
      rfl
    · rw [@commitAll_files_behind _ volume.rotated committed, rotated_files, rotated_files,
        same_name, commitAll_files_behind committed]
      by_cases same : name = volume.nextName
      · rw [if_pos same, if_pos same]
        split
        · rfl
        · rfl
      · rw [if_neg same, if_neg same]
        rfl
    · rw [commitAll_of_behind committed, @commitAll_of_behind _ volume.rotated committed]
      rfl

theorem written_pending (checksums : Checksums) (frame : Frame) (index : Nat) (segment : Segment)
    (volume : Volume Hash) : (volume.written checksums frame index segment).journal.pending =
      volume.journal.setPending segment.name := rfl

theorem mem_setPending_self (journal : Journal) (name : SegmentName) :
    name ∈ (journal.setPending name).map Prod.fst := by
  simp [Journal.setPending]

theorem mem_setPending_of_ne (journal : Journal) {name other : SegmentName} (different : other ≠ name) :
    other ∈ (journal.setPending name).map Prod.fst ↔ other ∈ journal.pending.map Prod.fst := by
  simp only [Journal.setPending, List.map_append, List.mem_append, List.map_singleton,
    List.mem_singleton, different, or_false, List.mem_map, List.mem_filter, decide_eq_true_eq]
  constructor
  · rintro ⟨entry, ⟨member, _⟩, rfl⟩
    exact ⟨entry, member, rfl⟩
  · rintro ⟨entry, member, rfl⟩
    exact ⟨entry, ⟨member, different⟩, rfl⟩

theorem pending_committed (pending : List (SegmentName × Nat)) (name : SegmentName) (next : Nat) :
    ((pending.filter fun entry => next - 1 < entry.2).filter (fun entry => entry.1 ≠ name) ++
        [(name, next)]).filter (fun entry => next < entry.2) =
      (pending.filter (fun entry => entry.1 ≠ name) ++ [(name, next)]).filter
        (fun entry => next < entry.2) := by
  rw [List.filter_append, List.filter_append, List.filter_filter, List.filter_filter,
    List.filter_filter]
  refine congrArg (· ++ _) (List.filter_congr fun entry _ => ?_)
  by_cases later : next < entry.2
  · simp [later, Nat.lt_of_le_of_lt (Nat.sub_le next 1) later]
  · simp [later]

/-- A commit before a frame write adds nothing to a commit behind it. -/
theorem commitAll_written (checksums : Checksums) (frame : Frame) (index : Nat) (segment : Segment)
    (volume : Volume Hash) :
    (volume.commitAll.written checksums frame index segment).commitAll =
      (volume.written checksums frame index segment).commitAll := by
  by_cases committed : volume.journal.next - 1 ≤ volume.journal.durableThrough
  · rw [commitAll_of_committed committed]
  · have behind : ¬ (volume.written checksums frame index segment).journal.next - 1 ≤
        (volume.written checksums frame index segment).journal.durableThrough := by
      show ¬ volume.journal.next + 1 - 1 ≤ volume.journal.durableThrough
      omega
    have still_behind : ¬ (volume.commitAll.written checksums frame index segment).journal.next - 1 ≤
        (volume.commitAll.written checksums frame index segment).journal.durableThrough := by
      rw [commitAll_of_behind committed]
      show ¬ volume.journal.next + 1 - 1 ≤ volume.journal.next - 1
      omega
    refine ext_fields ?_ (fun name => ?_) ?_
    · rw [commitAll_db, commitAll_db]
      exact commitAll_db volume
    · rw [commitAll_files_behind still_behind, commitAll_files_behind behind, written_files,
        written_files, commitAll_files_behind committed, written_pending, written_pending]
      by_cases same : name = segment.name
      · subst same
        rw [if_pos (mem_setPending_self ..), if_pos (mem_setPending_self ..), if_pos rfl, if_pos rfl]
        split
        · rw [Option.map_map, Option.map_map, Option.map_map]
          rfl
        · rfl
      · rw [if_neg same, if_neg same]
        by_cases pending : name ∈ volume.journal.pending.map Prod.fst
        · rw [if_pos pending, if_pos ((mem_setPending_of_ne volume.journal same).mpr pending),
            Option.map_map]
          split
          · rfl
          · rfl
        · have absent : name ∉ volume.commitAll.journal.pending.map Prod.fst := by
            rw [commitAll_journal_behind committed]
            exact fun member => pending (List.map_subset _ (List.filter_subset_self ..) member)
          rw [if_neg pending, if_neg fun member =>
              pending ((mem_setPending_of_ne volume.journal same).mp member),
            if_neg fun member =>
              absent ((mem_setPending_of_ne volume.commitAll.journal same).mp member)]
    · rw [commitAll_journal_behind still_behind, commitAll_journal_behind behind,
        commitAll_of_behind committed]
      exact congrArg (fun pending =>
        { (volume.written checksums frame index segment).journal with
          durableThrough := volume.journal.next + 1 - 1
          pending := pending })
        (pending_committed volume.journal.pending segment.name volume.journal.next)

/-! ### The same contents -/

/-- Two volumes with the same tables, frames and counters, which differ in what is synced. -/
structure Alike (first second : Volume Hash) : Prop where
  db : second.store.db = first.store.db
  files : ∀ name, (second.store.files name).map File.bytes = (first.store.files name).map File.bytes
  journal : ∃ durableThrough pending,
    second.journal = { first.journal with durableThrough, pending }

theorem Alike.refl (volume : Volume Hash) : Alike volume volume := ⟨rfl, fun _ => rfl, _, _, rfl⟩

theorem alike_commitAll (volume : Volume Hash) : Alike volume volume.commitAll := by
  refine ⟨volume.commitAll_db, fun name => ?_, volume.commitAll_journal⟩
  rcases volume.commitAll_files name with same | synced
  · rw [same]
  · rw [synced, Option.map_map]
    rfl

theorem Alike.fail {first second : Volume Hash} (alike : Alike first second) :
    Alike { first with journal := first.journal.fail } { second with journal := second.journal.fail } := by
  obtain ⟨db, files, durableThrough, pending, journal⟩ := alike
  refine ⟨db, files, durableThrough, pending, ?_⟩
  dsimp only
  rw [journal]
  rfl

theorem Alike.isSome {first second : Volume Hash} (alike : Alike first second) (name : SegmentName) :
    (second.store.files name).isSome = (first.store.files name).isSome := by
  have same := congrArg Option.isSome (alike.files name)
  rwa [Option.isSome_map, Option.isSome_map] at same

/-- Updating one file alike. -/
theorem Alike.update {files others : SegmentName → Option File}
    (alike : ∀ name, (others name).map File.bytes = (files name).map File.bytes)
    (changed : SegmentName) {file other : Option File}
    (same : other.map File.bytes = file.map File.bytes) (name : SegmentName) :
    (Function.update others changed other name).map File.bytes =
      (Function.update files changed file name).map File.bytes := by
  by_cases here : name = changed
  · subst here
    rw [Function.update_self, Function.update_self, same]
  · rw [Function.update_of_ne here, Function.update_of_ne here, alike name]

/-- A rotation goes the same way. -/
theorem Alike.rotate {first second : Volume Hash} (alike : Alike first second) (env : AppendEnv) :
    (second.rotate env).2 = (first.rotate env).2 ∧
      Alike (first.rotate env).1 (second.rotate env).1 := by
  have present := alike.isSome first.nextName
  obtain ⟨db, files, durableThrough, pending, journal⟩ := alike
  obtain ⟨⟨secondDb, secondFiles⟩, secondJournal⟩ := second
  obtain ⟨⟨firstDb, firstFiles⟩, firstJournal⟩ := first
  dsimp only at db files journal present
  subst db journal
  have created := Alike.update files ⟨firstJournal.generation, firstJournal.next⟩
    (rfl : (some (⟨[], 0⟩ : File)).map File.bytes = (some ⟨[], 0⟩).map File.bytes)
  unfold Volume.rotate
  dsimp only [nextName] at present ⊢
  rw [present]
  split
  · exact ⟨rfl, rfl, files, _, _, rfl⟩
  · split
    · exact ⟨rfl, rfl, files, _, _, rfl⟩
    · split
      · exact ⟨rfl, rfl, created, _, _, rfl⟩
      · split
        · exact ⟨rfl, rfl, created, _, _, rfl⟩
        · split
          · split
            · exact ⟨rfl, rfl, created, _, _, rfl⟩
            · exact ⟨rfl, rfl, created, _, _, rfl⟩
          · exact ⟨rfl, rfl, created, _, _, rfl⟩

/-- A frame write goes the same way. -/
theorem Alike.writeFrame {first second : Volume Hash} (alike : Alike first second)
    (checksums : Checksums) (env : AppendEnv) (offset : Nat) (data : Bytes) :
    (second.writeFrame checksums env offset data).2 = (first.writeFrame checksums env offset data).2 ∧
      Alike (first.writeFrame checksums env offset data).1
        (second.writeFrame checksums env offset data).1 := by
  obtain ⟨db, files, durableThrough, pending, journal⟩ := alike
  obtain ⟨⟨secondDb, secondFiles⟩, secondJournal⟩ := second
  obtain ⟨⟨firstDb, firstFiles⟩, firstJournal⟩ := first
  dsimp only at db files journal
  subst db journal
  have changed : ∀ (name : SegmentName) (position : Nat) (bytes : Bytes),
      ((secondFiles name).map fun file => file.writeAt position bytes).map File.bytes =
        ((firstFiles name).map fun file => file.writeAt position bytes).map File.bytes := by
    intro name position bytes
    have same := files name
    cases second : secondFiles name with
    | none =>
        cases first : firstFiles name with
        | none => rfl
        | some file =>
            rw [first, second] at same
            contradiction
    | some other =>
        cases first : firstFiles name with
        | none =>
            rw [first, second] at same
            contradiction
        | some file =>
            rw [first, second] at same
            have bytes_same : other.bytes = file.bytes := Option.some.inj same
            simp only [Option.map_some, File.writeAt, bytes_same]
  unfold Volume.writeFrame
  dsimp only
  split
  · exact ⟨rfl, rfl, files, _, _, rfl⟩
  · split
    · exact ⟨rfl, rfl, Alike.update files _ (changed ..), _, _, rfl⟩
    · exact ⟨rfl, rfl, Alike.update files _ (changed ..), _, _, rfl⟩

/-- An append goes the same way. -/
theorem Alike.append {first second : Volume Hash} (alike : Alike first second)
    (checksums : Checksums) (env : AppendEnv) (offset : Nat) (data : Bytes) :
    (second.append checksums env offset data).2 = (first.append checksums env offset data).2 ∧
      Alike (first.append checksums env offset data).1 (second.append checksums env offset data).1 := by
  obtain ⟨_, _, journal⟩ := alike.journal
  have failed : second.journal.failed = first.journal.failed := by rw [journal]
  have next : second.journal.next = first.journal.next := by rw [journal]
  have room : second.journal.roomFor data.length = first.journal.roomFor data.length := by
    rw [journal]
    rfl
  unfold Volume.append
  rw [failed, next, room]
  split
  · exact ⟨rfl, alike⟩
  · split
    · exact ⟨rfl, alike⟩
    · split
      · exact alike.writeFrame checksums env offset data
      · obtain ⟨same, rotated⟩ := alike.rotate env
        cases firstRotates : first.rotate env with
        | mk firstRotated outcome =>
            cases secondRotates : second.rotate env with
            | mk secondRotated other =>
                rw [firstRotates, secondRotates] at same rotated
                dsimp only at same rotated
                subst same
                cases other with
                | error failure => exact ⟨rfl, rotated⟩
                | ok => exact rotated.writeFrame checksums env offset data

/-! ### Appending to a committed journal -/

theorem rotate_ok {env : AppendEnv} {volume rotated : Volume Hash}
    (rotates : volume.rotate env = (rotated, .ok ())) : rotated = volume.rotated := by
  have outcome := rotate_rotates env volume
  rw [rotates] at outcome
  cases outcome with
  | rotated => rfl

theorem writeFrame_ok {checksums : Checksums} {env : AppendEnv} {offset : Nat} {data : Bytes}
    {volume after : Volume Hash} {sequence : Nat}
    (writes : volume.writeFrame checksums env offset data = (after, .ok sequence)) :
    ∃ index segment, volume.activeSegment = some (index, segment) ∧
      after = volume.written checksums (frameOf env volume.journal offset data) index segment ∧
      sequence = volume.journal.next := by
  cases active : volume.activeSegment with
  | none =>
      rw [activeSegment] at active
      rw [Volume.writeFrame] at writes
      dsimp only at writes
      rw [active] at writes
      cases (Prod.mk.inj writes).2
  | some found =>
      obtain ⟨index, segment⟩ := found
      have outcome := writeFrame_writes checksums env offset data active
      rw [writes] at outcome
      cases outcome with
      | written => exact ⟨index, segment, rfl, rfl, rfl⟩

/-- A frame write behind a commit. -/
theorem writeFrame_commitAll {checksums : Checksums} {env : AppendEnv} {offset : Nat} {data : Bytes}
    {volume after committed : Volume Hash} {sequence other : Nat}
    (writes : volume.writeFrame checksums env offset data = (after, .ok sequence))
    (again : volume.commitAll.writeFrame checksums env offset data = (committed, .ok other)) :
    committed.commitAll = after.commitAll := by
  obtain ⟨index, segment, active, rfl, _⟩ := writeFrame_ok writes
  obtain ⟨_, _, still_active, rfl, _⟩ := writeFrame_ok again
  obtain ⟨_, _, journal⟩ := volume.commitAll_journal
  have same_active : volume.commitAll.activeSegment = volume.activeSegment := by
    rw [activeSegment, journal, activeSegment]
  obtain ⟨rfl, rfl⟩ := Prod.mk.inj (Option.some.inj
    (still_active.symm.trans (same_active.trans active)))
  have same_frame : frameOf env volume.commitAll.journal offset data =
      frameOf env volume.journal offset data := by
    rw [frameOf, journal, frameOf]
  rw [same_frame]
  exact commitAll_written checksums _ _ _ volume

/-- **An append behind a commit.** It succeeds where it does without the commit, and the next
commit makes up for the difference. -/
theorem append_commitAll {checksums : Checksums} {env : AppendEnv} {offset : Nat} {data : Bytes}
    {volume after : Volume Hash} {sequence : Nat}
    (appends : volume.append checksums env offset data = (after, .ok sequence)) :
    ∃ committed, volume.commitAll.append checksums env offset data = (committed, .ok sequence) ∧
      committed.commitAll = after.commitAll := by
  have alike := ((alike_commitAll volume).append checksums env offset data).1
  rw [appends] at alike
  refine ⟨(volume.commitAll.append checksums env offset data).1, Prod.ext rfl alike, ?_⟩
  have again : volume.commitAll.append checksums env offset data =
      ((volume.commitAll.append checksums env offset data).1, .ok sequence) := Prod.ext rfl alike
  generalize (volume.commitAll.append checksums env offset data).1 = committed at again
  obtain ⟨_, _, journal⟩ := volume.commitAll_journal
  have room : volume.commitAll.journal.roomFor data.length = volume.journal.roomFor data.length := by
    rw [journal]
    rfl
  unfold Volume.append at appends again
  rw [commitAll_failed, commitAll_next, room] at again
  split at appends
  · cases (Prod.mk.inj appends).2
  · rename_i healthy
    rw [if_neg healthy] at again
    split at appends
    · cases (Prod.mk.inj appends).2
    · rename_i bounded
      rw [if_neg bounded] at again
      split at appends
      · rename_i roomy
        rw [roomy] at again
        exact writeFrame_commitAll appends again
      · rename_i full
        rw [full] at again
        dsimp only at again
        split at appends
        · cases (Prod.mk.inj appends).2
        · rename_i rotated rotates
          split at again
          · cases (Prod.mk.inj again).2
          · rename_i committedRotated committedRotates
            rw [rotate_ok rotates] at appends
            rw [rotate_ok committedRotates, commitAll_rotated] at again
            exact writeFrame_commitAll appends again

/-- What a successful append leaves to commit. -/
theorem append_ok {checksums : Checksums} {env : AppendEnv} {offset : Nat} {data : Bytes}
    {volume after : Volume Hash} {sequence : Nat}
    (appends : volume.append checksums env offset data = (after, .ok sequence)) :
    after.journal.failed = false ∧ after.journal.next = sequence + 1 ∧
      after.journal.pending ≠ [] := by
  have outcome := append_appends checksums env offset data volume
  rw [appends] at outcome
  cases outcome with
  | writes healthy _ _ write =>
      cases write with
      | written => exact ⟨healthy, rfl, by simp [Journal.setPending]⟩
  | rotates healthy _ _ write =>
      cases write with
      | written => exact ⟨healthy, rfl, by simp [Journal.setPending]⟩

end Volume

namespace LazyDisk

/-- A group commit without a failure. -/
theorem commitWrite_none {disk : LazyDisk Hash} {sequence : Nat}
    (healthy : disk.journal.failed = false) (next : disk.journal.next = sequence + 1)
    (pending : disk.journal.pending ≠ []) :
    disk.commitWrite none sequence = ({ disk with toVolume := disk.toVolume.commitAll }, .ok ()) := by
  have last : disk.journal.next - 1 = sequence := by omega
  have inside : ¬ (disk.journal.next ≤ sequence ∨ disk.journal.pending = []) := by
    rintro (below | empty)
    · omega
    · exact pending empty
  unfold commitWrite Journal.commitBatch Journal.checkHealth
  rw [healthy, if_neg Bool.false_ne_true]
  by_cases committed : sequence ≤ disk.journal.durableThrough
  · rw [Volume.commitAll_of_committed (last ▸ committed)]
    simp only [bind, Except.bind, if_pos committed, pure, Except.pure]
  · rw [Volume.commitAll_of_behind (last ▸ committed)]
    simp only [bind, Except.bind, if_neg committed, if_neg inside, pure, Except.pure,
      syncFiles_none, Journal.committed, Journal.checkHealth, healthy, Bool.false_eq_true, if_false]

/-! ### `write_at` and `write_batch` -/

/-- `write_at`. -/
def writeAt (checksums : Checksums) (env : WriteEnv) (offset : Nat) (bytes : Bytes)
    (disk : LazyDisk Hash) : LazyDisk Hash × Except String Unit :=
  disk.appendWrites checksums env [⟨offset, bytes⟩]

/-- `write_batch`. -/
def writeBatch (checksums : Checksums) (env : WriteEnv) (writes : List DiskWrite)
    (disk : LazyDisk Hash) : LazyDisk Hash × Except String Unit :=
  match writes with
  | [write] => disk.writeAt checksums env write.offset write.bytes
  | writes =>
    if 128 < writes.length then (disk, .error "Too many disk writes in one batch")
    else disk.appendWrites checksums env writes

/-- `write_at` for every write of a list, in order, until one fails. The environment says what
each of them meets. -/
def writeEach (checksums : Checksums) :
    (Nat → AppendEnv) → List DiskWrite → LazyDisk Hash → LazyDisk Hash × Except String Unit
  | _, [], disk => (disk, .ok ())
  | env, write :: rest, disk =>
    match disk.writeAt checksums { append := fun _ => env 0 } write.offset write.bytes with
    | (disk, .error failure) => (disk, .error failure)
    | (disk, .ok ()) => writeEach checksums (fun count => env (count + 1)) rest disk

/-- How many bytes a list writes. -/
def byteCount (writes : List DiskWrite) : Nat := (writes.map fun write => write.bytes.length).sum

/-- The writes pass every check of `append_writes`. -/
structure Admissible (disk : LazyDisk Hash) (writes : List DiskWrite) : Prop where
  count : writes.length ≤ 128
  each : ∀ write ∈ writes, disk.check write.offset write.bytes.length = .ok ()
  total : byteCount writes ≤ maxIo

theorem checkWrites_ok {disk : LazyDisk Hash} {writes : List DiskWrite} {before : Nat}
    (each : ∀ write ∈ writes, disk.check write.offset write.bytes.length = .ok ())
    (total : before + byteCount writes ≤ maxIo) :
    disk.checkWrites writes before = .ok (before + byteCount writes) := by
  induction writes generalizing before with
  | nil => rfl
  | cons write rest inductionHypothesis =>
      have counted : byteCount (write :: rest) = write.bytes.length + byteCount rest := rfl
      rw [counted] at total
      rw [checkWrites, each write List.mem_cons_self]
      dsimp only
      rw [if_neg (by omega), counted, ← Nat.add_assoc]
      exact inductionHypothesis (fun other member => each other (List.mem_cons_of_mem _ member))
        (by omega)

theorem check_congr {first second : LazyDisk Hash} (size : second.size = first.size)
    (offset length : Nat) : second.check offset length = first.check offset length := by
  rw [check, check, size]

/-- One write behind its checks. -/
theorem writeAt_checked {checksums : Checksums} {env : AppendEnv} {write : DiskWrite}
    {disk : LazyDisk Hash} (checked : disk.check write.offset write.bytes.length = .ok ()) :
    disk.writeAt checksums { append := fun _ => env } write.offset write.bytes =
      if write.bytes = [] then (disk, .ok ())
      else match disk.toVolume.append checksums env write.offset write.bytes with
        | (volume, .error failure) =>
          ({ disk with toVolume := { volume with journal := volume.journal.fail } }, .error failure)
        | (volume, .ok sequence) =>
          commitWrite none sequence (updateAccounting { disk with toVolume := volume }) := by
  have small : write.bytes.length ≤ maxIo := by
    unfold check at checked
    split at checked
    · contradiction
    · omega
  have counted : disk.checkWrites [⟨write.offset, write.bytes⟩] 0 = .ok write.bytes.length := by
    rw [checkWrites_ok (fun other member => List.mem_singleton.mp member ▸ checked)
      (by simpa [byteCount] using small)]
    simp [byteCount]
  have single : ¬ 128 < [(⟨write.offset, write.bytes⟩ : DiskWrite)].length := by simp
  rw [writeAt, appendWrites, stageWrites, if_neg single, counted]
  dsimp only
  by_cases empty : write.bytes = []
  · rw [if_pos empty, if_pos (by rw [empty]; rfl)]
  · rw [if_neg empty, if_neg fun none => empty (List.length_eq_zero_iff.mp none), appendAll,
      if_neg empty]
    cases appended : disk.toVolume.append checksums env write.offset write.bytes with
    | mk volume outcome =>
        cases outcome with
        | error failure => rfl
        | ok sequence => rfl

/-- Where the writes one by one stand when the batch has appended the same writes: nothing was
written, or everything is committed and accounted for. -/
inductive InStep (initial : LazyDisk Hash) : Option Nat → Volume Hash → LazyDisk Hash → Prop
  | unwritten : InStep initial none initial.toVolume initial
  | written {sequence : Nat} {volume : Volume Hash} (healthy : volume.journal.failed = false)
      (next : volume.journal.next = sequence + 1) (pending : volume.journal.pending ≠ []) :
      InStep initial (some sequence) volume
        (updateAccounting { initial with toVolume := volume.commitAll })

theorem InStep.alike {initial disk : LazyDisk Hash} {last : Option Nat} {volume : Volume Hash}
    (inStep : InStep initial last volume disk) :
    Volume.Alike volume disk.toVolume ∧ disk.size = initial.size ∧ disk.base = initial.base := by
  cases inStep with
  | unwritten => exact ⟨Volume.Alike.refl _, rfl, rfl⟩
  | written => exact ⟨Volume.alike_commitAll _, rfl, rfl⟩

theorem commitAll_updateAccounting (disk : LazyDisk Hash) (volume : Volume Hash) :
    { updateAccounting { disk with toVolume := volume } with toVolume := volume.commitAll } =
      updateAccounting { disk with toVolume := volume.commitAll } := by
  unfold updateAccounting
  rw [Volume.commitAll_stats]

/-- One successful append, in the batch and alone. -/
theorem InStep.append {checksums : Checksums} {env : AppendEnv} {initial disk : LazyDisk Hash}
    {last : Option Nat} {volume after : Volume Hash} {sequence offset : Nat} {bytes : Bytes}
    (inStep : InStep initial last volume disk)
    (appends : volume.append checksums env offset bytes = (after, .ok sequence)) :
    ∃ alone next, disk.toVolume.append checksums env offset bytes = (alone, .ok sequence) ∧
      commitWrite none sequence (updateAccounting { disk with toVolume := alone }) =
        (next, .ok ()) ∧
      InStep initial (some sequence) after next := by
  obtain ⟨healthy, next, pending⟩ := Volume.append_ok appends
  have settled : InStep initial (some sequence) after
      (updateAccounting { initial with toVolume := after.commitAll }) :=
    .written healthy next pending
  cases inStep with
  | unwritten =>
      refine ⟨after, _, appends, commitWrite_none healthy next pending, ?_⟩
      exact (congrArg (InStep initial (some sequence) after)
        (commitAll_updateAccounting initial after)).mpr settled
  | written =>
      obtain ⟨alone, appended, committed⟩ := Volume.append_commitAll appends
      obtain ⟨alone_healthy, alone_next, alone_pending⟩ := Volume.append_ok appended
      refine ⟨alone, _, appended, commitWrite_none alone_healthy alone_next alone_pending, ?_⟩
      have same := (commitAll_updateAccounting
        (updateAccounting { initial with toVolume := volume.commitAll }) alone).trans
        (congrArg (fun volume => updateAccounting { initial with toVolume := volume }) committed)
      exact (congrArg (InStep initial (some sequence) after) same).mpr settled

/-- **The append loop, in the batch and one by one.** -/
theorem InStep.appendAll {checksums : Checksums} {env : Nat → AppendEnv}
    {initial disk : LazyDisk Hash} {writes : List DiskWrite} {last : Option Nat} {volume : Volume Hash}
    (checked : ∀ write ∈ writes, initial.check write.offset write.bytes.length = .ok ())
    (inStep : InStep initial last volume disk) :
    match LazyDisk.appendAll checksums env writes last volume with
    | (after, .ok final) => ∃ next, disk.writeEach checksums env writes = (next, .ok ()) ∧
        InStep initial final after next
    | (after, .error failure) => ∃ next, disk.writeEach checksums env writes = (next, .error failure) ∧
        Volume.Alike after next.toVolume ∧ next.size = initial.size ∧ next.base = initial.base := by
  induction writes generalizing env last volume disk with
  | nil => exact ⟨disk, rfl, inStep⟩
  | cons write rest inductionHypothesis =>
      have rest_checked : ∀ other ∈ rest, initial.check other.offset other.bytes.length = .ok () :=
        fun other member => checked other (List.mem_cons_of_mem _ member)
      obtain ⟨alike, size, base⟩ := inStep.alike
      have here : disk.check write.offset write.bytes.length = .ok () :=
        (check_congr size ..).trans (checked write List.mem_cons_self)
      rw [LazyDisk.appendAll, writeEach, writeAt_checked here]
      by_cases empty : write.bytes = []
      · rw [if_pos empty, if_pos empty]
        exact inductionHypothesis rest_checked inStep
      · rw [if_neg empty, if_neg empty]
        cases appended : volume.append checksums (env 0) write.offset write.bytes with
        | mk after outcome =>
            cases outcome with
            | error failure =>
                obtain ⟨same, after_alike⟩ := alike.append checksums (env 0) write.offset write.bytes
                cases alone : disk.toVolume.append checksums (env 0) write.offset write.bytes with
                | mk alone_after other =>
                    rw [appended, alone] at same after_alike
                    obtain rfl : other = .error failure := same
                    exact ⟨_, rfl, after_alike.fail, size, base⟩
            | ok sequence =>
                obtain ⟨alone, next, appends, commits, kept⟩ := inStep.append appended
                rw [appends]
                dsimp only
                rw [commits]
                exact inductionHypothesis rest_checked kept

/-- Two disks with the same frames, tables and counters, which differ in what is synced and in
what their accounting was last brought up to. -/
structure SameContents (first second : LazyDisk Hash) : Prop where
  volume : Volume.Alike first.toVolume second.toVolume
  size : second.size = first.size
  base : second.base = first.base

theorem Alike.read {checksums : Checksums} {first second : Volume Hash}
    (alike : Volume.Alike first second) (record : Record) :
    record.read checksums second.store = record.read checksums first.store := by
  have same := alike.files record.file
  unfold Record.read
  cases found : second.store.files record.file with
  | none =>
      cases others : first.store.files record.file with
      | none => rfl
      | some file =>
          rw [found, others] at same
          contradiction
  | some other =>
      cases others : first.store.files record.file with
      | none =>
          rw [found, others] at same
          contradiction
      | some file =>
          rw [found, others] at same
          have bytes : other.bytes = file.bytes := Option.some.inj same
          simp only [File.readExact, bytes]

/-- The same contents read the same. -/
theorem SameContents.readGeneration [DecidableEq Hash] {identities : Identities Hash} {checksums : Checksums}
    {first second : LazyDisk Hash} (same : SameContents first second)
    (blocks : Nat → Blocks identities) (generation offset count : Nat) :
    second.readGeneration checksums blocks generation offset count =
      first.readGeneration checksums blocks generation offset count := by
  have records : ∀ (records : List Record) (filling : Filling),
      readRecords checksums second.store offset count records filling =
        readRecords checksums first.store offset count records filling := by
    intro records
    induction records with
    | nil => exact fun _ => rfl
    | cons record rest inductionHypothesis =>
        intro filling
        rw [readRecords, readRecords, Alike.read same.volume record]
        simp only [inductionHypothesis]
  have index : second.journal.index = first.journal.index := by
    obtain ⟨_, _, journal⟩ := same.volume.journal
    rw [journal]
  rw [LazyDisk.readGeneration, LazyDisk.readGeneration, check_congr same.size, same.base, index]
  simp only [records]

end LazyDisk

end Cairn.Storage.Lazy

import Cairn.Storage.Lazy.Refinement

/-!
Owns what one `append` can do: the states it can leave a volume in, with or
without a failure, and that each of them refines the history it should.
-/

set_option autoImplicit false

namespace Cairn.Storage.Lazy

universe u

variable {Hash : Type u}

namespace Volume

/-! ### The states of an append -/

/-- The name of the segment that a rotation creates. -/
def nextName (volume : Volume Hash) : SegmentName := ⟨volume.journal.generation, volume.journal.next⟩

/-- Behind `create_new`. -/
def created (volume : Volume Hash) : Volume Hash :=
  { volume with store := { volume.store with
      files := Function.update volume.store.files volume.nextName (some ⟨[], 0⟩) } }

/-- Behind the descriptor transaction. -/
def described (volume : Volume Hash) : Volume Hash :=
  { volume with store := {
      db := { volume.store.db with
        segments := volume.store.db.segments ++
          [⟨volume.nextName, volume.journal.generation, volume.journal.next⟩]
        nextSequence := volume.journal.next }
      files := volume.created.store.files } }

/-- Behind a rotation. -/
def rotated (volume : Volume Hash) : Volume Hash :=
  { volume.described with journal := { volume.journal with
      segments := volume.journal.segments ++ [⟨volume.nextName, volume.journal.generation, 0⟩]
      active := some volume.journal.segments.length } }

/-- Behind a frame write that stopped after `count` bytes. -/
def torn (checksums : Checksums) (frame : Frame) (segment : Segment) (count : Nat)
    (volume : Volume Hash) : Volume Hash where
  store := volume.store.modifyFile segment.name fun file =>
    file.writeAt segment.length ((frame.encode checksums).take count)
  journal := volume.journal.fail

/-- Behind a complete frame write. -/
def written (checksums : Checksums) (frame : Frame) (index : Nat) (segment : Segment)
    (volume : Volume Hash) : Volume Hash where
  store := volume.store.modifyFile segment.name fun file =>
    file.writeAt segment.length (frame.encode checksums)
  journal := { volume.journal with
    segments := volume.journal.segments.set index
      { segment with length := segment.length + frame.length }
    journalBytes := volume.journal.journalBytes + frame.length
    pending := volume.journal.setPending segment.name
    index := volume.journal.index.insert (recordOf checksums segment.name segment.length frame)
    next := volume.journal.next + 1 }

/-- The active segment. -/
def activeSegment (volume : Volume Hash) : Option (Nat × Segment) :=
  volume.journal.active.bind fun index => (volume.journal.segments[index]?).map (index, ·)

/-- No row and no file is in the way of the next segment. -/
structure Unclaimed (volume : Volume Hash) : Prop where
  file : volume.store.files volume.nextName = none
  rows : ∀ row ∈ volume.store.db.segments, row.name ≠ volume.nextName ∧ row.first ≠ volume.journal.next

/-- What a rotation can do. -/
inductive Rotates (volume : Volume Hash) : Volume Hash → Except String Unit → Prop
  | refused (failure : String) : Rotates volume volume (.error failure)
  | created (failure : String) (fresh : volume.store.files volume.nextName = none) :
      Rotates volume volume.created (.error failure)
  | described (failure : String) (unclaimed : volume.Unclaimed) :
      Rotates volume volume.described (.error failure)
  | rotated (unclaimed : volume.Unclaimed) : Rotates volume volume.rotated (.ok ())

theorem rotate_rotates (env : AppendEnv) (volume : Volume Hash) :
    Rotates volume (volume.rotate env).1 (volume.rotate env).2 := by
  unfold rotate
  dsimp only
  split
  · exact .refused _
  split
  · exact .refused _
  rename_i absent
  have fresh : volume.store.files volume.nextName = none := by simpa [nextName] using absent
  split
  · exact .created _ fresh
  split
  · exact .created _ fresh
  rename_i unique
  have unclaimed : volume.Unclaimed := ⟨fresh, fun row member =>
    ⟨fun same => unique ⟨row, member, Or.inl same⟩, fun same => unique ⟨row, member, Or.inr same⟩⟩⟩
  split
  · split
    · exact .described _ unclaimed
    · exact .created _ fresh
  · exact .rotated unclaimed

/-- What a frame write can do. -/
inductive Writes (checksums : Checksums) (frame : Frame) (index : Nat) (segment : Segment)
    (volume : Volume Hash) : Volume Hash → Except String Nat → Prop
  | torn (failure : String) (count : Nat) (short : count < frame.length) :
      Writes checksums frame index segment volume (volume.torn checksums frame segment count)
        (.error failure)
  | written : Writes checksums frame index segment volume
      (volume.written checksums frame index segment) (.ok volume.journal.next)

theorem writeFrame_writes (checksums : Checksums) (env : AppendEnv) (offset : Nat) (data : Bytes)
    {volume : Volume Hash} {index : Nat} {segment : Segment}
    (active : volume.activeSegment = some (index, segment)) :
    Writes checksums (frameOf env volume.journal offset data) index segment volume
      (volume.writeFrame checksums env offset data).1
      (volume.writeFrame checksums env offset data).2 := by
  unfold writeFrame
  rw [activeSegment] at active
  dsimp only
  rw [active]
  dsimp only
  have positive := (frameOf env volume.journal offset data).length_pos
  split
  · exact .torn _ _ (by omega)
  · have writes : Writes checksums (frameOf env volume.journal offset data) index segment volume
        _ _ := .written
    have long : segment.length + (frameOf env volume.journal offset data).length =
        segment.length + headerBytes + data.length := (Nat.add_assoc ..).symm
    rw [written, long] at writes
    exact writes

/-- What an append can do. -/
inductive Appends (checksums : Checksums) (env : AppendEnv) (offset : Nat) (data : Bytes)
    (volume : Volume Hash) : Volume Hash → Except String Nat → Prop
  | refused (failure : String) : Appends checksums env offset data volume volume (.error failure)
  | created (failure : String) (healthy : volume.journal.failed = false)
      (fresh : volume.store.files volume.nextName = none) :
      Appends checksums env offset data volume volume.created (.error failure)
  | described (failure : String) (healthy : volume.journal.failed = false)
      (unclaimed : volume.Unclaimed) :
      Appends checksums env offset data volume volume.described (.error failure)
  | writes {index : Nat} {segment : Segment} {after : Volume Hash} {outcome : Except String Nat}
      (healthy : volume.journal.failed = false) (room : volume.journal.next ≠ i64Max)
      (active : volume.activeSegment = some (index, segment))
      (write : Writes checksums (frameOf env volume.journal offset data) index segment volume after
        outcome) :
      Appends checksums env offset data volume after outcome
  | rotates {after : Volume Hash} {outcome : Except String Nat}
      (healthy : volume.journal.failed = false) (room : volume.journal.next ≠ i64Max)
      (unclaimed : volume.Unclaimed)
      (write : Writes checksums (frameOf env volume.journal offset data)
        volume.journal.segments.length ⟨volume.nextName, volume.journal.generation, 0⟩
        volume.rotated after outcome) :
      Appends checksums env offset data volume after outcome

theorem append_appends (checksums : Checksums) (env : AppendEnv) (offset : Nat) (data : Bytes)
    (volume : Volume Hash) :
    Appends checksums env offset data volume (volume.append checksums env offset data).1
      (volume.append checksums env offset data).2 := by
  unfold append
  split
  · exact .refused _
  rename_i healthy
  have healthy : volume.journal.failed = false := by simpa using healthy
  split
  · exact .refused _
  rename_i room
  split
  · rename_i found roomy
    obtain ⟨index, segment⟩ := found
    refine .writes healthy room (show volume.activeSegment = some (index, segment) from ?_)
      (writeFrame_writes checksums env offset data ?_)
    all_goals
      simp only [Journal.roomFor, bind, Option.bind_eq_some_iff] at roomy
      obtain ⟨active, isActive, found, isSegment, fits⟩ := roomy
      split at fits
      · cases fits
      · obtain ⟨rfl, rfl⟩ := Prod.mk.inj (Option.some.inj fits)
        simp [activeSegment, isActive, isSegment]
  · have rotation := rotate_rotates env volume
    split
    · rename_i rotated failure rotates
      rw [rotates] at rotation
      cases rotation with
      | refused => exact .refused _
      | created _ fresh => exact .created _ healthy fresh
      | described _ unclaimed => exact .described _ healthy unclaimed
    · rename_i rotated rotates
      rw [rotates] at rotation
      cases rotation with
      | rotated unclaimed =>
          refine .rotates healthy room unclaimed
            (@writeFrame_writes _ checksums env offset data volume.rotated _ _ ?_)
          simp [activeSegment, Volume.rotated, described]

end Volume

/-! ### Rotation -/

section

variable {checksums : Checksums} {size loaded : Nat} {volume : Volume Hash} {history : History}

/-- Creating a file keeps every other one. -/
theorem Stored.update {files : SegmentName → Option File} {name : SegmentName} {created : Option File}
    {segment : SegmentLog} {file : File} {cut : Bytes}
    (stored : Stored checksums size files segment file cut) (fresh : files name = none) :
    Stored checksums size (Function.update files name created) segment file cut := by
  refine stored.congr (Function.update_of_ne (fun same => ?_) ..)
  rw [← same, stored.present] at fresh
  cases fresh

/-- The empty segment that a rotation creates. -/
def Volume.nextSegment (volume : Volume Hash) : SegmentLog := ⟨volume.nextName, []⟩

/-- A segment whose descriptor is durable, but which the memory does not have. -/
def History.describe (history : History) (segment : SegmentLog) : History where
  retired := history.retired
  log := history.log
  extra := [segment]

/-- One more segment. -/
def History.extend (history : History) (segment : SegmentLog) : History where
  retired := history.retired
  log := history.log ++ [segment]

theorem Volume.nextSegment_next (volume : Volume Hash) :
    volume.nextSegment.next = volume.journal.next := rfl

namespace Refines

variable (refines : Refines checksums size loaded volume history)

include refines

/-- A failed append may leave an orphan file. -/
theorem created (fresh : volume.store.files volume.nextName = none) :
    Refines checksums size loaded
      { volume.created with journal := volume.created.journal.fail } history := by
  obtain ⟨limited, memory, disk, lag, retired⟩ := refines.fail
  refine ⟨limited, memory, { disk with
    stored := fun segment member => ?_
    whole := fun healthy => by cases healthy
    owned := fun name present => ⟨?_, fun healthy => by cases healthy⟩ }, lag, retired⟩
  · obtain ⟨file, stored⟩ := disk.stored segment member
    exact ⟨file, stored.update fresh⟩
  · by_cases same : name = volume.nextName
    · rw [same]
      exact le_rfl
    · have old : (Function.update volume.store.files volume.nextName (some ⟨[], 0⟩) name).isSome :=
        present
      rw [Function.update_of_ne same] at old
      exact (disk.owned name old).1

/-- The new segment comes behind all others. -/
theorem precedes_nextSegment (fresh : volume.store.files volume.nextName = none) {segment : SegmentLog}
    (member : segment ∈ history.log) : Precedes segment volume.nextSegment := by
  obtain ⟨file, stored⟩ := refines.disk.stored segment (List.mem_append_left _ member)
  refine ⟨fun same => ?_, refines.memory.valid.current segment member,
    refines.memory.valid.bounded segment member⟩
  have present := stored.present
  rw [same] at present
  exact Option.some_ne_none file (present.symm.trans fresh)

/-- The rows behind the descriptor transaction. -/
theorem described_rows (unclaimed : volume.Unclaimed) :
    Rows volume.described.store.db
      (history.rows volume.store.db.cutoff ++ [volume.nextSegment]) := by
  have rows := refines.disk.rows
  refine ⟨?_, ?_, rows.generation, rows.counters.1, refines.memory.next.1⟩
  · rw [List.map_append, ← rows.rows]
    rfl
  · refine List.pairwise_append.mpr ⟨rows.ascending, List.pairwise_singleton .., ?_⟩
    intro segment member last isLast
    rw [List.mem_singleton.mp isLast]
    have row : segment.row ∈ volume.store.db.segments := rows.rows ▸ List.mem_map_of_mem member
    have starts := refines.disk.starts segment member
    have floor := refines.disk.floor
    have distinct := (unclaimed.rows segment.row row).2
    exact lt_of_le_of_ne (starts.trans floor) distinct

/-- The files behind the descriptor transaction. -/
theorem described_stored (healthy : volume.journal.failed = false)
    (fresh : volume.store.files volume.nextName = none) :
    ∀ segment ∈ history.log ++ [volume.nextSegment], ∃ file,
      Stored checksums size volume.described.store.files segment file [] := by
  intro segment member
  rcases List.mem_append.mp member with old | new
  · obtain ⟨file, stored⟩ := refines.disk.stored segment (List.mem_append_left _ old)
    rw [refines.disk.whole healthy segment old] at stored
    exact ⟨file, stored.update fresh⟩
  · rw [List.mem_singleton.mp new]
    exact ⟨⟨[], 0⟩, Function.update_self .., rfl, Or.inl rfl⟩

theorem described_owned (name : SegmentName)
    (present : (volume.described.store.files name).isSome) :
    name.generation ≤ volume.journal.generation ∧ (name = volume.nextName ∨
      (volume.store.files name).isSome) := by
  by_cases same : name = volume.nextName
  · rw [same]
    exact ⟨le_rfl, Or.inl rfl⟩
  · have old : (Function.update volume.store.files volume.nextName (some ⟨[], 0⟩) name).isSome := present
    rw [Function.update_of_ne same] at old
    exact ⟨(refines.disk.owned name old).1, Or.inr old⟩

/-- A failed append may leave a durable descriptor of an empty file. -/
theorem described (healthy : volume.journal.failed = false) (unclaimed : volume.Unclaimed) :
    Refines checksums size loaded
      { volume.described with journal := volume.described.journal.fail }
      (history.describe volume.nextSegment) := by
  have stored := refines.described_stored healthy unclaimed.file
  have rows : (history.describe volume.nextSegment).rows volume.store.db.cutoff =
      history.rows volume.store.db.cutoff ++ [volume.nextSegment] := by
    rw [refines.healthy_rows healthy]
    rfl
  have disk := refines.disk
  refine ⟨refines.limited, refines.fail.memory, ?_, refines.lag, refines.retired⟩
  refine {
    rows := rows ▸ refines.described_rows unclaimed
    stored := stored
    settled := settled_of_whole fun _ _ => rfl
    whole := fun impossible => by cases impossible
    extra := Or.inr ⟨rfl, refines.healthy_generation healthy, rfl, rfl⟩
    generation := Or.inl (refines.healthy_generation healthy)
    fits := disk.fits
    floor := le_rfl
    starts := fun segment member => ?_
    last := fun segment isLast _ => ?_
    sealedFrames := fun frame member _ => (refines.memory.valid.frame_mem member).2.2.2.2
    reached := Or.inl rfl
    captures := disk.captures
    owned := fun name present => ⟨(refines.described_owned name present).1, fun impossible => by
      cases impossible⟩ }
  · rcases List.mem_append.mp ((rows ▸ member :) : segment ∈ _ ++ [volume.nextSegment]) with old | new
    · exact (disk.starts segment old).trans disk.floor
    · rw [List.mem_singleton.mp new]
      exact le_rfl
  · have isLast : segment ∈ (history.rows volume.store.db.cutoff ++ [volume.nextSegment]).getLast? :=
      rows ▸ isLast
    rw [List.getLast?_concat, Option.mem_some_iff] at isLast
    rw [← isLast]
    rfl

/-- A rotation appends an empty segment. -/
theorem rotated (healthy : volume.journal.failed = false) (unclaimed : volume.Unclaimed) :
    Refines checksums size loaded volume.rotated (history.extend volume.nextSegment) := by
  have stored := refines.described_stored healthy unclaimed.file
  have disk := refines.disk
  have memory := refines.memory
  have generation := refines.healthy_generation healthy
  have live : volume.store.db.cutoff < volume.nextSegment.name.generation :=
    disk.rows.generation.trans_eq generation
  have rows : (history.extend volume.nextSegment).rows volume.store.db.cutoff =
      history.rows volume.store.db.cutoff ++ [volume.nextSegment] := by
    rw [refines.healthy_rows healthy, History.rows, History.extend, List.append_nil,
      List.filter_append, List.filter_cons_of_pos (by simpa using live), List.filter_nil]
  have frames : framesOf (history.log ++ [volume.nextSegment]) = framesOf history.log := by
    simp [framesOf, Volume.nextSegment]
  have valid : LogValid size loaded volume.journal.generation volume.journal.next
      (history.log ++ [volume.nextSegment]) := by
    have old := memory.valid
    refine ⟨?_, ?_, ?_, ?_, ?_, ?_⟩
    · exact List.forall_mem_append.mpr ⟨old.consecutive, by simp [Volume.nextSegment, Consecutive]⟩
    · exact List.forall_mem_append.mpr ⟨old.live, by simpa using refines.lag.trans_lt live⟩
    · exact List.forall_mem_append.mpr ⟨old.current, by simp [Volume.nextSegment, Volume.nextName]⟩
    · exact List.forall_mem_append.mpr ⟨old.positive, by
        simpa [Volume.nextSegment, Volume.nextName] using memory.next.1⟩
    · exact List.pairwise_append.mpr ⟨old.ordered, List.pairwise_singleton .., fun segment member last
        isLast => List.mem_singleton.mp isLast ▸ refines.precedes_nextSegment unclaimed.file member⟩
    · exact List.forall_mem_append.mpr ⟨old.bounded, by simp [Volume.nextSegment_next]⟩
  have records : recordsOf checksums (history.log ++ [volume.nextSegment]) =
      recordsOf checksums history.log := by
    simp [recordsOf, Volume.nextSegment, SegmentLog.records, locate]
  refine ⟨refines.limited, ?_, ?_, refines.lag, refines.retired⟩
  · refine ⟨valid, ?_, records ▸ memory.represents, ?_, fun index isActive => ?_, memory.generation,
      memory.next⟩
    · rw [History.extend, List.map_append, ← memory.segments]
      rfl
    · rw [History.extend, List.map_append, List.map_append, List.sum_append, ← memory.journalBytes]
      rfl
    · refine ⟨history.log, volume.nextSegment, rfl, ?_, rfl, volume.nextSegment_next⟩
      have index : index = volume.journal.segments.length := (Option.some.inj isActive).symm
      rw [index, memory.segments, List.length_map]
  · refine {
      rows := rows ▸ refines.described_rows unclaimed
      stored := fun segment member => stored segment (by simpa [History.extend] using member)
      settled := settled_of_whole fun _ _ => rfl
      whole := fun _ _ _ => rfl
      extra := Or.inl rfl
      generation := Or.inl generation
      fits := disk.fits
      floor := le_rfl
      starts := fun segment member => ?_
      last := fun segment isLast _ => ?_
      sealedFrames := fun frame member _ => (memory.valid.frame_mem (frames ▸ member)).2.2.2.2
      reached := Or.inl rfl
      captures := disk.captures
      owned := fun name present => ?_ }
    · rcases List.mem_append.mp ((rows ▸ member :) : segment ∈ _ ++ [volume.nextSegment]) with old | new
      · exact (disk.starts segment old).trans disk.floor
      · rw [List.mem_singleton.mp new]
        exact le_rfl
    · have isLast : segment ∈ (history.rows volume.store.db.cutoff ++ [volume.nextSegment]).getLast? :=
        rows ▸ isLast
      rw [List.getLast?_concat, Option.mem_some_iff] at isLast
      rw [← isLast]
      rfl
    · obtain ⟨low, named⟩ := refines.described_owned name present
      refine ⟨low, fun _ current => ?_⟩
      rcases named with new | old
      · exact ⟨volume.nextSegment, List.mem_append_right _ List.mem_cons_self, new.symm⟩
      · obtain ⟨segment, member, isName⟩ := (disk.owned name old).2 healthy current
        exact ⟨segment, List.mem_append_left _ member, isName⟩

end Refines

end

end Cairn.Storage.Lazy

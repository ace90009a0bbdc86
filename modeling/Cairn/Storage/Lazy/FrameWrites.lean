import Cairn.Storage.Lazy.Appending

/-!
Owns the frame write of an `append`: a complete one adds its frame to the
history, an interrupted one leaves a cut behind the frames of a failed journal.
With the rotation this says what every append does to the history.
-/

set_option autoImplicit false

namespace Cairn.Storage.Lazy

universe u

variable {Hash : Type u} {checksums : Checksums} {size loaded : Nat} {volume : Volume Hash}
  {history : History}

/-- One more frame in a segment. -/
def SegmentLog.grow (segment : SegmentLog) (frame : Frame) : SegmentLog where
  name := segment.name
  frames := segment.frames ++ [frame]

/-- One more frame in the last segment. -/
def History.grow (history : History) (earlier : List SegmentLog) (last : SegmentLog) (frame : Frame) :
    History where
  retired := history.retired
  log := earlier ++ [last.grow frame]

/-- The remains of a frame behind the last segment. -/
def History.tear (history : History) (name : SegmentName) (cut : Bytes) : History where
  retired := history.retired
  log := history.log
  cuts := Function.update (fun _ => []) name cut

/-- The active segment is the last of the log. -/
structure ActiveLast (journal : Journal) (log earlier : List SegmentLog) (last : SegmentLog) : Prop where
  log : log = earlier ++ [last]
  generation : last.name.generation = journal.generation
  next : last.next = journal.next

/-- The frame an append writes next. -/
structure NextFrame (size : Nat) (journal : Journal) (frame : Frame) : Prop where
  valid : frame.Valid size
  sequence : frame.sequence = journal.next
  generation : frame.generation = journal.generation

theorem Refines.activeLast (refines : Refines checksums size loaded volume history) {index : Nat}
    {segment : Segment} (active : volume.activeSegment = some (index, segment)) :
    ∃ earlier last, ActiveLast volume.journal history.log earlier last ∧ index = earlier.length ∧
      segment = last.entry := by
  simp only [Volume.activeSegment, Option.bind_eq_some_iff, Option.map_eq_some_iff] at active
  obtain ⟨place, isActive, found, isSegment, same⟩ := active
  obtain ⟨rfl, rfl⟩ := Prod.mk.inj same
  obtain ⟨earlier, last, log, rfl, generation, next⟩ := refines.memory.active place isActive
  refine ⟨earlier, last, ⟨log, generation, next⟩, rfl, ?_⟩
  rw [refines.memory.segments, log] at isSegment
  simpa [eq_comm] using isSegment

namespace ActiveLast

variable {journal : Journal} {log earlier : List SegmentLog} {last : SegmentLog} {frame : Frame}

theorem framesOf_grow (active : ActiveLast journal log earlier last) :
    framesOf (earlier ++ [last.grow frame]) = framesOf log ++ [frame] := by
  simp [framesOf, SegmentLog.grow, active.log]

theorem recordsOf_grow (active : ActiveLast journal log earlier last) :
    recordsOf checksums (earlier ++ [last.grow frame]) = recordsOf checksums log ++
      [Volume.recordOf checksums last.name (framesLength last.frames) frame] := by
  simp [recordsOf, SegmentLog.grow, SegmentLog.records, active.log, locate_append, locate]

theorem member (active : ActiveLast journal log earlier last) : last ∈ log := by
  simp [active.log]

theorem earlier_member (active : ActiveLast journal log earlier last) {segment : SegmentLog}
    (isEarlier : segment ∈ earlier) : segment ∈ log := by
  simp [active.log, isEarlier]

theorem names (active : ActiveLast journal log earlier last) :
    (earlier ++ [last.grow frame]).map SegmentLog.name = log.map SegmentLog.name := by
  simp [SegmentLog.grow, active.log]

theorem rowsOf (active : ActiveLast journal log earlier last) :
    (earlier ++ [last.grow frame]).map SegmentLog.row = log.map SegmentLog.row := by
  simp [SegmentLog.grow, SegmentLog.row, active.log]

theorem grow_valid (active : ActiveLast journal log earlier last)
    (valid : LogValid size loaded journal.generation journal.next log)
    (next : NextFrame size journal frame) :
    LogValid size loaded journal.generation (journal.next + 1) (earlier ++ [last.grow frame]) := by
  have isMember := active.member
  have isNext := active.next
  rw [SegmentLog.next] at isNext
  have ordered := valid.ordered
  rw [active.log, List.pairwise_append] at ordered
  refine ⟨?_, ?_, ?_, ?_, ?_, ?_⟩
  · refine List.forall_mem_append.mpr ⟨fun segment member =>
      valid.consecutive segment (active.earlier_member member), fun segment isLast => ?_⟩
    rw [List.mem_singleton.mp isLast]
    refine Consecutive.append.mpr ⟨valid.consecutive last isMember, ?_, ?_, next.valid, trivial⟩
    · rw [next.sequence, ← isNext]
      rfl
    · exact next.generation.trans active.generation.symm
  · exact List.forall_mem_append.mpr ⟨fun segment member =>
      valid.live segment (active.earlier_member member), by
        simpa [SegmentLog.grow] using valid.live last isMember⟩
  · exact List.forall_mem_append.mpr ⟨fun segment member =>
      valid.current segment (active.earlier_member member), by
        simpa [SegmentLog.grow] using valid.current last isMember⟩
  · exact List.forall_mem_append.mpr ⟨fun segment member =>
      valid.positive segment (active.earlier_member member), by
        simpa [SegmentLog.grow] using valid.positive last isMember⟩
  · refine List.pairwise_append.mpr ⟨ordered.1, List.pairwise_singleton .., fun segment member
      grown isGrown => ?_⟩
    have precedes := ordered.2.2 segment member last List.mem_cons_self
    rw [List.mem_singleton.mp isGrown]
    exact ⟨precedes.distinct, precedes.generation, precedes.sequence⟩
  · refine List.forall_mem_append.mpr ⟨fun segment member => ?_, fun segment isLast => ?_⟩
    · have := valid.bounded segment (active.earlier_member member)
      omega
    · rw [List.mem_singleton.mp isLast]
      simp only [SegmentLog.next, SegmentLog.grow, List.length_append, List.length_singleton]
      omega

end ActiveLast

/-! ### Bytes of a frame write -/

/-- Writing behind all bytes of a file. -/
theorem File.writeAt_end {file : File} {position : Nat} (isEnd : file.bytes.length = position)
    (data : Bytes) : (file.writeAt position data).bytes = file.bytes ++ data := by
  simp [File.writeAt, ← isEnd]

theorem modifyFile_self {store : Store Hash} {name : SegmentName} {change : File → File} {file : File}
    (isFile : store.files name = some file) :
    (store.modifyFile name change).files name = some (change file) := by
  simp [Store.modifyFile, isFile]

theorem modifyFile_of_ne {store : Store Hash} {name other : SegmentName} {change : File → File}
    (distinct : other ≠ name) : (store.modifyFile name change).files other = store.files other := by
  simp [Store.modifyFile, distinct]

theorem modifyFile_isSome {store : Store Hash} {name other : SegmentName} {change : File → File} :
    ((store.modifyFile name change).files other).isSome = (store.files other).isSome := by
  by_cases same : other = name
  · subst other
    simp [Store.modifyFile]
  · rw [modifyFile_of_ne same]

namespace Refines

variable (refines : Refines checksums size loaded volume history) {earlier : List SegmentLog}
  {last : SegmentLog} {frame : Frame}

include refines

theorem earlier_distinct (active : ActiveLast volume.journal history.log earlier last)
    {segment : SegmentLog} (member : segment ∈ earlier) : segment.name ≠ last.name := by
  have ordered := refines.memory.valid.ordered
  rw [active.log, List.pairwise_append] at ordered
  exact (ordered.2.2 segment member last List.mem_cons_self).distinct

/-- The rows of a healthy volume end with its active segment. -/
theorem active_rows (healthy : volume.journal.failed = false)
    (active : ActiveLast volume.journal history.log earlier last) :
    history.rows volume.store.db.cutoff =
      earlier.filter (fun segment => volume.store.db.cutoff < segment.name.generation) ++ [last] := by
  have live : volume.store.db.cutoff < last.name.generation := by
    rw [active.generation, ← refines.healthy_generation healthy]
    exact refines.disk.rows.generation
  rw [refines.healthy_rows healthy, active.log, List.filter_append,
    List.filter_cons_of_pos (by simpa using live), List.filter_nil]

theorem grow_rows (healthy : volume.journal.failed = false)
    (active : ActiveLast volume.journal history.log earlier last) :
    (history.grow earlier last frame).rows volume.store.db.cutoff =
      earlier.filter (fun segment => volume.store.db.cutoff < segment.name.generation) ++
        [last.grow frame] := by
  have live : volume.store.db.cutoff < (last.grow frame).name.generation := by
    rw [SegmentLog.grow, active.generation, ← refines.healthy_generation healthy]
    exact refines.disk.rows.generation
  rw [History.rows, History.grow, List.append_nil, List.filter_append,
    List.filter_cons_of_pos (by simpa using live), List.filter_nil]

/-- The file of the active segment ends with its frames. -/
theorem active_file (healthy : volume.journal.failed = false)
    (active : ActiveLast volume.journal history.log earlier last) :
    ∃ file, volume.store.files last.name = some file ∧
      file.bytes = encodeAll checksums last.frames := by
  obtain ⟨file, stored⟩ := refines.disk.stored last (List.mem_append_left _ active.member)
  rw [refines.disk.whole healthy last active.member] at stored
  exact ⟨file, stored.present, by simpa using stored.bytes⟩

/-- What a write behind the active segment stores. -/
theorem stored_write (healthy : volume.journal.failed = false)
    (active : ActiveLast volume.journal history.log earlier last) (data : Bytes) :
    (∀ segment ∈ earlier, ∃ file, Stored checksums size (volume.store.modifyFile last.name fun file =>
        file.writeAt (framesLength last.frames) data).files segment file []) ∧
      ∃ file, (volume.store.modifyFile last.name fun file =>
          file.writeAt (framesLength last.frames) data).files last.name = some file ∧
        file.bytes = encodeAll checksums last.frames ++ data := by
  refine ⟨fun segment member => ?_, ?_⟩
  · have inLog := active.earlier_member member
    obtain ⟨file, stored⟩ := refines.disk.stored segment (List.mem_append_left _ inLog)
    rw [refines.disk.whole healthy segment inLog] at stored
    exact ⟨file, stored.congr (modifyFile_of_ne (refines.earlier_distinct active member))⟩
  · obtain ⟨file, present, bytes⟩ := refines.active_file healthy active
    refine ⟨_, modifyFile_self present, ?_⟩
    rw [File.writeAt_end (by rw [bytes, encodeAll_length]), bytes]

/-- A complete frame write. -/
theorem written (healthy : volume.journal.failed = false)
    (active : ActiveLast volume.journal history.log earlier last)
    (next : NextFrame size volume.journal frame) (room : volume.journal.next < i64Max) :
    Refines checksums size loaded (volume.written checksums frame earlier.length last.entry)
      (history.grow earlier last frame) := by
  have memory := refines.memory
  have disk := refines.disk
  have oldRows := refines.active_rows healthy active
  have rows : (history.grow earlier last frame).rows volume.store.db.cutoff = _ :=
    refines.grow_rows healthy active
  have generation := refines.healthy_generation healthy
  obtain ⟨others, file, present, bytes⟩ :=
    refines.stored_write healthy active (frame.encode checksums)
  have valid := active.grow_valid memory.valid next
  have records : recordsOf checksums (earlier ++ [last.grow frame]) = _ := active.recordsOf_grow
  have frames : framesOf (earlier ++ [last.grow frame]) = _ := active.framesOf_grow
  have grown : ∀ segment ∈ (history.grow earlier last frame).rows volume.store.db.cutoff,
      ∃ old ∈ history.rows volume.store.db.cutoff, old.name = segment.name := by
    rw [rows, oldRows]
    refine List.forall_mem_append.mpr ⟨fun segment member =>
      ⟨segment, List.mem_append_left _ member, rfl⟩, fun segment isLast => ?_⟩
    rw [List.mem_singleton.mp isLast]
    exact ⟨last, List.mem_append_right _ List.mem_cons_self, rfl⟩
  refine ⟨refines.limited, ?_, ?_, refines.lag, refines.retired⟩
  · refine ⟨valid, ?_, ?_, ?_, fun index isActive => ?_, memory.generation, ?_⟩
    · show volume.journal.segments.set earlier.length _ = _
      rw [memory.segments, active.log]
      simp [History.grow, SegmentLog.entry, SegmentLog.grow, framesLength_append]
    · rw [History.grow, records]
      exact memory.represents.insert (records ▸ valid.ascending)
    · show volume.journal.journalBytes + frame.length = _
      rw [memory.journalBytes, active.log]
      simp [History.grow, SegmentLog.entry, SegmentLog.grow, framesLength_append]
      omega
    · obtain ⟨before, final, log, rfl, -, -⟩ := memory.active index isActive
      obtain ⟨rfl, -⟩ := List.append_inj' (active.log.symm.trans log) rfl
      refine ⟨earlier, last.grow frame, rfl, rfl, active.generation, ?_⟩
      have := active.next
      simp only [SegmentLog.next, SegmentLog.grow, List.length_append, List.length_singleton] at this ⊢
      show _ = volume.journal.next + 1
      omega
    · show 1 ≤ volume.journal.next + 1 ∧ volume.journal.next + 1 ≤ i64Max
      omega
  · refine {
      rows := ⟨?_, ?_, disk.rows.generation, disk.rows.counters⟩
      stored := ?_
      settled := settled_of_whole fun _ _ => rfl
      whole := fun _ _ _ => rfl
      extra := Or.inl rfl
      generation := Or.inl generation
      fits := disk.fits
      floor := disk.floor.trans (Nat.le_succ _)
      starts := fun segment member => ?_
      last := fun segment isLast current => ?_
      sealedFrames := fun other member old => ?_
      reached := Or.inr ⟨frame, ?_, ?_⟩
      captures := disk.captures
      owned := fun name present => ?_ }
    · show volume.store.db.segments = ((history.grow earlier last frame).rows volume.store.db.cutoff).map _
      rw [disk.rows.rows, rows, oldRows]
      simp [SegmentLog.grow, SegmentLog.row]
    · show ((history.grow earlier last frame).rows volume.store.db.cutoff).Pairwise _
      have ascending := disk.rows.ascending
      rw [oldRows, List.pairwise_append] at ascending
      rw [rows]
      refine List.pairwise_append.mpr ⟨ascending.1, List.pairwise_singleton .., fun segment member
        other isLast => ?_⟩
      rw [List.mem_singleton.mp isLast]
      exact ascending.2.2 segment member last List.mem_cons_self
    · simp only [History.grow, List.append_nil]
      refine List.forall_mem_append.mpr ⟨others, fun segment isLast => ?_⟩
      rw [List.mem_singleton.mp isLast]
      refine ⟨file, present, ?_, Or.inl rfl⟩
      simp [SegmentLog.grow, bytes, encodeAll]
    · obtain ⟨old, oldMem, same⟩ := grown segment member
      exact same ▸ disk.starts old oldMem
    · have isLast : segment ∈ ((history.grow earlier last frame).rows volume.store.db.cutoff).getLast? :=
        isLast
      rw [rows, List.getLast?_concat, Option.mem_some_iff] at isLast
      subst segment
      exact disk.last last (by rw [oldRows, List.getLast?_concat]; rfl) current
    · rw [History.grow, frames] at member
      rcases List.mem_append.mp member with old' | new
      · exact disk.sealedFrames other old' old
      · have current := next.generation
        rw [List.mem_singleton.mp new] at old
        exact absurd (current.trans generation.symm) old.ne
    · rw [History.grow, frames]
      exact List.mem_append_right _ List.mem_cons_self
    · show frame.sequence + 1 = volume.journal.next + 1
      rw [next.sequence]
    · obtain ⟨low, owner⟩ := disk.owned name (modifyFile_isSome ▸ present)
      refine ⟨low, fun _ current => ?_⟩
      obtain ⟨segment, member, rfl⟩ := owner healthy current
      have named : segment.name ∈ (earlier ++ [last.grow frame]).map SegmentLog.name :=
        active.names ▸ List.mem_map_of_mem member
      exact List.mem_map.mp named

/-- An interrupted frame write. -/
theorem torn (healthy : volume.journal.failed = false)
    (active : ActiveLast volume.journal history.log earlier last)
    (next : NextFrame size volume.journal frame) {count : Nat} (short : count < frame.length) :
    Refines checksums size loaded (volume.torn checksums frame last.entry count)
      (history.tear last.name ((frame.encode checksums).take count)) := by
  have disk := refines.disk
  have cut : Cut checksums size last.name.generation last.next ((frame.encode checksums).take count) :=
    Or.inr ⟨frame, count, next.valid, next.sequence.trans active.next.symm,
      next.generation.trans active.generation.symm, short, rfl⟩
  obtain ⟨others, file, present, bytes⟩ :=
    refines.stored_write healthy active ((frame.encode checksums).take count)
  have rows : (history.tear last.name ((frame.encode checksums).take count)).rows
      volume.store.db.cutoff = history.rows volume.store.db.cutoff := by
    rw [refines.healthy_rows healthy, History.rows, History.tear, List.append_nil]
  have uncut : ∀ segment ∈ earlier, (history.tear last.name ((frame.encode checksums).take count)).cuts
      segment.name = [] := fun segment member => by
    simp only [History.tear]
    rw [Function.update_of_ne (refines.earlier_distinct active member)]
  refine ⟨refines.limited, refines.fail.memory, ?_, refines.lag, refines.retired⟩
  refine {
    rows := rows ▸ disk.rows
    stored := ?_
    settled := ?_
    whole := fun impossible => by cases impossible
    extra := Or.inl rfl
    generation := Or.inl (refines.healthy_generation healthy)
    fits := disk.fits
    floor := disk.floor
    starts := rows ▸ disk.starts
    last := rows ▸ disk.last
    sealedFrames := disk.sealedFrames
    reached := disk.reached
    captures := disk.captures
    owned := fun name present =>
      ⟨(disk.owned name (modifyFile_isSome ▸ present)).1, fun impossible => by cases impossible⟩ }
  · simp only [History.tear, List.append_nil, active.log]
    refine List.forall_mem_append.mpr ⟨fun segment member => ?_, fun segment isLast => ?_⟩
    · rw [Function.update_of_ne (refines.earlier_distinct active member)]
      exact others segment member
    · rw [List.mem_singleton.mp isLast, Function.update_self]
      exact ⟨file, present, bytes, cut⟩
  · show Settled volume.store.db.generation _ ((history.tear _ _).rows volume.store.db.cutoff)
    rw [rows, refines.active_rows healthy active]
    exact settled_concat (fun segment member => uncut segment (List.mem_of_mem_filter member))
      (active.generation.trans (refines.healthy_generation healthy).symm)

end Refines

/-! ### `append` -/

/-- An append leaves the generations and what is known of them. -/
structure Volume.SameGenerations (before after : Volume Hash) : Prop where
  manifest : after.store.db.manifest = before.store.db.manifest
  generation : after.store.db.generation = before.store.db.generation
  captures : after.store.db.captures = before.store.db.captures
  published : after.store.db.published = before.store.db.published
  completed : after.store.db.completed = before.store.db.completed
  current : after.journal.generation = before.journal.generation

theorem Volume.SameGenerations.refl (volume : Volume Hash) : volume.SameGenerations volume :=
  ⟨rfl, rfl, rfl, rfl, rfl, rfl⟩

theorem Volume.SameGenerations.trans {first second third : Volume Hash}
    (before : first.SameGenerations second) (after : second.SameGenerations third) :
    first.SameGenerations third :=
  ⟨after.manifest.trans before.manifest, after.generation.trans before.generation,
    after.captures.trans before.captures, after.published.trans before.published,
    after.completed.trans before.completed, after.current.trans before.current⟩

/-- The checks that a write passed. -/
structure Accepted (size offset : Nat) (data : Bytes) : Prop where
  nonempty : data ≠ []
  bounded : data.length ≤ maxIo
  inside : offset + data.length ≤ size

theorem frameOf_next {offset : Nat} {data : Bytes} (env : AppendEnv)
    (accepted : Accepted size offset data) {journal : Journal} (room : journal.next < i64Max)
    (generation : journal.generation ≤ i64Max) :
    NextFrame size journal (Volume.frameOf env journal offset data) :=
  ⟨⟨room, generation, accepted.nonempty, accepted.bounded, accepted.inside, Nat.min_le_right ..⟩,
    rfl, rfl⟩

/-- What an append did to the history of a volume. -/
inductive Appended (checksums : Checksums) (size loaded : Nat) (volume : Volume Hash)
    (history : History) (frame : Frame) (after : Volume Hash) : Except String Nat → Prop
  | failed {failure : String} (later : History)
      (refines : Refines checksums size loaded { after with journal := after.journal.fail } later)
      (frames : later.frames = history.frames) :
      Appended checksums size loaded volume history frame after (.error failure)
  | appended (later : History) (refines : Refines checksums size loaded after later)
      (frames : later.frames = history.frames ++ [frame])
      (healthy : after.journal.failed = false)
      (next : after.journal.next = volume.journal.next + 1) :
      Appended checksums size loaded volume history frame after (.ok volume.journal.next)

theorem Refines.writes (refines : Refines checksums size loaded volume history)
    (healthy : volume.journal.failed = false) {earlier : List SegmentLog} {last : SegmentLog}
    (active : ActiveLast volume.journal history.log earlier last) {frame : Frame}
    (next : NextFrame size volume.journal frame) {after : Volume Hash} {outcome : Except String Nat}
    (writes : Volume.Writes checksums frame earlier.length last.entry volume after outcome) :
    Appended checksums size loaded volume history frame after outcome ∧
      volume.SameGenerations after := by
  have room := next.sequence ▸ next.valid.sequence
  cases writes with
  | torn failure count short =>
      have torn := refines.torn healthy active next short
      exact ⟨.failed _ torn rfl, rfl, rfl, rfl, rfl, rfl, rfl⟩
  | written =>
      have written := refines.written healthy active next room
      refine ⟨.appended _ written ?_ healthy rfl, rfl, rfl, rfl, rfl, rfl, rfl⟩
      rw [History.frames, History.frames, History.grow, active.framesOf_grow, List.append_assoc]

/-- What an append does: nothing visible when it fails, one more frame when it succeeds. -/
theorem Refines.append (refines : Refines checksums size loaded volume history) (env : AppendEnv)
    {offset : Nat} {data : Bytes} (accepted : Accepted size offset data) :
    Appended checksums size loaded volume history (Volume.frameOf env volume.journal offset data)
        (volume.append checksums env offset data).1 (volume.append checksums env offset data).2 ∧
      volume.SameGenerations (volume.append checksums env offset data).1 := by
  have appends := Volume.append_appends checksums env offset data volume
  have generation := refines.memory.generation.2
  have bound := refines.memory.next.2
  generalize volume.append checksums env offset data = result at appends
  obtain ⟨after, outcome⟩ := result
  cases appends with
  | refused failure => exact ⟨.failed history refines.fail rfl, .refl _⟩
  | created failure healthy fresh =>
      exact ⟨.failed history (refines.created fresh) rfl, rfl, rfl, rfl, rfl, rfl, rfl⟩
  | described failure healthy unclaimed =>
      exact ⟨.failed _ (refines.described healthy unclaimed) rfl, rfl, rfl, rfl, rfl, rfl, rfl⟩
  | writes healthy room isActive writes =>
      obtain ⟨earlier, last, active, rfl, rfl⟩ := refines.activeLast isActive
      exact refines.writes healthy active
        (frameOf_next env accepted (lt_of_le_of_ne bound room) generation) writes
  | rotates healthy room unclaimed writes =>
      have rotated := refines.rotated healthy unclaimed
      have active : ActiveLast volume.rotated.journal (history.extend volume.nextSegment).log
          history.log volume.nextSegment := ⟨rfl, rfl, rfl⟩
      have next := frameOf_next env accepted (lt_of_le_of_ne bound room) generation
      have writes : Volume.Writes checksums (Volume.frameOf env volume.journal offset data)
          history.log.length volume.nextSegment.entry volume.rotated after outcome := by
        rw [refines.memory.segments, List.length_map] at writes
        exact writes
      obtain ⟨appended, same⟩ := rotated.writes healthy active ⟨next.valid, next.sequence, next.generation⟩ writes
      have frames : (history.extend volume.nextSegment).frames = history.frames := by
        simp [History.frames, History.extend, framesOf, Volume.nextSegment]
      refine ⟨?_, same.manifest, same.generation, same.captures, same.published, same.completed,
        same.current⟩
      cases appended with
      | failed later laterRefines laterFrames => exact .failed later laterRefines (laterFrames.trans frames)
      | appended later laterRefines laterFrames laterHealthy laterNext =>
          exact .appended later laterRefines (frames ▸ laterFrames) laterHealthy laterNext

end Cairn.Storage.Lazy

import Cairn.Library.Overlay
import Cairn.Storage.Lazy.Scan

/-!
Owns the abstract journal: the live segments and the frames appended to each,
in append order. It says which records index them and what their files hold.

Does not own how the operations change it.
-/

set_option autoImplicit false

namespace Cairn.Storage.Lazy

open Cairn.Library.Overlay

universe u

/-- A segment and the frames appended to it. -/
structure SegmentLog where
  name : SegmentName
  frames : List Frame
deriving DecidableEq

namespace SegmentLog

/-- The first sequence behind the segment. -/
def next (segment : SegmentLog) : Nat := segment.name.first + segment.frames.length

/-- Its row of `segments`. -/
def row (segment : SegmentLog) : Descriptor :=
  ⟨segment.name, segment.name.generation, segment.name.first⟩

/-- Its entry in `Journal::segments`. -/
def entry (segment : SegmentLog) : Segment :=
  ⟨segment.name, segment.name.generation, framesLength segment.frames⟩

/-- The records of its frames. -/
def records (checksums : Checksums) (segment : SegmentLog) : List Record :=
  locate checksums segment.name 0 segment.frames

/-- Its file, when nothing but its frames was written and all of it is synced. -/
def file (checksums : Checksums) (segment : SegmentLog) : File :=
  ⟨encodeAll checksums segment.frames, framesLength segment.frames⟩

end SegmentLog

/-- One segment was filled before another was created. -/
structure Precedes (first second : SegmentLog) : Prop where
  distinct : first.name ≠ second.name
  generation : first.name.generation ≤ second.name.generation
  sequence : first.next ≤ second.name.first

/-- What the live segments of a journal satisfy. -/
structure LogValid (size cutoff generation next : Nat) (log : List SegmentLog) : Prop where
  consecutive : ∀ segment ∈ log,
    Consecutive size segment.name.generation segment.name.first segment.frames
  live : ∀ segment ∈ log, cutoff < segment.name.generation
  current : ∀ segment ∈ log, segment.name.generation ≤ generation
  positive : ∀ segment ∈ log, 1 ≤ segment.name.first
  ordered : log.Pairwise Precedes
  bounded : ∀ segment ∈ log, segment.next ≤ next

/-- All frames of a journal, in append order. -/
def framesOf (log : List SegmentLog) : List Frame := log.flatMap SegmentLog.frames

/-- All records of a journal, in append order. -/
def recordsOf (checksums : Checksums) (log : List SegmentLog) : List Record :=
  log.flatMap (SegmentLog.records checksums)

/-- The patch a frame writes. -/
def Frame.patch (frame : Frame) : Patch UInt8 := ⟨frame.start, frame.data⟩

/-! ### Records of frames -/

section

variable {checksums : Checksums} {name : SegmentName} {position : Nat} {frames : List Frame}

theorem locate_append (first second : List Frame) :
    locate checksums name position (first ++ second) =
      locate checksums name position first ++
        locate checksums name (position + framesLength first) second := by
  induction first generalizing position with
  | nil => simp [locate]
  | cons frame first inductionHypothesis =>
      simp only [List.cons_append, locate, inductionHypothesis, framesLength_cons]
      rw [Nat.add_assoc]

theorem locate_map {Target : Type} (ofRecord : Record → Target) (ofFrame : Frame → Target)
    (same : ∀ frame ∈ frames, ∀ place, ofRecord (Volume.recordOf checksums name place frame) =
      ofFrame frame) :
    (locate checksums name position frames).map ofRecord = frames.map ofFrame := by
  induction frames generalizing position with
  | nil => rfl
  | cons frame frames inductionHypothesis =>
      obtain ⟨head, rest⟩ := List.forall_mem_cons.mp same
      rw [locate, List.map_cons, List.map_cons, head, inductionHypothesis rest]

theorem recordsOf_map {Target : Type} {log : List SegmentLog} (ofRecord : Record → Target)
    (ofFrame : Frame → Target)
    (same : ∀ name place frame, ofRecord (Volume.recordOf checksums name place frame) = ofFrame frame) :
    (recordsOf checksums log).map ofRecord = (framesOf log).map ofFrame := by
  rw [recordsOf, framesOf, List.map_flatMap, List.map_flatMap]
  exact congrArg (log.flatMap ·) (funext fun segment =>
    locate_map ofRecord ofFrame fun frame _ place => same segment.name place frame)

/-- A located record is that of a frame behind the frames before it. -/
theorem mem_locate {record : Record} :
    record ∈ locate checksums name position frames ↔ ∃ before frame after,
      frames = before ++ frame :: after ∧
        record = Volume.recordOf checksums name (position + framesLength before) frame := by
  induction frames generalizing position with
  | nil => simp [locate]
  | cons head rest inductionHypothesis =>
      rw [locate, List.mem_cons, inductionHypothesis]
      constructor
      · rintro (rfl | ⟨before, frame, after, rfl, rfl⟩)
        · exact ⟨[], head, rest, rfl, by simp⟩
        · exact ⟨head :: before, frame, after, rfl, by rw [framesLength_cons, Nat.add_assoc]⟩
      · rintro ⟨before, frame, after, split, rfl⟩
        cases before with
        | nil =>
            obtain ⟨rfl, rfl⟩ := List.cons.inj split
            exact Or.inl (by simp)
        | cons first before =>
            obtain ⟨rfl, rfl⟩ := List.cons.inj split
            exact Or.inr ⟨before, frame, after, rfl, by rw [framesLength_cons, Nat.add_assoc]⟩

theorem mem_locate_frame {record : Record} (member : record ∈ locate checksums name position frames) :
    ∃ frame ∈ frames, record.sequence = frame.sequence ∧ record.generation = frame.generation := by
  obtain ⟨before, frame, after, rfl, rfl⟩ := mem_locate.mp member
  exact ⟨frame, by simp, rfl, rfl⟩

/-- Reading a record back yields the data of its frame. -/
theorem read_recordOf {Hash : Type u} {store : Store Hash} {file : File} {frame : Frame}
    {before rest : Bytes} (isFile : store.files name = some file)
    (bytes : file.bytes = before ++ frame.encode checksums ++ rest)
    (start : before.length = position) :
    (Volume.recordOf checksums name position frame).read checksums store = .ok frame.data := by
  let record := Volume.recordOf checksums name position frame
  have located : store.files record.file = some file := isFile
  have header : file.readExact record.position headerBytes = .ok (frame.header checksums) := by
    show file.readExact position headerBytes = _
    have long : position + headerBytes ≤ file.bytes.length := by
      simp [bytes, Frame.length, start]
      omega
    rw [File.readExact, if_pos long, bytes, List.append_assoc, List.drop_left' start, Frame.encode,
      List.append_assoc, List.take_left' (by simp)]
  have data : file.readExact (record.position + headerBytes) (record.stop - record.start) =
      .ok frame.data := by
    have count : record.stop - record.start = frame.data.length := Nat.add_sub_cancel_left ..
    show file.readExact (position + headerBytes) (record.stop - record.start) = _
    have long : position + headerBytes + frame.data.length ≤ file.bytes.length := by
      simp [bytes, Frame.length, start]
      omega
    have behind : file.bytes = (before ++ frame.header checksums) ++ (frame.data ++ rest) := by
      simp [bytes, Frame.encode]
    rw [File.readExact, count, if_pos long, behind, List.drop_left' (by simp [start]),
      List.take_left' rfl]
  have accepted : ¬ (frame.header checksums ≠ record.header ∨
      ¬ headerMatches checksums (frame.header checksums) ∨
      ¬ payloadMatches checksums (frame.header checksums) frame.data) := by
    simp [record, Volume.recordOf, Frame.header_headerMatches, Frame.header_payloadMatches]
  show record.read checksums store = _
  simp only [Record.read, located, header, data, bind, Except.bind, if_neg accepted]
  rfl

end

/-! ### Frames of a log -/

theorem Consecutive.pairwise {size generation first : Nat} {frames : List Frame}
    (consecutive : Consecutive size generation first frames) :
    frames.Pairwise fun before after =>
      before.sequence < after.sequence ∧ before.generation ≤ after.generation := by
  induction frames generalizing first with
  | nil => exact List.Pairwise.nil
  | cons frame frames inductionHypothesis =>
      obtain ⟨rfl, rfl, -, consecutive⟩ := consecutive
      refine List.Pairwise.cons (fun later member => ?_) (inductionHypothesis consecutive)
      obtain ⟨generation, -, after, -⟩ := consecutive.mem member
      exact ⟨after, generation.ge⟩

section

variable {checksums : Checksums} {size cutoff generation next : Nat} {log : List SegmentLog}

theorem mem_framesOf {frame : Frame} :
    frame ∈ framesOf log ↔ ∃ segment ∈ log, frame ∈ segment.frames := by
  simp [framesOf]

/-- What is listed per segment can be filtered by the generation of the segment. -/
theorem filter_flatMap_generation {Item : Type} {items : SegmentLog → List Item}
    {generationOf : Item → Nat} (keep : Nat → Bool)
    (same : ∀ segment ∈ log, ∀ item ∈ items segment, generationOf item = segment.name.generation) :
    (log.filter fun segment => keep segment.name.generation).flatMap items =
      (log.flatMap items).filter fun item => keep (generationOf item) := by
  induction log with
  | nil => rfl
  | cons segment log inductionHypothesis =>
      obtain ⟨head, rest⟩ := List.forall_mem_cons.mp same
      rw [List.flatMap_cons, List.filter_append, ← inductionHypothesis rest]
      by_cases kept : keep segment.name.generation
      · have own : (items segment).filter (fun item => keep (generationOf item)) = items segment :=
          List.filter_eq_self.mpr fun item member => by rw [head item member, kept]
        rw [own, List.filter_cons_of_pos (by simpa using kept), List.flatMap_cons]
      · have own : (items segment).filter (fun item => keep (generationOf item)) = [] :=
          List.filter_eq_nil_iff.mpr fun item member => by rwa [head item member]
        rw [own, List.filter_cons_of_neg (by simpa using kept), List.nil_append]

namespace LogValid

theorem nil : LogValid size cutoff generation next [] := by
  constructor <;> simp

theorem tail {segment : SegmentLog} (valid : LogValid size cutoff generation next (segment :: log)) :
    LogValid size cutoff generation next log :=
  ⟨fun other member => valid.consecutive other (List.mem_cons_of_mem _ member),
    fun other member => valid.live other (List.mem_cons_of_mem _ member),
    fun other member => valid.current other (List.mem_cons_of_mem _ member),
    fun other member => valid.positive other (List.mem_cons_of_mem _ member),
    (List.pairwise_cons.mp valid.ordered).2,
    fun other member => valid.bounded other (List.mem_cons_of_mem _ member)⟩

theorem precedes {segment : SegmentLog} (valid : LogValid size cutoff generation next (segment :: log)) :
    ∀ other ∈ log, Precedes segment other :=
  (List.pairwise_cons.mp valid.ordered).1

variable (valid : LogValid size cutoff generation next log)

include valid

theorem frame_mem {frame : Frame} (member : frame ∈ framesOf log) :
    frame.Valid size ∧ cutoff < frame.generation ∧ frame.generation ≤ generation ∧
      1 ≤ frame.sequence ∧ frame.sequence < next := by
  obtain ⟨segment, segmentMem, member⟩ := mem_framesOf.mp member
  obtain ⟨ofGeneration, frameValid, after, before⟩ :=
    (valid.consecutive segment segmentMem).mem member
  have bounded := valid.bounded segment segmentMem
  have positive := valid.positive segment segmentMem
  rw [SegmentLog.next] at bounded
  exact ⟨frameValid, ofGeneration ▸ valid.live segment segmentMem,
    ofGeneration ▸ valid.current segment segmentMem, by omega, by omega⟩

/-- Frames are appended in ascending order, and generations only grow. -/
theorem frames_pairwise : (framesOf log).Pairwise fun before after =>
    before.sequence < after.sequence ∧ before.generation ≤ after.generation := by
  rw [framesOf, List.pairwise_flatMap]
  refine ⟨fun segment member => (valid.consecutive segment member).pairwise,
    valid.ordered.imp_of_mem fun {first second} firstMem secondMem precedes before beforeMem after
      afterMem => ?_⟩
  obtain ⟨beforeGeneration, -, -, ended⟩ := (valid.consecutive first firstMem).mem beforeMem
  obtain ⟨afterGeneration, -, started, -⟩ := (valid.consecutive second secondMem).mem afterMem
  have sequence := precedes.sequence
  rw [SegmentLog.next] at sequence
  exact ⟨by omega, beforeGeneration ▸ afterGeneration ▸ precedes.generation⟩

theorem names_nodup : (log.map SegmentLog.name).Nodup :=
  List.pairwise_map.mpr (valid.ordered.imp Precedes.distinct)

theorem filter (keep : SegmentLog → Bool) : LogValid size cutoff generation next (log.filter keep) := by
  have sub : ∀ segment ∈ log.filter keep, segment ∈ log := fun segment member =>
    List.mem_of_mem_filter member
  exact ⟨fun segment member => valid.consecutive segment (sub segment member),
    fun segment member => valid.live segment (sub segment member),
    fun segment member => valid.current segment (sub segment member),
    fun segment member => valid.positive segment (sub segment member),
    valid.ordered.filter keep,
    fun segment member => valid.bounded segment (sub segment member)⟩

/-- Publication keeps the segments above its generation. -/
theorem retire (published : Nat) : LogValid size published generation next
    (log.filter fun segment => published < segment.name.generation) :=
  { valid.filter _ with
    live := fun segment member => by simpa using List.of_mem_filter member }

/-- The frames of the segments of some generations are the frames of these generations. -/
theorem framesOf_filter (keep : Nat → Bool) :
    framesOf (log.filter fun segment => keep segment.name.generation) =
      (framesOf log).filter fun frame => keep frame.generation :=
  filter_flatMap_generation keep fun segment segmentMem _ member =>
    ((valid.consecutive segment segmentMem).mem member).1

theorem recordsOf_filter (keep : Nat → Bool) :
    recordsOf checksums (log.filter fun segment => keep segment.name.generation) =
      (recordsOf checksums log).filter fun record => keep record.generation := by
  refine filter_flatMap_generation keep fun segment segmentMem record member => ?_
  obtain ⟨frame, frameMem, -, same⟩ := mem_locate_frame member
  exact same.trans ((valid.consecutive segment segmentMem).mem frameMem).1

theorem ascending : Ascending (recordsOf checksums log) := by
  have sequences : (recordsOf checksums log).map Record.sequence =
      (framesOf log).map Frame.sequence := recordsOf_map _ _ fun _ _ _ => rfl
  have pairwise : ((framesOf log).map Frame.sequence).Pairwise (· < ·) :=
    List.pairwise_map.mpr (valid.frames_pairwise.imp And.left)
  rw [← sequences] at pairwise
  exact List.pairwise_map.mp pairwise

end LogValid

end

/-! ### Files of a log -/

/-- The file of a segment holds its frames and, behind them, the remains of
another one. -/
structure Stored (checksums : Checksums) (size : Nat) (files : SegmentName → Option File)
    (segment : SegmentLog) (file : File) (cut : Bytes) : Prop where
  present : files segment.name = some file
  bytes : file.bytes = encodeAll checksums segment.frames ++ cut
  cut : Cut checksums size segment.name.generation segment.next cut

/-- A record that reads back as a frame. -/
structure Located {Hash : Type u} (checksums : Checksums) (store : Store Hash) (record : Record)
    (frame : Frame) : Prop where
  placed : ∃ name position, record = Volume.recordOf checksums name position frame
  readable : record.read checksums store = .ok frame.data

section

variable {Hash : Type u} {checksums : Checksums} {size : Nat} {store : Store Hash}
  {log : List SegmentLog}

theorem located_locate {name : SegmentName} {file : File} {before rest : Bytes}
    {frames : List Frame} (isFile : store.files name = some file)
    (bytes : file.bytes = before ++ encodeAll checksums frames ++ rest) :
    List.Forall₂ (Located checksums store) (locate checksums name before.length frames) frames := by
  induction frames generalizing before with
  | nil => exact List.Forall₂.nil
  | cons frame frames inductionHypothesis =>
      rw [encodeAll_cons] at bytes
      refine List.Forall₂.cons ⟨⟨name, _, rfl⟩, ?_⟩ ?_
      · refine read_recordOf isFile (?_ : file.bytes =
          before ++ frame.encode checksums ++ (encodeAll checksums frames ++ rest)) rfl
        simp [bytes]
      · have next := @inductionHypothesis (before ++ frame.encode checksums) (by simp [bytes])
        rwa [List.length_append, Frame.encode_length] at next

/-- Every record of a stored log reads back as its frame. -/
theorem located_recordsOf
    (stored : ∀ segment ∈ log, ∃ file cut, Stored checksums size store.files segment file cut) :
    List.Forall₂ (Located checksums store) (recordsOf checksums log) (framesOf log) := by
  induction log with
  | nil => exact List.Forall₂.nil
  | cons segment log inductionHypothesis =>
      obtain ⟨⟨file, cut, head⟩, rest⟩ := List.forall_mem_cons.mp stored
      have first : List.Forall₂ (Located checksums store) (segment.records checksums) segment.frames :=
        @located_locate _ _ _ _ _ [] cut _ head.present (by simpa using head.bytes)
      exact List.rel_append first (inductionHypothesis rest)

end

end Cairn.Storage.Lazy

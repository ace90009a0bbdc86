import Cairn.Storage.Lazy.Journal
import Cairn.Storage.Lazy.IndexReplay

/-!
Owns the abstract journal: the frames of every live segment, in append order.
It says where their bytes stand in the segment files, which records index them,
and what `Journal::open` recovers from a file that holds a prefix of them.

Does not own how the operations change it.
-/

set_option autoImplicit false

namespace Cairn.Storage.Lazy

/-! ### Frames of a segment -/

/-- What every appended frame satisfies. -/
structure Frame.Valid (size : Nat) (frame : Frame) : Prop where
  sequence : frame.sequence < i64Max
  generation : frame.generation ≤ i64Max
  nonempty : frame.data ≠ []
  bounded : frame.data.length ≤ maxIo
  inside : frame.stop ≤ size
  writtenAt : frame.writtenAt ≤ i64Max

/-- The size of a disk is bounded by its validation. -/
def sizeLimit : Nat := 2 ^ 40

theorem Frame.Valid.fits {size : Nat} {frame : Frame} (valid : frame.Valid size)
    (limited : size ≤ sizeLimit) : frame.Fits := by
  have inside := valid.inside
  have bounded := valid.bounded
  simp only [sizeLimit, maxIo, Frame.stop] at *
  refine ⟨valid.sequence.le, valid.generation, ?_, ?_, valid.writtenAt⟩ <;>
  · unfold i64Max
    omega

theorem Frame.Valid.length_pos {size : Nat} {frame : Frame} (valid : frame.Valid size) :
    0 < frame.data.length :=
  List.length_pos_iff.mpr valid.nonempty

/-- Frames with consecutive sequences from `first` on, of one generation. -/
def Consecutive (size generation : Nat) : Nat → List Frame → Prop
  | _, [] => True
  | first, frame :: rest =>
    frame.sequence = first ∧ frame.generation = generation ∧ frame.Valid size ∧
      Consecutive size generation (first + 1) rest

/-- The bytes of frames, one after the other. -/
def encodeAll (checksums : Checksums) (frames : List Frame) : Bytes :=
  frames.flatMap (Frame.encode checksums)

/-- The length of frames in a segment. -/
def framesLength (frames : List Frame) : Nat := (frames.map Frame.length).sum

@[simp] theorem encodeAll_length (checksums : Checksums) (frames : List Frame) :
    (encodeAll checksums frames).length = framesLength frames := by
  induction frames with
  | nil => rfl
  | cons frame rest inductionHypothesis =>
      simp only [encodeAll, framesLength, List.flatMap_cons, List.length_append, List.map_cons,
        List.sum_cons, Frame.encode_length] at *
      omega

@[simp] theorem encodeAll_cons (checksums : Checksums) (frame : Frame) (rest : List Frame) :
    encodeAll checksums (frame :: rest) = frame.encode checksums ++ encodeAll checksums rest := rfl

@[simp] theorem framesLength_nil : framesLength [] = 0 := rfl

@[simp] theorem framesLength_cons (frame : Frame) (rest : List Frame) :
    framesLength (frame :: rest) = frame.length + framesLength rest := rfl

theorem encodeAll_append (checksums : Checksums) (first second : List Frame) :
    encodeAll checksums (first ++ second) = encodeAll checksums first ++ encodeAll checksums second :=
  List.flatMap_append

theorem framesLength_append (first second : List Frame) :
    framesLength (first ++ second) = framesLength first + framesLength second := by
  simp [framesLength]

theorem length_le_framesLength (frames : List Frame) : frames.length ≤ framesLength frames := by
  induction frames with
  | nil => exact le_rfl
  | cons frame frames inductionHypothesis =>
      have := frame.length_pos
      rw [framesLength_cons, List.length_cons]
      omega

namespace Consecutive

variable {size generation first : Nat} {frames : List Frame}

theorem append {rest : List Frame} :
    Consecutive size generation first (frames ++ rest) ↔
      Consecutive size generation first frames ∧
        Consecutive size generation (first + frames.length) rest := by
  induction frames generalizing first with
  | nil => simp [Consecutive]
  | cons frame frames inductionHypothesis =>
      simp only [List.cons_append, Consecutive, inductionHypothesis, List.length_cons]
      rw [show first + 1 + frames.length = first + (frames.length + 1) by omega]
      tauto

theorem take (consecutive : Consecutive size generation first frames) (count : Nat) :
    Consecutive size generation first (frames.take count) := by
  rw [← List.take_append_drop count frames] at consecutive
  exact (append.mp consecutive).1

theorem mem (consecutive : Consecutive size generation first frames) {frame : Frame}
    (member : frame ∈ frames) : frame.generation = generation ∧ frame.Valid size ∧
      first ≤ frame.sequence ∧ frame.sequence < first + frames.length := by
  induction frames generalizing first with
  | nil => cases member
  | cons head rest inductionHypothesis =>
      obtain ⟨isFirst, ofGeneration, valid, consecutive⟩ := consecutive
      rcases List.mem_cons.mp member with rfl | member
      · simp only [List.length_cons]
        exact ⟨ofGeneration, valid, isFirst.ge, by omega⟩
      · obtain ⟨same, memValid, after, before⟩ := inductionHypothesis consecutive member
        simp only [List.length_cons]
        exact ⟨same, memValid, by omega, by omega⟩

end Consecutive

/-! ### Cut frames -/

/-- The remains of a frame whose write or whose persistence was interrupted:
nothing, or a proper prefix of the frame that was next. -/
def Cut (checksums : Checksums) (size generation next : Nat) (bytes : Bytes) : Prop :=
  bytes = [] ∨ ∃ frame : Frame, ∃ count, frame.Valid size ∧ frame.sequence = next ∧
    frame.generation = generation ∧ count < frame.length ∧ bytes = (frame.encode checksums).take count

/-- How many of the frames lie within a prefix of their bytes. -/
def completeFrames : List Frame → Nat → Nat
  | [], _ => 0
  | frame :: rest, kept => if kept < frame.length then 0 else completeFrames rest (kept - frame.length) + 1

theorem completeFrames_le (frames : List Frame) (kept : Nat) :
    completeFrames frames kept ≤ frames.length := by
  induction frames generalizing kept with
  | nil => exact le_rfl
  | cons frame rest inductionHypothesis =>
      unfold completeFrames
      split
      · exact Nat.zero_le _
      · simpa using inductionHypothesis (kept - frame.length)

/-- A crash keeps the complete frames and a cut one. -/
theorem take_encodeAll {checksums : Checksums} {size generation first : Nat} {frames : List Frame}
    {rest : Bytes} (consecutive : Consecutive size generation first frames)
    (cut : Cut checksums size generation (first + frames.length) rest) (kept : Nat) :
    ∃ remains, (encodeAll checksums frames ++ rest).take kept =
        encodeAll checksums (frames.take (completeFrames frames kept)) ++ remains ∧
      Cut checksums size generation (first + completeFrames frames kept) remains := by
  induction frames generalizing first kept with
  | nil =>
      refine ⟨rest.take kept, rfl, ?_⟩
      rcases cut with rfl | ⟨frame, count, valid, sequence, ofGeneration, short, rfl⟩
      · exact Or.inl (by simp)
      · refine Or.inr ⟨frame, min kept count, valid, sequence, ofGeneration, by omega, ?_⟩
        rw [List.take_take]
  | cons frame frames inductionHypothesis =>
      obtain ⟨isFirst, ofGeneration, valid, consecutive⟩ := consecutive
      rw [encodeAll_cons, List.append_assoc, completeFrames]
      split
      · rename_i short
        refine ⟨(frame.encode checksums).take kept, ?_, Or.inr
          ⟨frame, kept, valid, isFirst, ofGeneration, short, rfl⟩⟩
        rw [List.take_append_of_le_length (by rw [Frame.encode_length]; omega)]
        rfl
      · rename_i long
        rw [List.length_cons, show first + (frames.length + 1) = first + 1 + frames.length by omega]
          at cut
        obtain ⟨remains, taken, cut⟩ := inductionHypothesis consecutive cut (kept - frame.length)
        refine ⟨remains, ?_, ?_⟩
        · rw [List.take_append, Frame.encode_length, taken, List.take_of_length_le
            (by rw [Frame.encode_length]; omega), List.take_succ_cons, encodeAll_cons,
            List.append_assoc]
        · rwa [show first + (completeFrames frames (kept - frame.length) + 1) =
            first + 1 + completeFrames frames (kept - frame.length) by omega]

end Cairn.Storage.Lazy

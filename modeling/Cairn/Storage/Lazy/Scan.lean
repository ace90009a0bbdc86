import Cairn.Storage.Lazy.Log

/-!
Owns what the frame loop of `Journal::open` makes of a segment file: it recovers
the records of the complete frames, and it accepts a cut frame behind them in the
tail segment only.
-/

set_option autoImplicit false

namespace Cairn.Storage.Lazy

/-- The records of frames laid out from a position on. -/
def locate (checksums : Checksums) (name : SegmentName) : Nat → List Frame → List Record
  | _, [] => []
  | position, frame :: rest =>
    Volume.recordOf checksums name position frame :: locate checksums name (position + frame.length) rest

/-- The scan expects a frame with this sequence next. -/
structure Expects (first position previous expected : Nat) : Prop where
  fresh : previous < expected
  floor : first ≤ expected
  start : position = 0 → expected = first
  follow : 0 < position → expected = previous + 1

/-- Behind the expected frame, the scan expects its successor. -/
theorem Expects.next {first position previous expected : Nat}
    (expects : Expects first position previous expected) (length : Nat) (positive : 0 < length) :
    Expects first (position + length) expected (expected + 1) :=
  ⟨Nat.lt_succ_self _, expects.floor.trans (Nat.le_succ _), fun start => by omega, fun _ => rfl⟩

/-- Prepending recovered records to the outcome of the rest of a scan. -/
def prepend (records : List Record) : Except String Scanned → Except String Scanned
  | .error failure => .error failure
  | .ok scanned => .ok { scanned with records := records ++ scanned.records }

@[simp] theorem prepend_nil (outcome : Except String Scanned) : prepend [] outcome = outcome := by
  cases outcome <;> rfl

theorem prepend_append (first second : List Record) (outcome : Except String Scanned) :
    prepend (first ++ second) outcome = prepend first (prepend second outcome) := by
  cases outcome with
  | error failure => rfl
  | ok scanned => simp [prepend]

section

variable {checksums : Checksums} {size : Nat} {descriptor : Descriptor} {tail : Bool}
  {position previous : Nat}

/-- The header of a valid frame passes the frame check where it is expected. -/
theorem validHeader {frame : Frame} (valid : frame.Valid size)
    (ofGeneration : frame.generation = descriptor.generation)
    (expects : Expects descriptor.first position previous frame.sequence) :
    ValidHeader descriptor size position previous (frame.header checksums)
      ⟨frame.sequence, frame.generation, frame.start, frame.data.length, frame.writtenAt⟩ := by
  have inside := valid.inside
  have positive := valid.length_pos
  have bounded := valid.bounded
  have floor := expects.floor
  have fresh := expects.fresh
  simp only [Frame.stop] at inside
  unfold ValidHeader
  dsimp only
  refine ⟨Or.inl (Frame.header_magic ..), by omega, by omega, fun start => ?_, fun follow => ?_,
    by simpa using ofGeneration, by omega, by omega, by exact_mod_cast bounded, by omega, by omega⟩
  · have := expects.start start
    omega
  · have := expects.follow follow
    omega

/-- One complete frame. -/
theorem scanFrames_frame {frame : Frame} {rest : Bytes} (fuel : Nat) (valid : frame.Valid size)
    (limited : size ≤ sizeLimit) (ofGeneration : frame.generation = descriptor.generation)
    (expects : Expects descriptor.first position previous frame.sequence) :
    scanFrames checksums size descriptor tail (fuel + 1) (frame.encode checksums ++ rest) position
        previous =
      prepend [Volume.recordOf checksums descriptor.name position frame]
        (scanFrames checksums size descriptor tail fuel rest (position + frame.length)
          frame.sequence) := by
  have header : (frame.encode checksums ++ rest).take headerBytes = frame.header checksums := by
    rw [Frame.encode, List.append_assoc]
    exact List.take_left' (by simp)
  have payload : ((frame.encode checksums ++ rest).drop headerBytes).take frame.data.length =
      frame.data := by
    rw [Frame.encode, List.append_assoc, List.drop_left' (by simp)]
    exact List.take_left' rfl
  have behind : (frame.encode checksums ++ rest).drop (headerBytes + frame.data.length) = rest :=
    List.drop_left' (by simp [Frame.length])
  have long : (frame.encode checksums ++ rest).length = headerBytes + frame.data.length + rest.length := by
    simp [Frame.length]
  have nonempty : frame.encode checksums ++ rest ≠ [] := by
    rw [← List.length_pos_iff, long]
    have : headerBytes = 112 := rfl
    omega
  have read := Frame.read_header checksums frame (valid.fits limited)
  have accepted := @validHeader checksums _ _ position _ _ valid ofGeneration expects
  have exhausted := valid.sequence
  rw [scanFrames, if_neg nonempty, if_neg (by omega)]
  dsimp only
  rw [header, read]
  dsimp only
  rw [if_neg (not_not.mpr (Frame.header_headerMatches ..)), if_neg (not_not.mpr accepted),
    Int.toNat_natCast, if_neg (by omega), payload,
    if_neg (not_not.mpr (Frame.header_payloadMatches ..)), if_neg (by omega), behind]
  dsimp only [Int.toNat_natCast]
  rw [show position + headerBytes + frame.data.length = position + frame.length by
    simp [Frame.length, Nat.add_assoc]]
  cases scanFrames checksums size descriptor tail fuel rest (position + frame.length)
    frame.sequence with
  | error failure => rfl
  | ok scanned => simp [prepend, Volume.recordOf, Frame.stop, ofGeneration]

/-- The last sequence a scan has seen behind some frames. -/
def lastSequence (previous expected : Nat) (frames : List Frame) : Nat :=
  if frames = [] then previous else expected + frames.length - 1

theorem Expects.frames {frames : List Frame} {expected : Nat}
    (expects : Expects descriptor.first position previous expected) :
    Expects descriptor.first (position + framesLength frames)
      (lastSequence previous expected frames) (expected + frames.length) := by
  cases frames with
  | nil => exact expects
  | cons frame frames =>
      have positive := frame.length_pos
      have floor := expects.floor
      simp only [lastSequence, List.length_cons, framesLength_cons, reduceCtorEq, if_false]
      exact ⟨by omega, by omega, fun start => by omega, fun _ => by omega⟩

/-- All complete frames, and then the rest. -/
theorem scanFrames_frames {frames : List Frame} {rest : Bytes} {expected : Nat} (fuel : Nat)
    (consecutive : Consecutive size descriptor.generation expected frames)
    (limited : size ≤ sizeLimit) (expects : Expects descriptor.first position previous expected) :
    scanFrames checksums size descriptor tail (frames.length + fuel)
        (encodeAll checksums frames ++ rest) position previous =
      prepend (locate checksums descriptor.name position frames)
        (scanFrames checksums size descriptor tail fuel rest (position + framesLength frames)
          (lastSequence previous expected frames)) := by
  induction frames generalizing position previous expected with
  | nil => simp [encodeAll, locate, lastSequence]
  | cons frame frames inductionHypothesis =>
      obtain ⟨rfl, ofGeneration, valid, consecutive⟩ := consecutive
      have scanned := inductionHypothesis consecutive (expects.next frame.length frame.length_pos)
      have last : lastSequence previous frame.sequence (frame :: frames) =
          lastSequence frame.sequence (frame.sequence + 1) frames := by
        unfold lastSequence
        cases frames <;> simp
        omega
      rw [List.length_cons, show frames.length + 1 + fuel = frames.length + fuel + 1 by omega,
        encodeAll_cons, List.append_assoc, scanFrames_frame _ valid limited ofGeneration expects,
        scanned, ← prepend_append, framesLength_cons, ← Nat.add_assoc, last]
      rfl

/-- A cut frame ends the scan of a tail segment, and fails any other. -/
theorem scanFrames_cut {rest : Bytes} {expected : Nat} {fuel : Nat} (enough : rest.length ≤ fuel)
    (cut : Cut checksums size descriptor.generation expected rest) (limited : size ≤ sizeLimit)
    (expects : Expects descriptor.first position previous expected) :
    scanFrames checksums size descriptor tail fuel rest position previous =
      if tail ∨ rest = [] then .ok { position, previous }
      else .error "Truncated sealed journal" := by
  cases fuel with
  | zero =>
      have empty : rest = [] := List.length_eq_zero_iff.mp (by omega)
      simp [scanFrames, empty]
  | succ fuel =>
      rw [scanFrames]
      by_cases empty : rest = []
      · simp [empty]
      · obtain ⟨frame, count, valid, rfl, ofGeneration, short, rfl⟩ := cut.resolve_left empty
        have length : ((frame.encode checksums).take count).length = count := by
          rw [List.length_take, Frame.encode_length]
          omega
        rw [if_neg empty]
        by_cases partialHeader : count < headerBytes
        · rw [if_pos (by omega)]
          by_cases isTail : tail <;> simp [isTail, empty]
        · have header : ((frame.encode checksums).take count).take headerBytes =
              frame.header checksums := by
            rw [List.take_take, Nat.min_eq_left (by omega), Frame.encode]
            exact List.take_left' (by simp)
          rw [if_neg (by omega)]
          dsimp only
          rw [header, Frame.read_header checksums frame (valid.fits limited)]
          dsimp only
          rw [if_neg (not_not.mpr (Frame.header_headerMatches ..)),
            if_neg (not_not.mpr (validHeader valid ofGeneration expects)), Int.toNat_natCast, length]
          have shortPayload : count - headerBytes < frame.data.length := by
            unfold Frame.length at short
            omega
          rw [if_pos shortPayload]
          by_cases isTail : tail <;> simp [isTail, empty]

/-- The scan of a whole segment file. -/
theorem scanFrames_segment {frames : List Frame} {rest : Bytes}
    (consecutive : Consecutive size descriptor.generation descriptor.first frames)
    (cut : Cut checksums size descriptor.generation (descriptor.first + frames.length) rest)
    (limited : size ≤ sizeLimit) (fresh : previous < descriptor.first) :
    scanFrames checksums size descriptor tail (encodeAll checksums frames ++ rest).length
        (encodeAll checksums frames ++ rest) 0 previous =
      if tail ∨ rest = [] then .ok {
        records := locate checksums descriptor.name 0 frames
        position := framesLength frames
        previous := lastSequence previous descriptor.first frames }
      else .error "Truncated sealed journal" := by
  have expects : Expects descriptor.first 0 previous descriptor.first :=
    ⟨fresh, le_rfl, fun _ => rfl, fun impossible => absurd impossible (lt_irrefl 0)⟩
  have enough := length_le_framesLength frames
  have fuel : (encodeAll checksums frames ++ rest).length =
      frames.length + (framesLength frames - frames.length + rest.length) := by
    rw [List.length_append, encodeAll_length]
    omega
  have behind : Expects descriptor.first (0 + framesLength frames)
      (lastSequence previous descriptor.first frames) (descriptor.first + frames.length) :=
    expects.frames
  rw [fuel, scanFrames_frames _ consecutive limited expects,
    scanFrames_cut (Nat.le_add_left _ _) cut limited behind, Nat.zero_add]
  split
  · simp [prepend]
  · rfl

end

end Cairn.Storage.Lazy

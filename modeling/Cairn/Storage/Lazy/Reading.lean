import Cairn.Library.Overlay
import Cairn.Storage.Lazy.Expansion
import Cairn.Storage.Lazy.Overlapping

/-!
Owns what `read_generation` returns: the content that the base describes,
overlaid with the payloads of the indexed records. The record loop and the base
loop are followed position by position.

Does not own why records can be read back from their segments.
-/

set_option autoImplicit false

namespace Cairn.Storage.Lazy

namespace LazyDisk

open Cairn.Library.Overlay Index

universe u

variable {Hash : Type u} {identities : Identities Hash}

/-! ### Buffers -/

theorem splice_length {bytes part : Bytes} {start : Nat} (inside : start + part.length ≤ bytes.length) :
    (splice bytes start part).length = bytes.length := by
  simp only [splice, List.length_append, List.length_take, List.length_drop]
  omega

theorem getElem?_splice {bytes part : Bytes} {start : Nat}
    (inside : start + part.length ≤ bytes.length) (position : Nat) :
    (splice bytes start part)[position]? =
      if start ≤ position ∧ position < start + part.length then part[position - start]?
      else bytes[position]? := by
  have before : (bytes.take start).length = start := by
    rw [List.length_take]
    omega
  rw [splice, List.append_assoc]
  by_cases low : position < start
  · rw [List.getElem?_append_left (by omega), List.getElem?_take_of_lt low, if_neg (by omega)]
  · rw [List.getElem?_append_right (by omega), before]
    by_cases high : position < start + part.length
    · rw [List.getElem?_append_left (by omega), if_pos ⟨by omega, high⟩]
    · rw [List.getElem?_append_right (by omega), List.getElem?_drop, if_neg (by omega)]
      congr 1
      omega

/-- Filling some positions of a buffer, those of a gap within bounds. -/
theorem getElem?_splice_gap {bytes part : Bytes} {gap : Nat × Nat} {begin finish : Nat}
    {value : Nat → Option UInt8} (bounded : gap.2 ≤ bytes.length)
    (long : part.length = min gap.2 finish - max gap.1 begin)
    (within : max gap.1 begin < min gap.2 finish)
    (same : ∀ position, max gap.1 begin ≤ position → position < min gap.2 finish →
      part[position - max gap.1 begin]? = value position) (position : Nat) :
    (splice bytes (max gap.1 begin) part)[position]? =
      if (gap.1 ≤ position ∧ position < gap.2) ∧ begin ≤ position ∧ position < finish
      then value position else bytes[position]? := by
  rw [getElem?_splice (by omega)]
  by_cases filled : max gap.1 begin ≤ position ∧ position < min gap.2 finish
  · rw [if_pos (by omega), if_pos (by omega), same position filled.1 filled.2]
  · rw [if_neg (by omega), if_neg (by omega)]

/-! ### The record loop -/

/-- The buffer holds the values known so far, and every other position is missing. -/
structure Filling.Holds (filling : Filling) (count : Nat) (value : Nat → Option UInt8) : Prop where
  length : filling.bytes.length = count
  bounded : ∀ gap ∈ filling.missing, gap.2 ≤ count
  missing : ∀ position < count, InGaps filling.missing position ↔ value position = none
  filled : ∀ position < count, ∀ byte, value position = some byte →
    filling.bytes[position]? = some byte

section

variable {offset count start begin finish : Nat} {data : Bytes}

/-- What the gap loop of one record has done so far: `rest` are the gaps it took. -/
structure Fills (before after : Filling) (taken : List (Nat × Nat)) (begin finish : Nat)
    (value : Nat → Option UInt8) : Prop where
  length : after.bytes.length = before.bytes.length
  bounded : ∀ count, (∀ gap ∈ before.missing ++ taken, gap.2 ≤ count) →
    ∀ gap ∈ after.missing, gap.2 ≤ count
  missing : ∀ position, InGaps after.missing position ↔ InGaps before.missing position ∨
    (InGaps taken position ∧ ¬ (begin ≤ position ∧ position < finish))
  bytes : ∀ position, InGaps taken position → begin ≤ position → position < finish →
    after.bytes[position]? = value position
  frame : ∀ position, ¬ (InGaps taken position ∧ begin ≤ position ∧ position < finish) →
    after.bytes[position]? = before.bytes[position]?

theorem fillGap_missing (filling : Filling) (gap : Nat × Nat) (position : Nat) :
    InGaps (fillGap offset start data begin finish filling gap).missing position ↔
      InGaps filling.missing position ∨
        ((gap.1 ≤ position ∧ position < gap.2) ∧ ¬ (begin ≤ position ∧ position < finish)) := by
  unfold fillGap
  dsimp only
  split
  · have low : InGaps (if gap.1 < max gap.1 begin then [(gap.1, max gap.1 begin)] else []) position ↔
        gap.1 ≤ position ∧ position < max gap.1 begin := by
      split <;> simp
      omega
    have high : InGaps (if min gap.2 finish < gap.2 then [(min gap.2 finish, gap.2)] else []) position ↔
        min gap.2 finish ≤ position ∧ position < gap.2 := by
      split <;> simp
      omega
    rw [inGaps_append, inGaps_append, low, high, or_assoc]
    refine or_congr_right ?_
    omega
  · rw [inGaps_append, inGaps_singleton]
    refine or_congr_right ?_
    omega

theorem fillGap_bounded {filling : Filling} {gap : Nat × Nat} {bound : Nat}
    (old : ∀ other ∈ filling.missing, other.2 ≤ bound) (inside : gap.2 ≤ bound) :
    ∀ other ∈ (fillGap offset start data begin finish filling gap).missing, other.2 ≤ bound := by
  unfold fillGap
  dsimp only
  intro other member
  split at member
  · simp only [List.mem_append] at member
    rcases member with (member | member) | member
    · exact old other member
    · split at member
      · rw [List.mem_singleton.mp member]
        dsimp only
        omega
      · cases member
    · split at member
      · rw [List.mem_singleton.mp member]
        exact inside
      · cases member
  · rcases List.mem_append.mp member with member | member
    · exact old other member
    · rw [List.mem_singleton.mp member]
      exact inside

/-- The value of a payload at a buffer position. -/
def payloadAt (offset start : Nat) (data : Bytes) (position : Nat) : Option UInt8 :=
  (Patch.mk start data).at? (offset + position)

theorem getElem?_payload {first last position : Nat} (after : start ≤ offset + first)
    (low : first ≤ position) (high : position < last) :
    ((data.drop (offset + first - start)).take (last - first))[position - first]? =
      payloadAt offset start data position := by
  rw [payloadAt, Patch.at?, if_pos (by dsimp only; omega), List.getElem?_take_of_lt (by omega),
    List.getElem?_drop]
  congr 1
  dsimp only
  omega

/-- The bounds of a payload in the buffer. -/
structure Bounds (offset start : Nat) (data : Bytes) (begin finish : Nat) : Prop where
  low : start ≤ offset + begin
  high : begin < finish → offset + finish ≤ start + data.length

theorem fillGap_bytes (bounds : Bounds offset start data begin finish) (filling : Filling)
    {gap : Nat × Nat} (bounded : gap.2 ≤ filling.bytes.length) (position : Nat) :
    (fillGap offset start data begin finish filling gap).bytes[position]? =
      if (gap.1 ≤ position ∧ position < gap.2) ∧ begin ≤ position ∧ position < finish
      then payloadAt offset start data position else filling.bytes[position]? := by
  have low := bounds.low
  have high := bounds.high
  unfold fillGap
  dsimp only
  split
  · rename_i within
    refine getElem?_splice_gap bounded ?_ within (fun position after before =>
      getElem?_payload (by omega) after before) position
    rw [List.length_take, List.length_drop]
    omega
  · rw [if_neg (by omega)]

theorem fillGap_length (bounds : Bounds offset start data begin finish) (filling : Filling)
    {gap : Nat × Nat} (bounded : gap.2 ≤ filling.bytes.length) :
    (fillGap offset start data begin finish filling gap).bytes.length = filling.bytes.length := by
  have low := bounds.low
  have high := bounds.high
  unfold fillGap
  dsimp only
  split
  · refine splice_length ?_
    rw [List.length_take, List.length_drop]
    omega
  · rfl

/-- The gap loop of one record. -/
theorem foldl_fillGap (bounds : Bounds offset start data begin finish) (gaps : List (Nat × Nat))
    (filling : Filling) (bounded : ∀ gap ∈ gaps, gap.2 ≤ filling.bytes.length) :
    Fills filling (gaps.foldl (fillGap offset start data begin finish) filling) gaps begin finish
      (payloadAt offset start data) := by
  induction gaps generalizing filling with
  | nil =>
      refine ⟨rfl, fun count old => by simpa using old, by simp, ?_, fun _ _ => rfl⟩
      exact fun position impossible => absurd impossible (inGaps_nil position)
  | cons gap gaps inductionHypothesis =>
      obtain ⟨gapBounded, restBounded⟩ := List.forall_mem_cons.mp bounded
      have length := fillGap_length bounds filling gapBounded
      have bytes := fillGap_bytes bounds filling gapBounded
      have split : ∀ position, InGaps (gap :: gaps) position ↔
          (gap.1 ≤ position ∧ position < gap.2) ∨ InGaps gaps position := fun position => by
        rw [← List.singleton_append, inGaps_append, inGaps_singleton]
      have fills := inductionHypothesis (fillGap offset start data begin finish filling gap)
        (length ▸ restBounded)
      rw [List.foldl_cons]
      refine ⟨fills.length.trans length, fun count old => fills.bounded count ?_, ?_, ?_, ?_⟩
      · intro other member
        rcases List.mem_append.mp member with member | member
        · exact fillGap_bounded (fun old' isOld => old old' (by simp [isOld])) (old gap (by simp)) other
            member
        · exact old other (by simp [member])
      · intro position
        rw [fills.missing, fillGap_missing, split]
        tauto
      · intro position taken after before
        by_cases later : InGaps gaps position
        · exact fills.bytes position later after before
        · rw [fills.frame position (by tauto), bytes,
            if_pos ⟨((split position).mp taken).resolve_right later, after, before⟩]
      · intro position outside
        rw [split] at outside
        rw [fills.frame position (by tauto), bytes, if_neg (by tauto)]

/-- One record fills what its payload covers of the missing positions. -/
theorem fillRecord_holds {filling : Filling} {value : Nat → Option UInt8}
    (holds : filling.Holds count value) :
    (fillRecord offset count start data filling).Holds count
      fun position => (value position).or (payloadAt offset start data position) := by
  have bounds : Bounds offset start data (max start offset - offset)
      (min (start + data.length) (offset + count) - offset) := ⟨by omega, by omega⟩
  have fills := foldl_fillGap bounds filling.missing { filling with missing := [] }
    fun gap member => holds.length ▸ holds.bounded gap member
  have covered : ∀ position < count, payloadAt offset start data position = none ↔
      ¬ (max start offset - offset ≤ position ∧
        position < min (start + data.length) (offset + count) - offset) := by
    intro position inside
    rw [payloadAt, Patch.at?_eq_none]
    dsimp only
    omega
  refine ⟨fills.length.trans holds.length, fills.bounded count (by simpa using holds.bounded),
    fun position inside => ?_, fun position inside byte known => ?_⟩
  · rw [fillRecord, fills.missing, holds.missing position inside, Option.or_eq_none_iff,
      covered position inside]
    simp
  · rw [Option.or_eq_some_iff] at known
    rcases known with known | ⟨unknown, known⟩
    · have taken : ¬ InGaps filling.missing position := by
        rw [holds.missing position inside, known]
        exact Option.some_ne_none byte
      rw [fillRecord, fills.frame position fun held => taken held.1]
      exact holds.filled position inside byte known
    · have within : max start offset - offset ≤ position ∧
          position < min (start + data.length) (offset + count) - offset := by
        by_contra outside
        rw [(covered position inside).mpr outside] at known
        cases known
      rw [fillRecord, fills.bytes position ((holds.missing position inside).mpr unknown) within.1
        within.2]
      exact known

end

/-- The payload of the first record that covers a buffer position. -/
def firstPayload (payload : Record → Bytes) (offset : Nat) (records : List Record) (position : Nat) :
    Option UInt8 :=
  records.findSome? fun record => payloadAt offset record.start (payload record) position

/-- The record loop fills a position from the first record that covers it. -/
theorem readRecords_holds {checksums : Checksums} {store : Store Hash} {payload : Record → Bytes}
    {records : List Record} {filling : Filling} {value : Nat → Option UInt8} {offset count : Nat}
    (readable : ∀ record ∈ records, record.read checksums store = .ok (payload record))
    (holds : filling.Holds count value) :
    ∃ filled, readRecords checksums store offset count records filling = .ok filled ∧
      filled.Holds count fun position =>
        (value position).or (firstPayload payload offset records position) := by
  induction records generalizing filling value with
  | nil => exact ⟨filling, rfl, by simpa [firstPayload] using holds⟩
  | cons record records inductionHypothesis =>
      obtain ⟨isPayload, readable⟩ := List.forall_mem_cons.mp readable
      have step : ∀ position, firstPayload payload offset (record :: records) position =
          (payloadAt offset record.start (payload record) position).or
            (firstPayload payload offset records position) := fun position => by
        simp only [firstPayload, List.findSome?_cons]
        cases payloadAt offset record.start (payload record) position <;> rfl
      have filled : (fillRecord offset count record.start (payload record) filling).Holds count _ :=
        fillRecord_holds holds
      simp only [readRecords, isPayload, step]
      by_cases complete : (fillRecord offset count record.start (payload record) filling).missing = []
      · -- The loop stops early: every position has its value already.
        refine ⟨_, if_pos complete, filled.length, filled.bounded, fun position inside => ?_,
          fun position inside byte known => ?_⟩
        all_goals
          obtain ⟨byte', known'⟩ := Option.ne_none_iff_exists'.mp fun unknown =>
            inGaps_nil position (complete ▸ (filled.missing position inside).mpr unknown)
          have same : ((value position).or ((payloadAt offset record.start (payload record)
              position).or (firstPayload payload offset records position))) = some byte' := by
            rw [← Option.or_assoc, known', Option.some_or]
        · rw [filled.missing position inside, known', same]
        · rw [same] at known
          exact filled.filled position inside byte (known'.trans known)
      · rw [if_neg complete]
        obtain ⟨last, read, lastHolds⟩ := inductionHypothesis readable filled
        exact ⟨last, read, by simpa only [Option.or_assoc] using lastHolds⟩

/-- The record loop on an empty buffer. -/
theorem readRecords_empty {checksums : Checksums} {store : Store Hash} {payload : Record → Bytes}
    {records : List Record} {offset count : Nat}
    (readable : ∀ record ∈ records, record.read checksums store = .ok (payload record)) :
    ∃ filled, readRecords checksums store offset count records
        { bytes := List.replicate count 0, missing := [(0, count)] } = .ok filled ∧
      filled.Holds count (firstPayload payload offset records) := by
  have started : ({ bytes := List.replicate count 0, missing := [(0, count)] } : Filling).Holds count
      fun _ => none :=
    ⟨by simp, by simp, fun position within => by simp [within], fun _ _ _ impossible => by cases impossible⟩
  obtain ⟨filled, read, holds⟩ := readRecords_holds readable started
  refine ⟨filled, read, ?_⟩
  have same : (fun position => (none : Option UInt8).or (firstPayload payload offset records position)) =
      firstPayload payload offset records := funext fun _ => Option.none_or
  exact same ▸ holds

/-! ### The base loop -/

section

variable {content : Nat → UInt8} {offset index begin finish : Nat} {block : Option Bytes}

/-- The base block holds the content between two buffer positions. -/
def Yields (content : Nat → UInt8) (offset index begin finish : Nat) (block : Option Bytes) : Prop :=
  ∀ first last, begin ≤ first → first < last → last ≤ finish →
    (match block with
      | some block => (block.drop (offset + first - index * blockBytes)).take (last - first)
      | none => List.replicate (last - first) 0) = slice content (offset + first) (last - first)

theorem drop_take_slice {start total skip count : Nat} (inside : skip + count ≤ total) :
    ((slice content start total).drop skip).take count = slice content (start + skip) count := by
  refine eq_slice (by simp; omega) fun position within => ?_
  rw [List.getElem?_take_of_lt within, List.getElem?_drop, getElem?_slice, if_pos (by omega),
    Nat.add_assoc]

theorem yields_of_extent {total : Nat}
    (extent : block.getD (List.replicate total 0) = slice content (index * blockBytes) total)
    (low : index * blockBytes ≤ offset + begin) (high : offset + finish ≤ index * blockBytes + total) :
    Yields content offset index begin finish block := by
  intro first last after within before
  -- Arithmetic is done on a name for the product.
  obtain ⟨bottom, isBottom⟩ : ∃ bottom, bottom = index * blockBytes := ⟨_, rfl⟩
  rw [← isBottom] at extent low high ⊢
  have start : bottom + (offset + first - bottom) = offset + first := by omega
  have part : ((slice content bottom total).drop (offset + first - bottom)).take (last - first) =
      _ := drop_take_slice (by omega)
  rw [← extent, start] at part
  cases block with
  | none =>
      rw [Option.getD_none, List.drop_replicate, List.take_replicate, Nat.min_eq_left (by omega)] at part
      exact part
  | some held => exact part

theorem fillBase_eq {bytes : Bytes} {gap : Nat × Nat}
    (yields : Yields content offset index begin finish block) :
    fillBase offset index begin finish block bytes gap =
      if max gap.1 begin < min gap.2 finish then
        splice bytes (max gap.1 begin)
          (slice content (offset + max gap.1 begin) (min gap.2 finish - max gap.1 begin))
      else bytes := by
  unfold fillBase
  dsimp only
  split
  · rename_i within
    exact congrArg (splice bytes (max gap.1 begin)) (yields _ _ (by omega) within (by omega))
  · rfl

/-- The gap loop of one block. -/
theorem foldl_fillBase (yields : Yields content offset index begin finish block)
    {gaps : List (Nat × Nat)} {bytes : Bytes} (bounded : ∀ gap ∈ gaps, gap.2 ≤ bytes.length) :
    (gaps.foldl (fillBase offset index begin finish block) bytes).length = bytes.length ∧
      ∀ position, (InGaps gaps position ∧ begin ≤ position ∧ position < finish →
          (gaps.foldl (fillBase offset index begin finish block) bytes)[position]? =
            some (content (offset + position))) ∧
        (¬ (InGaps gaps position ∧ begin ≤ position ∧ position < finish) →
          (gaps.foldl (fillBase offset index begin finish block) bytes)[position]? =
            bytes[position]?) := by
  induction gaps generalizing bytes with
  | nil => exact ⟨rfl, fun position => ⟨fun held => absurd held.1 (inGaps_nil position), fun _ => rfl⟩⟩
  | cons gap gaps inductionHypothesis =>
      obtain ⟨gapBounded, restBounded⟩ := List.forall_mem_cons.mp bounded
      have filled : (fillBase offset index begin finish block bytes gap).length = bytes.length ∧
          ∀ position, (fillBase offset index begin finish block bytes gap)[position]? =
            if (gap.1 ≤ position ∧ position < gap.2) ∧ begin ≤ position ∧ position < finish
            then some (content (offset + position)) else bytes[position]? := by
        rw [fillBase_eq yields]
        split
        · rename_i within
          refine ⟨splice_length (by rw [slice_length]; omega), @getElem?_splice_gap _ _ _ _ _
            (fun position => some (content (offset + position))) gapBounded
            (slice_length ..) within fun position after before => ?_⟩
          rw [getElem?_slice, if_pos (by omega)]
          congr 2
          omega
        · exact ⟨rfl, fun position => by rw [if_neg (by omega)]⟩
      have split : ∀ position, InGaps (gap :: gaps) position ↔
          (gap.1 ≤ position ∧ position < gap.2) ∨ InGaps gaps position := fun position => by
        rw [← List.singleton_append, inGaps_append, inGaps_singleton]
      obtain ⟨length, rest⟩ := inductionHypothesis (filled.1 ▸ restBounded)
      refine ⟨length.trans filled.1, fun position => ?_⟩
      rw [List.foldl_cons, split]
      by_cases later : InGaps gaps position ∧ begin ≤ position ∧ position < finish
      · exact ⟨fun _ => (rest position).1 later, fun outside => absurd ⟨Or.inr later.1, later.2⟩ outside⟩
      · rw [(rest position).2 later, filled.2 position]
        exact ⟨fun held => if_pos (by tauto), fun outside => if_neg (by tauto)⟩

end

theorem mul_lt_succ_mul (index : Nat) {width : Nat} (positive : 0 < width) :
    index * width < (index + 1) * width := by
  rw [Nat.add_mul, Nat.one_mul]
  omega

/-- Where the base loop stands: at the start of the range or of a block. -/
structure AtBlock (offset finish index position remaining : Nat) : Prop where
  after : offset ≤ position
  low : index * blockBytes ≤ position
  high : position < (index + 1) * blockBytes
  before : position < finish
  enough : finish ≤ (index + remaining + 1) * blockBytes
  tight : (index + remaining) * blockBytes < finish

/-- The base loop starts at the start of a nonempty range. -/
theorem touchedBlocks_atBlock {count : Nat} (positive : 0 < count) (offset : Nat) :
    ∃ remaining, touchedBlocks offset (offset + count) =
        List.range' (offset / blockBytes) (remaining + 1) ∧
      AtBlock offset (offset + count) (offset / blockBytes) offset remaining := by
  obtain ⟨first, isFirst⟩ : ∃ first, first = offset / blockBytes := ⟨_, rfl⟩
  obtain ⟨last, isLast⟩ : ∃ last, last = divCeil (offset + count) blockBytes := ⟨_, rfl⟩
  have low : first * blockBytes ≤ offset := isFirst ▸ Nat.div_mul_le_self offset blockBytes
  have started : first < last := by
    rw [isLast, lt_divCeil blockBytes_pos]
    exact low.trans_lt (Nat.lt_add_of_pos_right positive)
  refine ⟨last - first - 1, ?_, ?_⟩
  · rw [touchedBlocks, ← isFirst, ← isLast]
    congr 1
    omega
  rw [← isFirst]
  have lastBlock : first + (last - first - 1) + 1 = last := by omega
  refine ⟨le_rfl, low, ?_, Nat.lt_add_of_pos_right positive, ?_, ?_⟩
  · rw [isFirst, Nat.add_mul, Nat.one_mul]
    exact Nat.lt_div_mul_add blockBytes_pos
  · rw [lastBlock]
    refine Nat.not_lt.mp fun beyond => ?_
    exact lt_irrefl last (isLast ▸ (lt_divCeil blockBytes_pos).mpr (isLast ▸ beyond))
  · rw [← lt_divCeil blockBytes_pos, ← isLast]
    omega

/-- The base has been read between two positions of the disk. -/
structure BaseRead (content : Nat → UInt8) (offset : Nat) (missing : List (Nat × Nat))
    (position limit : Nat) (bytes result : Bytes) : Prop where
  length : result.length = bytes.length
  filled : ∀ place, InGaps missing place → position ≤ offset + place → offset + place < limit →
    result[place]? = some (content (offset + place))
  frame : ∀ place, ¬ (InGaps missing place ∧ position ≤ offset + place ∧ offset + place < limit) →
    result[place]? = bytes[place]?

theorem BaseRead.trans {content : Nat → UInt8} {offset position middle limit : Nat}
    {missing : List (Nat × Nat)} {bytes between result : Bytes}
    (first : BaseRead content offset missing position middle bytes between)
    (second : BaseRead content offset missing middle limit between result)
    (ordered : position ≤ middle ∧ middle ≤ limit) :
    BaseRead content offset missing position limit bytes result := by
  refine ⟨second.length.trans first.length, fun place gap after before => ?_, fun place outside => ?_⟩
  · by_cases later : middle ≤ offset + place
    · exact second.filled place gap later before
    · rw [second.frame place (by omega)]
      exact first.filled place gap after (by omega)
  · rw [second.frame place fun held => outside ⟨held.1, by omega, held.2.2⟩,
      first.frame place fun held => outside ⟨held.1, held.2.1, by omega⟩]

section

variable {blocks : Nat → Blocks identities} {manifest : Manifest Hash} {content : Nat → UInt8}
  {size offset finish index position remaining : Nat} {missing : List (Nat × Nat)} {bytes : Bytes}

/-- Where a round of the base loop ends. -/
theorem roundLimit {width top bottom : Nat} (after : offset ≤ position) (low : bottom ≤ position)
    (high : position < top) (before : position < finish) (inside : finish ≤ size)
    (next : top = bottom + width) :
    bottom ≤ offset + (position - offset) ∧
      offset + (min top finish - offset) ≤ bottom + min (size - bottom) width ∧
      position ≤ min top finish := by
  omega

/-- One round of the base loop. -/
theorem readBase_cons (collisionFree : identities.CollisionFree)
    (describes : manifest.Describes identities content)
    (available : ∀ index, Available (blocks index) manifest) (shaped : Shaped size manifest)
    (inside : finish ≤ size) (after : offset ≤ position) (low : index * blockBytes ≤ position)
    (high : position < (index + 1) * blockBytes) (before : position < finish)
    (bounded : ∀ gap ∈ missing, gap.2 ≤ bytes.length) (rest : List Nat) :
    ∃ filled, BaseRead content offset missing position (min ((index + 1) * blockBytes) finish) bytes
        filled ∧
      readBase blocks manifest offset finish missing (index :: rest) position bytes =
        readBase blocks manifest offset finish missing rest (min ((index + 1) * blockBytes) finish)
          filled := by
  obtain ⟨block, found, extent⟩ := extentBytes_eq_ok collisionFree describes (available index) shaped
    (low.trans_lt (before.trans_le inside))
  have limited := roundLimit after low high before inside (Nat.succ_mul index blockBytes)
  obtain ⟨limit, isLimit⟩ : ∃ limit, limit = min ((index + 1) * blockBytes) finish := ⟨_, rfl⟩
  rw [← isLimit] at limited ⊢
  rw [readBase, ← isLimit]
  clear low high isLimit
  split
  · have yields : Yields content offset index (position - offset) (limit - offset) block :=
      yields_of_extent extent limited.1 limited.2.1
    obtain ⟨length, filled⟩ := foldl_fillBase yields bounded
    refine ⟨missing.foldl (fillBase offset index (position - offset) (limit - offset) block) bytes,
      ⟨length, fun place gap after before => ?_, fun place outside => ?_⟩, by simp only [found]⟩
    · exact (filled place).1 ⟨gap, by omega, by omega⟩
    · exact (filled place).2 fun held => outside ⟨held.1, by omega, by omega⟩
  · rename_i untouched
    refine ⟨bytes, ⟨rfl, fun place gap after before => ?_, fun _ _ => rfl⟩, rfl⟩
    obtain ⟨gap, member, within⟩ := gap
    refine absurd (List.any_eq_true.mpr ⟨gap, member, ?_⟩) untouched
    simp only [decide_eq_true_eq]
    omega

/-- The base loop fills every missing position from the position on. -/
theorem readBase_eq_ok (collisionFree : identities.CollisionFree)
    (describes : manifest.Describes identities content)
    (available : ∀ index, Available (blocks index) manifest) (shaped : Shaped size manifest)
    (inside : finish ≤ size) (atBlock : AtBlock offset finish index position remaining)
    (bounded : ∀ gap ∈ missing, gap.2 ≤ bytes.length) :
    ∃ result, readBase blocks manifest offset finish missing (List.range' index (remaining + 1))
        position bytes = .ok result ∧
      BaseRead content offset missing position finish bytes result := by
  induction remaining generalizing index position bytes with
  | zero =>
      obtain ⟨filled, read, round⟩ := readBase_cons collisionFree describes available shaped inside
        atBlock.after atBlock.low atBlock.high atBlock.before bounded []
      have last : min ((index + 1) * blockBytes) finish = finish :=
        Nat.min_eq_right atBlock.enough
      rw [last] at read
      exact ⟨filled, by rw [List.range'_one, round, readBase], read⟩
  | succ remaining inductionHypothesis =>
      obtain ⟨filled, read, round⟩ := readBase_cons collisionFree describes available shaped inside
        atBlock.after atBlock.low atBlock.high atBlock.before bounded (List.range' (index + 1) (remaining + 1))
      have tight := atBlock.tight
      have enough := atBlock.enough
      have more : (index + 1) * blockBytes ≤ (index + (remaining + 1)) * blockBytes :=
        Nat.mul_le_mul_right _ (by omega)
      have limit : min ((index + 1) * blockBytes) finish = (index + 1) * blockBytes :=
        Nat.min_eq_left (more.trans tight.le)
      rw [limit] at read round
      have next : AtBlock offset finish (index + 1) ((index + 1) * blockBytes) remaining := by
        refine ⟨atBlock.after.trans atBlock.high.le, le_rfl, ?_, more.trans_lt tight, ?_, ?_⟩
        · exact mul_lt_succ_mul (index + 1) blockBytes_pos
        · rw [Nat.add_right_comm index 1 remaining, Nat.add_assoc index remaining 1]
          exact enough
        · rw [Nat.add_right_comm index 1 remaining, Nat.add_assoc index remaining 1]
          exact tight
      obtain ⟨result, finished, rest⟩ := inductionHypothesis next (read.length ▸ bounded)
      refine ⟨result, ?_, read.trans rest ⟨atBlock.high.le, more.trans tight.le⟩⟩
      rw [List.range'_succ, round, finished]

end

/-! ### `read_generation` -/

/-- The patch a record writes. -/
def patchOf (payload : Record → Bytes) (record : Record) : Patch UInt8 :=
  ⟨record.start, payload record⟩

section

variable {log : List Record} {payload : Record → Bytes} {content : Nat → UInt8}

theorem patchOf_at?_eq_none {record : Record}
    (sized : record.stop = record.start + (payload record).length) (position : Nat) :
    (patchOf payload record).at? position = none ↔ ¬ record.Covers position := by
  rw [Patch.at?_eq_none, Record.Covers, sized]
  rfl

/-- The first selected payload is what the overlay of the log shows. -/
theorem overlay_eq_firstPayload (ascending : Ascending log)
    (sized : ∀ record ∈ log, record.stop = record.start + (payload record).length)
    {selected : List Record} {generation offset place : Nat}
    (selectedMem : ∀ record ∈ selected, record ∈ log)
    (selects : SelectsNewest selected (fun record => record ∈ log ∧ record.generation ≤ generation)
      (offset + place)) :
    overlay content ((log.filter fun record => record.generation ≤ generation).map (patchOf payload))
        (offset + place) =
      (firstPayload payload offset selected place).getD (content (offset + place)) := by
  have covered : ∀ record ∈ log, payloadAt offset record.start (payload record) place = none ↔
      ¬ record.Covers (offset + place) := fun record member =>
    patchOf_at?_eq_none (sized record member) (offset + place)
  unfold SelectsNewest at selects
  split at selects
  · rename_i record found
    obtain ⟨⟨member, old⟩, covers, newest⟩ := selects
    obtain ⟨byte, known⟩ := Option.ne_none_iff_exists'.mp fun unknown =>
      (covered record member).mp unknown covers
    obtain ⟨-, before, after, rfl, uncovered⟩ := List.find?_eq_some_iff_append.mp found
    have first : firstPayload payload offset (before ++ record :: after) place = some byte := by
      rw [firstPayload, List.findSome?_append, List.findSome?_eq_none_iff.mpr fun other isBefore =>
        (covered other (selectedMem other (by simp [isBefore]))).mpr (by simpa using uncovered other isBefore)]
      simp [known]
    obtain ⟨older, newer, rfl⟩ := List.append_of_mem member
    rw [first, Option.getD_some, List.filter_append, List.filter_cons_of_pos (by simpa using old),
      List.map_append, List.map_cons]
    refine overlay_eq_newest known fun patch isPatch => ?_
    obtain ⟨later, laterMem, rfl⟩ := List.mem_map.mp isPatch
    obtain ⟨laterMem, laterOld⟩ := List.mem_filter.mp laterMem
    have inLog : later ∈ older ++ record :: newer := by simp [laterMem]
    refine (covered later inLog).mpr fun laterCovers => ?_
    have notNewer := newest later ⟨inLog, by simpa using laterOld⟩ laterCovers
    have after := (List.pairwise_cons.mp (List.pairwise_append.mp ascending).2.1).1 later laterMem
    omega
  · rename_i found
    have first : firstPayload payload offset selected place = none :=
      List.findSome?_eq_none_iff.mpr fun other member =>
        (covered other (selectedMem other member)).mpr
          (by simpa using List.find?_eq_none.mp found other member)
    rw [first, Option.getD_none]
    refine overlay_eq_base fun patch isPatch => ?_
    obtain ⟨record, member, rfl⟩ := List.mem_map.mp isPatch
    obtain ⟨inLog, old⟩ := List.mem_filter.mp member
    exact (covered record inLog).mpr (selects record ⟨inLog, by simpa using old⟩)

/-- `read_generation` returns the base overlaid with the records of the
generations it asks for. -/
theorem readGeneration_eq_ok {checksums : Checksums} {disk : LazyDisk Hash}
    (represents : Represents disk.journal.index log) (ascending : Ascending log)
    (readable : ∀ record ∈ log, record.read checksums disk.store = .ok (payload record))
    (sized : ∀ record ∈ log, record.stop = record.start + (payload record).length)
    (collisionFree : identities.CollisionFree) {blocks : Nat → Blocks identities}
    (describes : disk.base.Describes identities content)
    (available : ∀ index, Available (blocks index) disk.base) (shaped : Shaped disk.size disk.base)
    {generation offset count : Nat} (bounded : count ≤ maxIo) (inside : offset + count ≤ disk.size) :
    disk.readGeneration checksums blocks generation offset count =
      .ok (slice (overlay content ((log.filter fun record =>
        record.generation ≤ generation).map (patchOf payload))) offset count) := by
  have checked : disk.check offset count = .ok () := by
    rw [check, if_neg (Nat.not_lt.mpr bounded), if_neg (Nat.not_lt.mpr inside)]
  clear bounded
  unfold readGeneration
  rw [checked]
  dsimp only
  by_cases empty : count = 0
  · subst count
    rfl
  rw [if_neg empty]
  have selected : ∀ record ∈ disk.journal.index.overlapping generation offset (offset + count),
      record ∈ log := fun record member => (overlapping_mem represents member).1
  obtain ⟨filled, read, holds⟩ := @readRecords_empty _ _ _ _ _ offset count
    fun record member => readable record (selected record member)
  rw [read]
  dsimp only
  have value : ∀ place < count, overlay content ((log.filter fun record =>
      record.generation ≤ generation).map (patchOf payload)) (offset + place) =
        (firstPayload payload offset
          (disk.journal.index.overlapping generation offset (offset + count)) place).getD
            (content (offset + place)) := fun place within =>
    overlay_eq_firstPayload ascending sized selected
      (overlapping_selects represents ascending (by omega) (by omega))
  by_cases complete : filled.missing = []
  · rw [if_pos complete]
    refine congrArg Except.ok (eq_slice holds.length fun place within => ?_)
    obtain ⟨byte, known⟩ := Option.ne_none_iff_exists'.mp fun unknown =>
      inGaps_nil place (complete ▸ (holds.missing place within).mpr unknown)
    rw [value place within, holds.filled place within byte known, known, Option.getD_some]
  · rw [if_neg complete]
    obtain ⟨remaining, blocksOfRange, atBlock⟩ := touchedBlocks_atBlock (Nat.pos_of_ne_zero empty) offset
    obtain ⟨result, finished, baseRead⟩ := readBase_eq_ok collisionFree describes available shaped inside
      atBlock (holds.length ▸ holds.bounded)
    rw [blocksOfRange, finished]
    refine congrArg Except.ok (eq_slice (baseRead.length.trans holds.length) fun place within => ?_)
    rw [value place within]
    cases known : firstPayload payload offset
        (disk.journal.index.overlapping generation offset (offset + count)) place with
    | none =>
        rw [Option.getD_none]
        exact baseRead.filled place ((holds.missing place within).mpr known) (by omega) (by omega)
    | some byte =>
        have taken : ¬ InGaps filled.missing place := fun missing =>
          Option.some_ne_none byte (known.symm.trans ((holds.missing place within).mp missing))
        rw [baseRead.frame place fun held => taken held.1, holds.filled place within byte known,
          Option.getD_some]

end

end LazyDisk

end Cairn.Storage.Lazy

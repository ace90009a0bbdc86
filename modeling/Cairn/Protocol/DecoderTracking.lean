import Cairn.Protocol.Packets
import Cairn.Protocol.Reassembly

/-!
Owns what one packet does to a decoder whose transfers are known from outside:
for each transfer under way, how far it has come and whether the decoder has lost
it to a rejection or to its timeout. `Follows` relates a decoder to that
bookkeeping; every packet of a sender that keeps its own order, and every expiry,
keeps the relation, whatever the shared budget answers.

Nothing here fixes who sends, or that a call of the decoder succeeds: the results
say what follows if it answers.
-/

set_option autoImplicit false

namespace Cairn.Protocol.DataChannel

open Cairn.Library.HashMaps

/-- The slice of a payload in the packet at an offset. -/
def slice (payload : Bytes) (offset : Nat) : Bytes :=
  (payload.drop offset).take (min (maxPacket - header) (payload.length - offset))

/-- What has arrived of a transfer under way; `key` names its send. -/
structure Inflight where
  key : Nat
  payload : Bytes
  offset : Nat
deriving DecidableEq

/-- The transfers under way on one channel. -/
abbrev Progress := HashMap UInt32 Inflight

/-- The transfers under way after the slice at an offset. -/
def Progress.place (id : UInt32) (inflight : Inflight) (progress : Progress) : Progress :=
  let offset := inflight.offset + (slice inflight.payload inflight.offset).length
  if offset = inflight.payload.length then progress.erase id
  else progress.insert id { inflight with offset := offset }

/-- The slice at an offset ends its payload. -/
def Completes (payload : Bytes) (offset : Nat) : Prop :=
  offset + (slice payload offset).length = payload.length

instance (payload : Bytes) (offset : Nat) : Decidable (Completes payload offset) := by
  unfold Completes
  infer_instance

theorem Progress.lookup_place (id other : UInt32) (inflight : Inflight) (progress : Progress) :
    (progress.place id inflight).lookup other =
      if other = id then
        if Completes inflight.payload inflight.offset then none
        else some { inflight with
          offset := inflight.offset + (slice inflight.payload inflight.offset).length }
      else progress.lookup other := by
  by_cases completes : Completes inflight.payload inflight.offset
  · have placed : progress.place id inflight = progress.erase id := if_pos completes
    rw [placed, lookup_erase, if_pos completes]
  · have placed : progress.place id inflight = progress.insert id { inflight with
        offset := inflight.offset + (slice inflight.payload inflight.offset).length } :=
      if_neg completes
    rw [placed, lookup_insert, if_neg completes]

/-! ### Slices -/

theorem slice_length (payload : Bytes) (offset : Nat) :
    (slice payload offset).length = min (maxPacket - header) (payload.length - offset) := by
  simp [slice]

theorem slice_length_pos {payload : Bytes} {offset : Nat} (within : offset < payload.length) :
    0 < (slice payload offset).length := by
  have room : 0 < maxPacket - header := by decide
  rw [slice_length]
  omega

theorem slice_within {payload : Bytes} {offset : Nat} (within : offset ≤ payload.length) :
    offset + (slice payload offset).length ≤ payload.length := by
  rw [slice_length]
  omega

theorem take_append_slice (payload : Bytes) (offset : Nat) :
    payload.take offset ++ slice payload offset =
      payload.take (offset + (slice payload offset).length) := by
  rw [slice_length, List.take_add, slice]

/-! ### Following -/

/-- A decoder holds exactly the transfers under way: an assembly of what has
arrived, or the count of what it drains of a lost one. -/
structure Follows (lost : Nat → Prop) (progress : Progress) (decoder : FrameDecoder) : Prop where
  within : ∀ id inflight, progress.lookup id = some inflight →
    0 < inflight.offset ∧ inflight.offset < inflight.payload.length
  assembled : ∀ id inflight, progress.lookup id = some inflight → ¬ lost inflight.key →
    decoder.discarded.lookup id = none ∧ ∃ frame, decoder.pending.lookup id = some frame ∧
      frame.total = inflight.payload.length ∧ frame.bytes = inflight.payload.take inflight.offset
  drained : ∀ id inflight, progress.lookup id = some inflight → lost inflight.key →
    decoder.pending.lookup id = none ∧
      decoder.discarded.lookup id = some ⟨inflight.payload.length, inflight.offset⟩
  nothing : ∀ id, progress.lookup id = none →
    decoder.pending.lookup id = none ∧ decoder.discarded.lookup id = none

variable {lost : Nat → Prop} {progress : Progress} {decoder next : FrameDecoder}

theorem Follows.initial (lost : Nat → Prop) (budget : ReassemblyBudget) :
    Follows lost ∅ (FrameDecoder.withBudget budget) where
  within := fun id inflight found => by simp at found
  assembled := fun id inflight found => by simp at found
  drained := fun id inflight found => by simp at found
  nothing := fun id _ => ⟨AList.lookup_empty id, AList.lookup_empty id⟩

/-- Each transfer under way is in one table of the decoder. -/
theorem Follows.size_eq (follows : Follows lost progress decoder) :
    size progress = size decoder.pending + size decoder.discarded := by
  have keys : progress.keys.Perm (decoder.pending.keys ++ decoder.discarded.keys) := by
    refine (List.perm_ext_iff_of_nodup progress.keys_nodup ?_).mpr fun id => ?_
    · refine decoder.pending.keys_nodup.append decoder.discarded.keys_nodup ?_
      intro id inPending inDiscarded
      have stored := AList.lookup_isSome.mpr inPending
      have draining := AList.lookup_isSome.mpr inDiscarded
      cases found : progress.lookup id with
      | none =>
          rw [(follows.nothing id found).1] at stored
          simp at stored
      | some inflight =>
          by_cases isLost : lost inflight.key
          · rw [(follows.drained id inflight found isLost).1] at stored
            simp at stored
          · rw [(follows.assembled id inflight found isLost).1] at draining
            simp at draining
    · rw [List.mem_append, ← AList.mem_keys, ← AList.mem_keys, ← AList.mem_keys,
        ← AList.lookup_isSome, ← AList.lookup_isSome, ← AList.lookup_isSome]
      cases found : progress.lookup id with
      | none => simp [follows.nothing id found]
      | some inflight =>
          by_cases isLost : lost inflight.key
          · simp [follows.drained id inflight found isLost]
          · obtain ⟨_, frame, stored, _⟩ := follows.assembled id inflight found isLost
            simp [stored]
  have lengths := keys.length_eq
  simpa [size, AList.keys, List.keys] using lengths

/-- The relation where one transfer changes and the others do not. -/
theorem Follows.update (follows : Follows lost progress decoder) {lostNext : Nat → Prop}
    {progressNext : Progress} {id : UInt32}
    (others : ∀ other, other ≠ id → progressNext.lookup other = progress.lookup other ∧
      next.pending.lookup other = decoder.pending.lookup other ∧
      next.discarded.lookup other = decoder.discarded.lookup other)
    (same : ∀ other inflight, other ≠ id → progress.lookup other = some inflight →
      (lostNext inflight.key ↔ lost inflight.key))
    (within : ∀ inflight, progressNext.lookup id = some inflight →
      0 < inflight.offset ∧ inflight.offset < inflight.payload.length)
    (assembled : ∀ inflight, progressNext.lookup id = some inflight → ¬ lostNext inflight.key →
      next.discarded.lookup id = none ∧ ∃ frame, next.pending.lookup id = some frame ∧
        frame.total = inflight.payload.length ∧ frame.bytes = inflight.payload.take inflight.offset)
    (drained : ∀ inflight, progressNext.lookup id = some inflight → lostNext inflight.key →
      next.pending.lookup id = none ∧
        next.discarded.lookup id = some ⟨inflight.payload.length, inflight.offset⟩)
    (nothing : progressNext.lookup id = none →
      next.pending.lookup id = none ∧ next.discarded.lookup id = none) :
    Follows lostNext progressNext next := by
  refine ⟨fun other inflight found => ?_, fun other inflight found isKept => ?_,
    fun other inflight found isLost => ?_, fun other found => ?_⟩
  · by_cases isId : other = id
    · subst isId
      exact within inflight found
    · rw [(others other isId).1] at found
      exact follows.within other inflight found
  · by_cases isId : other = id
    · subst isId
      exact assembled inflight found isKept
    · obtain ⟨sameProgress, samePending, sameDiscarded⟩ := others other isId
      rw [sameProgress] at found
      rw [samePending, sameDiscarded]
      exact follows.assembled other inflight found fun isLost =>
        isKept ((same other inflight isId found).mpr isLost)
  · by_cases isId : other = id
    · subst isId
      exact drained inflight found isLost
    · obtain ⟨sameProgress, samePending, sameDiscarded⟩ := others other isId
      rw [sameProgress] at found
      rw [samePending, sameDiscarded]
      exact follows.drained other inflight found ((same other inflight isId found).mp isLost)
  · by_cases isId : other = id
    · subst isId
      exact nothing found
    · obtain ⟨sameProgress, samePending, sameDiscarded⟩ := others other isId
      rw [sameProgress] at found
      rw [samePending, sameDiscarded]
      exact follows.nothing other found

/-- The decoder's tables differ at most at one transfer. -/
def Elsewhere (id : UInt32) (decoder next : FrameDecoder) : Prop :=
  ∀ other, other ≠ id → next.pending.lookup other = decoder.pending.lookup other ∧
    next.discarded.lookup other = decoder.discarded.lookup other

/-- The relation after a slice of one transfer. -/
theorem Follows.place (follows : Follows lost progress decoder) {lostNext : Nat → Prop}
    {id : UInt32} {inflight : Inflight} (within : inflight.offset < inflight.payload.length)
    (elsewhere : Elsewhere id decoder next)
    (same : ∀ other inflight, other ≠ id → progress.lookup other = some inflight →
      (lostNext inflight.key ↔ lost inflight.key))
    (gone : Completes inflight.payload inflight.offset →
      next.pending.lookup id = none ∧ next.discarded.lookup id = none)
    (assembled : ¬ Completes inflight.payload inflight.offset → ¬ lostNext inflight.key →
      next.discarded.lookup id = none ∧ ∃ frame, next.pending.lookup id = some frame ∧
        frame.total = inflight.payload.length ∧ frame.bytes = inflight.payload.take
          (inflight.offset + (slice inflight.payload inflight.offset).length))
    (drained : ¬ Completes inflight.payload inflight.offset → lostNext inflight.key →
      next.pending.lookup id = none ∧ next.discarded.lookup id = some ⟨inflight.payload.length,
        inflight.offset + (slice inflight.payload inflight.offset).length⟩) :
    Follows lostNext (progress.place id inflight) next := by
  by_cases completes : Completes inflight.payload inflight.offset
  · have placed : progress.place id inflight = progress.erase id := if_pos completes
    have absent : (progress.erase id).lookup id = none := AList.lookup_erase id progress
    rw [placed]
    refine follows.update (fun other different => ⟨AList.lookup_erase_ne different,
      elsewhere other different⟩) same (fun inflight found => ?_) (fun inflight found => ?_)
      (fun inflight found => ?_) fun _ => gone completes
    all_goals
      rw [absent] at found
      cases found
  · have placed : progress.place id inflight = progress.insert id { inflight with
        offset := inflight.offset + (slice inflight.payload inflight.offset).length } :=
      if_neg completes
    rw [placed]
    refine @Follows.update _ _ _ _ follows _ _ id (fun other different => ⟨AList.lookup_insert_ne different,
      elsewhere other different⟩) same (fun other found => ?_) (fun other found kept => ?_)
      (fun other found isLost => ?_) fun absent => ?_
    · obtain rfl := Option.some.inj ((AList.lookup_insert progress).symm.trans found)
      have grows := slice_length_pos within
      have stays := slice_within (Nat.le_of_lt within)
      unfold Completes at completes
      dsimp only
      omega
    · obtain rfl := Option.some.inj ((AList.lookup_insert progress).symm.trans found)
      exact assembled completes kept
    · obtain rfl := Option.some.inj ((AList.lookup_insert progress).symm.trans found)
      exact drained completes isLost
    · rw [AList.lookup_insert] at absent
      cases absent

/-- The relation after a transfer has been abandoned. -/
theorem Follows.erase (follows : Follows lost progress decoder) {id : UInt32}
    (elsewhere : Elsewhere id decoder next) (pending : next.pending.lookup id = none)
    (discarded : next.discarded.lookup id = none) : Follows lost (progress.erase id) next := by
  have absent : (progress.erase id).lookup id = none := AList.lookup_erase id progress
  refine follows.update (fun other different => ⟨AList.lookup_erase_ne different,
    elsewhere other different⟩) (fun _ _ _ _ => Iff.rfl) (fun inflight found => ?_)
    (fun inflight found => ?_) (fun inflight found => ?_) fun _ => ⟨pending, discarded⟩
  all_goals
    rw [absent] at found
    cases found

/-! ### Packets -/

namespace Inflight

/-- The fragment of the slice that comes next. -/
def fragment (id : UInt32) (inflight : Inflight) : Fragment :=
  ⟨id, inflight.payload.length, inflight.offset, slice inflight.payload inflight.offset⟩

variable {id : UInt32} {inflight : Inflight}

theorem not_aborts (within : inflight.offset < inflight.payload.length) :
    ¬ (inflight.fragment id).Aborts := fun aborts => by
  have total : inflight.payload.length = 0 := aborts.1
  omega

theorem not_exceeds (within : inflight.offset < inflight.payload.length) :
    ¬ (inflight.fragment id).Exceeds := by
  have grows := slice_length_pos within
  have stays := slice_within (Nat.le_of_lt within)
  rintro (empty | beyond)
  · have none : slice inflight.payload inflight.offset = [] := empty
    rw [none] at grows
    exact Nat.lt_irrefl 0 grows
  · exact Nat.lt_irrefl _ (Nat.lt_of_lt_of_le beyond stays)

end Inflight

variable {Frame : Type} {codec : Codec Frame} {readings : Readings} {reserved : Reservations}
  {answer : FrameDecoder.Answer Frame} {id : UInt32} {inflight : Inflight} {frame : Frame}

open FrameDecoder

/-- What a decoder answers to the slice of an assembly: the frame if it is complete. -/
def progressAnswer (frame : Frame) (inflight : Inflight) : Except DecodeError (Option Frame) :=
  .ok (if Completes inflight.payload inflight.offset then some frame else none)

/-- An abort takes its transfer out. -/
theorem Follows.abort (follows : Follows lost progress decoder)
    (accepted : decoder.accept codec readings ⟨id, 0, 0, []⟩ reserved = some answer) :
    answer.2 = .ok none ∧ Follows lost (progress.erase id) answer.1.1 := by
  have aborts : (⟨id, 0, 0, []⟩ : Fragment).Aborts := ⟨rfl, rfl, rfl⟩
  rw [accept, if_pos aborts, FrameDecoder.abort] at accepted
  cases stored : decoder.pending.lookup id with
  | none =>
      rw [stored] at accepted
      obtain rfl := Option.some.inj accepted
      refine ⟨rfl, follows.erase (fun other different => ⟨rfl, ?_⟩) stored ?_⟩
      · exact AList.lookup_erase_ne different
      · exact AList.lookup_erase _ _
  | some assembly =>
      rw [stored] at accepted
      obtain ⟨removed, isRemoved, answered⟩ := Option.bind_eq_some_iff.mp accepted
      obtain ⟨pending, discarded⟩ := remove_eq_some isRemoved
      obtain rfl := Option.some.inj answered
      refine ⟨rfl, follows.erase (fun other different => ⟨?_, ?_⟩) ?_ ?_⟩
      · dsimp only
        rw [pending, AList.lookup_erase_ne different]
      · dsimp only
        rw [discarded, AList.lookup_erase_ne different]
      · dsimp only
        rw [pending, AList.lookup_erase]
      · exact AList.lookup_erase _ _

/-- The next slice of a lost transfer is drained. -/
theorem Follows.drain (follows : Follows lost progress decoder)
    (found : progress.lookup id = some inflight) (isLost : lost inflight.key)
    (accepted : decoder.accept codec readings (inflight.fragment id) reserved = some answer) :
    answer.2 = .ok none ∧ Follows lost (progress.place id inflight) answer.1.1 := by
  obtain ⟨_, within⟩ := follows.within id inflight found
  obtain ⟨pending, discarded⟩ := follows.drained id inflight found isLost
  have matching : ¬ (inflight.payload.length ≠ (inflight.fragment id).total ∨
      inflight.offset ≠ (inflight.fragment id).offset) := by simp [Inflight.fragment]
  have discardedHere : decoder.discarded.lookup (inflight.fragment id).id =
      some ⟨inflight.payload.length, inflight.offset⟩ := discarded
  rw [accept, if_neg (Inflight.not_aborts within), if_neg (Inflight.not_exceeds within),
    discardedHere] at accepted
  dsimp only [FrameDecoder.drain] at accepted
  rw [if_neg matching] at accepted
  obtain rfl := Option.some.inj accepted
  refine ⟨rfl, follows.place within (fun other different => ⟨rfl, ?_⟩) (fun _ _ _ _ => Iff.rfl)
    (fun completes => ⟨pending, ?_⟩) (fun _ kept => absurd isLost kept)
    fun incomplete _ => ⟨pending, ?_⟩⟩
  · dsimp only
    split
    · exact AList.lookup_erase_ne different
    · exact AList.lookup_insert_ne different
  · have ends : inflight.offset + (inflight.fragment id).payload.length =
        (inflight.fragment id).total := completes
    dsimp only
    rw [if_pos ends]
    exact AList.lookup_erase _ _
  · have continues : ¬ inflight.offset + (inflight.fragment id).payload.length =
        (inflight.fragment id).total := incomplete
    dsimp only
    rw [if_neg continues]
    exact AList.lookup_insert _

/-- A slice that continues an assembly, first or later. -/
theorem Follows.extend {base : FrameDecoder} (follows : Follows lost progress base)
    (within : inflight.offset < inflight.payload.length)
    (parses : codec.parse inflight.payload = some frame) (kept : ¬ lost inflight.key)
    (elsewhere : Elsewhere id base decoder) (discarded : decoder.discarded.lookup id = none)
    {assembly : Assembly} (stored : decoder.pending.lookup id = some assembly)
    (total : assembly.total = inflight.payload.length)
    (bytes : assembly.bytes = inflight.payload.take inflight.offset)
    (extended : decoder.extend codec readings (inflight.fragment id) reserved = some answer) :
    answer.2 = progressAnswer frame inflight ∧
      Follows lost (progress.place id inflight) answer.1.1 := by
  have length : assembly.bytes.length = inflight.offset := by
    rw [bytes, List.length_take]
    omega
  obtain ⟨sameDiscarded, continues, ends⟩ :=
    extend_matching codec extended stored total length
  have grownBytes : (grown readings (inflight.fragment id) assembly).bytes = inflight.payload.take
      (inflight.offset + (slice inflight.payload inflight.offset).length) := by
    rw [← take_append_slice, ← bytes]
    rfl
  have grownLength : (grown readings (inflight.fragment id) assembly).bytes.length =
      inflight.offset + (slice inflight.payload inflight.offset).length := by
    rw [grownBytes, List.length_take, Nat.min_eq_left (slice_within (Nat.le_of_lt within))]
  by_cases completes : Completes inflight.payload inflight.offset
  · obtain ⟨answered, pending⟩ := ends (grownLength.trans completes)
    refine ⟨?_, follows.place within (fun other different => ⟨?_, ?_⟩) (fun _ _ _ _ => Iff.rfl)
      (fun _ => ⟨?_, ?_⟩) (fun incomplete => absurd completes incomplete)
      fun incomplete => absurd completes incomplete⟩
    · have whole : (grown readings (inflight.fragment id) assembly).bytes = inflight.payload := by
        unfold Completes at completes
        rw [grownBytes, completes, List.take_length]
      rw [answered, whole, decoded, parses, progressAnswer, if_pos completes]
    · rw [pending, ← (elsewhere other different).1]
      exact (AList.lookup_erase_ne different).trans (AList.lookup_insert_ne different)
    · rw [sameDiscarded]
      exact (elsewhere other different).2
    · rw [pending]
      exact AList.lookup_erase _ _
    · rw [sameDiscarded]
      exact discarded
  · obtain ⟨answered, pending⟩ := continues fun complete =>
      completes (grownLength.symm.trans complete)
    refine ⟨?_, follows.place within (fun other different => ⟨?_, ?_⟩) (fun _ _ _ _ => Iff.rfl)
      (fun completed => absurd completed completes) (fun _ _ => ⟨?_, ?_⟩)
      fun _ isLost => absurd isLost kept⟩
    · rw [answered, progressAnswer, if_neg completes]
    · rw [pending, ← (elsewhere other different).1]
      exact AList.lookup_insert_ne different
    · rw [sameDiscarded]
      exact (elsewhere other different).2
    · rw [sameDiscarded]
      exact discarded
    · refine ⟨grown readings (inflight.fragment id) assembly, ?_, total, grownBytes⟩
      rw [pending]
      exact AList.lookup_insert _

/-- The next slice of an assembly. -/
theorem Follows.continues (follows : Follows lost progress decoder)
    (found : progress.lookup id = some inflight) (kept : ¬ lost inflight.key)
    (parses : codec.parse inflight.payload = some frame)
    (accepted : decoder.accept codec readings (inflight.fragment id) reserved = some answer) :
    answer.2 = progressAnswer frame inflight ∧
      Follows lost (progress.place id inflight) answer.1.1 := by
  obtain ⟨begun, within⟩ := follows.within id inflight found
  obtain ⟨discarded, assembly, stored, total, bytes⟩ := follows.assembled id inflight found kept
  have discardedHere : decoder.discarded.lookup (inflight.fragment id).id = none := discarded
  have later : (inflight.fragment id).offset ≠ 0 := Nat.pos_iff_ne_zero.mp begun
  rw [accept, if_neg (Inflight.not_aborts within), if_neg (Inflight.not_exceeds within),
    discardedHere] at accepted
  dsimp only at accepted
  rw [if_neg later] at accepted
  exact follows.extend within parses kept (fun other _ => ⟨rfl, rfl⟩) discarded stored total bytes
    accepted

/-- A first slice under the identifier of a transfer under way is refused. -/
theorem Follows.begin_taken (follows : Follows lost progress decoder) {other : Inflight}
    (found : progress.lookup id = some other) (starts : inflight.offset = 0)
    (within : inflight.offset < inflight.payload.length)
    (accepted : decoder.accept codec readings (inflight.fragment id) reserved = some answer) :
    ∃ message, answer.2 = .error (.invalid message) := by
  obtain ⟨begun, _⟩ := follows.within id other found
  have first : (inflight.fragment id).offset = 0 := starts
  rw [accept, if_neg (Inflight.not_aborts within), if_neg (Inflight.not_exceeds within)] at accepted
  by_cases isLost : lost other.key
  · have discarded : decoder.discarded.lookup (inflight.fragment id).id = some _ :=
      (follows.drained id other found isLost).2
    have mismatch : other.payload.length ≠ (inflight.fragment id).total ∨
        other.offset ≠ (inflight.fragment id).offset := by
      right
      rw [first]
      exact Nat.pos_iff_ne_zero.mp begun
    rw [discarded] at accepted
    dsimp only [FrameDecoder.drain] at accepted
    rw [if_pos mismatch] at accepted
    obtain rfl := Option.some.inj accepted
    exact ⟨_, rfl⟩
  · obtain ⟨discarded, assembly, stored, _⟩ := follows.assembled id other found isLost
    have discardedHere : decoder.discarded.lookup (inflight.fragment id).id = none := discarded
    have pendingHere : (inflight.fragment id).id ∈ decoder.pending :=
      AList.lookup_isSome.mp (by
        show (decoder.pending.lookup id).isSome
        rw [stored]
        rfl)
    rw [discardedHere] at accepted
    dsimp only at accepted
    rw [if_pos first, admitFragment, if_pos (Or.inl pendingHere)] at accepted
    obtain rfl := Option.some.inj accepted
    exact ⟨_, rfl⟩

/-- What a decoder may answer to the first slice of a transfer, and what it then
follows: it has too many transfers, asks to wait, rejects the transfer, or takes it. -/
inductive Begins (codec : Codec Frame) (lost : Nat → Prop) (progress : Progress) (id : UInt32)
    (inflight : Inflight) (frame : Frame) : FrameDecoder → Except DecodeError (Option Frame) → Prop
  | tooMany (next : FrameDecoder) (message : String) (many : maxInFlight ≤ size progress) :
      Begins codec lost progress id inflight frame next (.error (.invalid message))
  | busy (next : FrameDecoder) (follows : Follows lost progress next) :
      Begins codec lost progress id inflight frame next (.error .busy)
  | rejected (next : FrameDecoder)
      (follows : Follows (fun key => lost key ∨ key = inflight.key) (progress.place id inflight) next) :
      Begins codec lost progress id inflight frame next
        (.error (.rejected (codec.requestIdPrefix (slice inflight.payload inflight.offset))))
  | taken (next : FrameDecoder) (follows : Follows lost (progress.place id inflight) next) :
      Begins codec lost progress id inflight frame next (progressAnswer frame inflight)

theorem claim_error {decoder : FrameDecoder} {total : Nat} {error : DecodeError}
    (refused : decoder.claim total reserved = .error error) : error = .busy := by
  unfold claim ReassemblyBudget.reserve at refused
  split at refused
  · exact (Except.error.inj refused).symm
  · dsimp only at refused
    split at refused
    · exact (Except.error.inj refused).symm
    · cases refused

/-- The first slice of a transfer whose identifier is free. -/
theorem Follows.begins (follows : Follows lost progress decoder)
    (free : progress.lookup id = none) (starts : inflight.offset = 0)
    (within : inflight.offset < inflight.payload.length) (kept : ¬ lost inflight.key)
    (fresh : ∀ other inflight', progress.lookup other = some inflight' →
      inflight'.key ≠ inflight.key)
    (parses : codec.parse inflight.payload = some frame)
    (accepted : decoder.accept codec readings (inflight.fragment id) reserved = some answer) :
    Begins codec lost progress id inflight frame answer.1.1 answer.2 := by
  obtain ⟨pending, discarded⟩ := follows.nothing id free
  have first : (inflight.fragment id).offset = 0 := starts
  have discardedHere : decoder.discarded.lookup (inflight.fragment id).id = none := discarded
  have absent : (inflight.fragment id).id ∉ decoder.pending := AList.lookup_eq_none.mp pending
  rw [accept, if_neg (Inflight.not_aborts within), if_neg (Inflight.not_exceeds within),
    discardedHere] at accepted
  dsimp only at accepted
  rw [if_pos first, admitFragment] at accepted
  split at accepted
  · rename_i refused
    have many := refused.resolve_left absent
    rw [← follows.size_eq] at many
    obtain rfl := Option.some.inj accepted
    exact .tooMany _ _ many
  split at accepted
  · -- a complete member frame is decoded without an assembly
    rename_i whole
    have length : (slice inflight.payload inflight.offset).length = inflight.payload.length := whole.2
    have completes : Completes inflight.payload inflight.offset := by
      unfold Completes
      rw [starts] at length ⊢
      omega
    have payload : (inflight.fragment id).payload = inflight.payload := by
      have taken := take_append_slice inflight.payload inflight.offset
      unfold Completes at completes
      rw [completes, List.take_length, starts, List.take_zero, List.nil_append] at taken
      unfold Inflight.fragment
      rw [starts]
      exact taken
    have answered : decoded codec (inflight.fragment id).payload = progressAnswer frame inflight := by
      rw [payload, decoded, parses, progressAnswer, if_pos completes]
    rw [answered] at accepted
    obtain rfl := Option.some.inj accepted
    refine .taken _ (follows.place within (fun other _ => ⟨rfl, rfl⟩) (fun _ _ _ _ => Iff.rfl)
      (fun _ => ⟨pending, discarded⟩) (fun incomplete => absurd completes incomplete)
      fun incomplete => absurd completes incomplete)
  split at accepted
  · rename_i room _
    have elsewhere : Elsewhere id decoder { decoder with
        pending := decoder.pending.insert (inflight.fragment id).id
          ⟨(inflight.fragment id).total, (inflight.fragment id).total, [], readings.admitted⟩ } :=
      fun other different => ⟨AList.lookup_insert_ne different, rfl⟩
    have empty : ([] : Bytes) = inflight.payload.take inflight.offset := by
      rw [starts, List.take_zero]
    obtain ⟨answered, follows⟩ := follows.extend within parses kept elsewhere discarded
      (AList.lookup_insert _) rfl empty accepted
    rw [answered]
    exact .taken _ follows
  · rename_i error refused
    obtain rfl := claim_error refused
    split at accepted
    · obtain rfl := Option.some.inj accepted
      refine .rejected _ (follows.place within (fun other different => ⟨rfl, ?_⟩) ?_ ?_ ?_ ?_)
      · dsimp only
        split
        · exact AList.lookup_insert_ne different
        · rfl
      · intro other inflight' _ found
        constructor
        · rintro (isLost | same)
          · exact isLost
          · exact absurd same (fresh other inflight' found)
        · exact Or.inl
      · intro completes
        have whole : ¬ (inflight.fragment id).payload.length < (inflight.fragment id).total := by
          unfold Completes at completes
          rw [starts, Nat.zero_add] at completes
          show ¬ (slice inflight.payload inflight.offset).length < inflight.payload.length
          rw [starts]
          omega
        dsimp only
        rw [if_neg whole]
        exact ⟨pending, discarded⟩
      · intro _ notLost
        exact absurd (Or.inr rfl) notLost
      · intro incomplete _
        have partly : (inflight.fragment id).payload.length < (inflight.fragment id).total := by
          have bound := slice_within (Nat.le_of_lt within)
          unfold Completes at incomplete
          show (slice inflight.payload inflight.offset).length < inflight.payload.length
          omega
        dsimp only
        rw [if_pos partly]
        refine ⟨pending, ?_⟩
        rw [starts, Nat.zero_add]
        have inserted := AList.lookup_insert (a := id) (b := (⟨(inflight.fragment id).total,
          (inflight.fragment id).payload.length⟩ : Discarded)) decoder.discarded
        rw [← starts]
        exact inserted
    · obtain rfl := Option.some.inj accepted
      exact .busy _ follows

/-! ### Expiry -/

/-- Giving up stored assemblies moves exactly these to the table of discarded transfers. -/
theorem discardAll_tables {entries : List ((_ : UInt32) × Assembly)}
    {state final : FrameDecoder × Reservations} (distinct : entries.NodupKeys)
    (finished : entries.foldlM discard state = some final) :
    (∀ entry ∈ entries, final.1.pending.lookup entry.1 = none ∧
      final.1.discarded.lookup entry.1 = some ⟨entry.2.total, entry.2.bytes.length⟩) ∧
    ∀ id, id ∉ entries.keys → final.1.pending.lookup id = state.1.pending.lookup id ∧
      final.1.discarded.lookup id = state.1.discarded.lookup id := by
  induction entries generalizing state with
  | nil =>
      obtain rfl := Option.some.inj finished
      exact ⟨fun entry member => absurd member List.not_mem_nil, fun _ _ => ⟨rfl, rfl⟩⟩
  | cons head rest inductionHypothesis =>
      obtain ⟨absent, distinct⟩ := List.nodupKeys_cons.mp distinct
      rw [List.foldlM_cons, Option.bind_eq_bind] at finished
      obtain ⟨middle, discarded, finished⟩ := Option.bind_eq_some_iff.mp finished
      obtain ⟨removed, isRemoved, isMiddle⟩ := Option.bind_eq_some_iff.mp discarded
      obtain ⟨pending, drained⟩ := remove_eq_some isRemoved
      obtain rfl := Option.some.inj isMiddle
      obtain ⟨visited, others⟩ := inductionHypothesis distinct finished
      refine ⟨fun entry member => ?_, fun id outside => ?_⟩
      · rcases List.mem_cons.mp member with rfl | later
        · obtain ⟨samePending, sameDiscarded⟩ := others entry.1 absent
          rw [samePending, sameDiscarded]
          dsimp only
          rw [pending]
          exact ⟨AList.lookup_erase _ _, AList.lookup_insert _⟩
        · exact visited entry later
      · rw [List.keys_cons, List.mem_cons, not_or] at outside
        obtain ⟨samePending, sameDiscarded⟩ := others id outside.2
        rw [samePending, sameDiscarded]
        dsimp only
        rw [pending, drained]
        exact ⟨AList.lookup_erase_ne outside.1, AList.lookup_insert_ne outside.1⟩

/-- The send of a transfer that an expiry gives up. -/
def GivenUp (readings : Readings) (decoder : FrameDecoder) (progress : Progress) (key : Nat) : Prop :=
  ∃ entry ∈ decoder.overdue readings, ∃ inflight, progress.lookup entry.1 = some inflight ∧
    inflight.key = key

/-- Each transfer under way is of a send of its own. -/
def Progress.Apart (progress : Progress) : Prop :=
  ∀ first second left right, progress.lookup first = some left →
    progress.lookup second = some right → left.key = right.key → first = second

/-- An expiry loses the transfers it gives up and no other. -/
theorem Follows.expire (follows : Follows lost progress decoder) (apart : progress.Apart)
    {final : FrameDecoder × Reservations}
    (expired : decoder.expire readings reserved = some final) :
    Follows (fun key => lost key ∨ GivenUp readings decoder progress key) progress final.1 := by
  obtain ⟨distinct, stored⟩ := visits_filter decoder fun entry =>
    decide ¬ readings.visited entry.1 - entry.2.lastProgress < requestTimeout
  obtain ⟨visited, others⟩ := discardAll_tables distinct expired
  have outside : ∀ id, decoder.pending.lookup id = none → id ∉ (decoder.overdue readings).keys := by
    intro id absent inside
    obtain ⟨frame, member⟩ := List.exists_of_mem_keys inside
    have found := stored _ member
    dsimp only at found
    rw [absent] at found
    cases found
  refine ⟨follows.within, fun id inflight found kept => ?_, fun id inflight found isLost => ?_,
    fun id absent => ?_⟩
  · rw [not_or] at kept
    have unvisited : id ∉ (decoder.overdue readings).keys := fun inside => by
      obtain ⟨frame, member⟩ := List.exists_of_mem_keys inside
      exact kept.2 ⟨⟨id, frame⟩, member, inflight, found, rfl⟩
    obtain ⟨samePending, sameDiscarded⟩ := others id unvisited
    rw [samePending, sameDiscarded]
    exact follows.assembled id inflight found kept.1
  · by_cases wasLost : lost inflight.key
    · obtain ⟨pending, discarded⟩ := follows.drained id inflight found wasLost
      obtain ⟨samePending, sameDiscarded⟩ := others id (outside id pending)
      rw [samePending, sameDiscarded]
      exact ⟨pending, discarded⟩
    · obtain ⟨entry, member, other, isOther, sameKey⟩ := isLost.resolve_left wasLost
      have sameId := apart entry.1 id other inflight isOther found sameKey
      obtain ⟨pending, discarded⟩ := visited entry member
      obtain ⟨_, frame, assembled, total, bytes⟩ := follows.assembled id inflight found wasLost
      have isFrame : frame = entry.2 := by
        have here := stored entry member
        rw [sameId] at here
        exact Option.some.inj (assembled.symm.trans here)
      have length : entry.2.bytes.length = inflight.offset := by
        have inside := (follows.within id inflight found).2
        rw [← isFrame, bytes, List.length_take]
        omega
      rw [← sameId]
      refine ⟨pending, ?_⟩
      rw [discarded, length, ← isFrame, total]
  · obtain ⟨pending, discarded⟩ := follows.nothing id absent
    obtain ⟨samePending, sameDiscarded⟩ := others id (outside id pending)
    rw [samePending, sameDiscarded]
    exact ⟨pending, discarded⟩

end Cairn.Protocol.DataChannel

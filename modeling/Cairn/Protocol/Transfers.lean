import Cairn.Protocol.Packets
import Cairn.Protocol.Reassembly

/-!
Owns the round trip of frames through a data channel: any interleaving of the
packets of encoded frames, each frame's own packets in order and possibly cut
off by an abort, is reassembled into exactly the frames whose last packet
arrived. `reassembly_round_trip` is the main result; what a transfer that pauses
too long loses is stated next to it.
-/

set_option autoImplicit false

namespace Cairn.Protocol.DataChannel

open Cairn.Library.HashMaps EncodedFrame

variable {Frame : Type}

/-- The JSON of a frame is not empty and reads back. -/
structure Codec.Lawful (codec : Codec Frame) : Prop where
  nonempty : ∀ frame bytes, codec.serialize frame = some bytes → bytes ≠ []
  roundTrip : ∀ frame bytes, codec.serialize frame = some bytes → codec.parse bytes = some frame

/-- A frame and what it was encoded to. -/
structure Transfer (codec : Codec Frame) where
  frame : Frame
  encoded : EncodedFrame
  isNew : EncodedFrame.new codec encoded.id frame = .ok encoded

namespace Transfer

variable {codec : Codec Frame}

/-- The identifier of the transfer. -/
def id (transfer : Transfer codec) : UInt32 := transfer.encoded.id

/-- The declared total. -/
def total (transfer : Transfer codec) : Nat := transfer.encoded.bytes.length

theorem isNew_iff (transfer : Transfer codec) :
    codec.serialize transfer.frame = some transfer.encoded.bytes ∧
      transfer.id ≠ 0 ∧ transfer.total ≤ maxFrame := by
  have isNew := transfer.isNew
  unfold EncodedFrame.new at isNew
  split at isNew
  · simp at isNew
  · rename_i bytes serialized
    split at isNew
    · simp at isNew
    · rename_i valid
      push Not at valid
      have sameBytes := congrArg EncodedFrame.bytes (Except.ok.inj isNew)
      dsimp only at sameBytes
      unfold Transfer.id Transfer.total
      rw [← sameBytes]
      exact ⟨serialized, valid⟩

theorem total_pos (lawful : codec.Lawful) (transfer : Transfer codec) : 0 < transfer.total :=
  List.length_pos_of_ne_nil (lawful.nonempty _ _ transfer.isNew_iff.1)

theorem packetCount_pos (lawful : codec.Lawful) (transfer : Transfer codec) :
    0 < transfer.encoded.packetCount := by
  have total := transfer.total_pos lawful
  exact lt_packetCount.mpr (by rw [Nat.zero_mul]; exact total)

/-- The fragment of a packet of the transfer. -/
theorem fragment_packetAt (transfer : Transfer codec) {index : Nat}
    (within : index < transfer.encoded.packetCount) :
    fragment (transfer.encoded.packetAt index) =
      .ok ⟨transfer.id, transfer.total, index * chunkSize, chunk transfer.encoded.bytes index⟩ := by
  obtain ⟨_, nonzero, totalFits⟩ := transfer.isNew_iff
  have inside := lt_packetCount.mp within
  refine fragment_packet nonzero totalFits ?_ ?_
  · unfold Transfer.total at totalFits
    omega
  · rw [chunk_length]
    exact Nat.min_le_left _ _

end Transfer

/-! ### Arrivals -/

/-- A packet that reaches the decoder, with the clock readings of the call and
the shared counters at that moment. -/
structure Arrival where
  id : UInt32
  packet : Bytes
  readings : Readings
  reserved : Reservations

/-- The packets of one transfer, in order of arrival. -/
def packetsOf (id : UInt32) (arrivals : List Arrival) : List Bytes :=
  (arrivals.filter fun arrival => arrival.id = id).map Arrival.packet

theorem packetsOf_append (id : UInt32) (first second : List Arrival) :
    packetsOf id (first ++ second) = packetsOf id first ++ packetsOf id second := by
  simp [packetsOf]

theorem packetsOf_snoc (id : UInt32) (before : List Arrival) (arrival : Arrival) :
    packetsOf id (before ++ [arrival]) =
      if arrival.id = id then packetsOf id before ++ [arrival.packet] else packetsOf id before := by
  by_cases same : arrival.id = id <;> simp [packetsOf, same]

/-- When a transfer last made progress. -/
def lastProgress (id : UInt32) (arrivals : List Arrival) : Nat :=
  ((arrivals.filter fun arrival => arrival.id = id).getLast?.map
    fun arrival => arrival.readings.progressed).getD 0

theorem lastProgress_snoc (id : UInt32) (before : List Arrival) (arrival : Arrival) :
    lastProgress id (before ++ [arrival]) =
      if arrival.id = id then arrival.readings.progressed else lastProgress id before := by
  by_cases same : arrival.id = id <;> simp [lastProgress, same]

variable {codec : Codec Frame}

/-- What arrives of one transfer: some of its packets in order, and then nothing
but aborts. -/
def Sends (transfer : Transfer codec) (packets : List Bytes) : Prop :=
  ∃ count aborts, packets =
    transfer.encoded.packets.take count ++ List.replicate aborts (abortPacket transfer.id)

/-- An interleaving of the packets of some transfers. -/
structure Interleaving (transfers : List (Transfer codec)) (arrivals : List Arrival) : Prop where
  known : ∀ arrival ∈ arrivals, ∃ transfer ∈ transfers, transfer.id = arrival.id
  ordered : ∀ transfer ∈ transfers, Sends transfer (packetsOf transfer.id arrivals)

/-- The transfer has begun and is neither finished nor aborted. -/
def Incomplete (transfer : Transfer codec) (arrivals : List Arrival) : Prop :=
  packetsOf transfer.id arrivals ≠ [] ∧
  (packetsOf transfer.id arrivals).length < transfer.encoded.packetCount ∧
  abortPacket transfer.id ∉ packetsOf transfer.id arrivals

instance (transfer : Transfer codec) (arrivals : List Arrival) :
    Decidable (Incomplete transfer arrivals) := by
  unfold Incomplete
  infer_instance

/-- The transfers under way. -/
def incomplete (transfers : List (Transfer codec)) (arrivals : List Arrival) :
    List (Transfer codec) :=
  transfers.filter fun transfer => Incomplete transfer arrivals

/-- The declared totals of the transfers under way. -/
def incompleteTotal (transfers : List (Transfer codec)) (arrivals : List Arrival) : Nat :=
  ((incomplete transfers arrivals).map Transfer.total).sum

/-- The shared counters leave room for a reservation. -/
def Reservations.Leaves (reserved : Reservations) (budget : ReassemblyBudget) (bytes : Nat) :
    Prop :=
  reserved.total + bytes ≤ 2 * maxFrame ∧ getD reserved.accounts budget.account 0 + bytes ≤ maxFrame ∧
    (budget.member = true → reserved.members + bytes ≤ maxFrame)

/-- The counters include what is under way, and a transfer that begins finds room
in them, in the decoder's own share and among the transfers under way. -/
structure Fits (budget : ReassemblyBudget) (transfers : List (Transfer codec))
    (before : List Arrival) (arrival : Arrival) : Prop where
  covers : ∃ rest, Covers rest budget (incompleteTotal transfers before) arrival.reserved
  within : arrival.reserved.Within
  room : ∀ transfer ∈ transfers, transfer.id = arrival.id → packetsOf arrival.id before = [] →
    arrival.packet ≠ abortPacket arrival.id →
      (incomplete transfers before).length < maxInFlight ∧
      incompleteTotal transfers before + transfer.total ≤ maxFrame ∧
      arrival.reserved.Leaves budget transfer.total

/-- No transfer under way has been without progress for the timeout. -/
def Punctual (transfers : List (Transfer codec)) (before : List Arrival) (arrival : Arrival) :
    Prop :=
  ∀ transfer ∈ incomplete transfers before,
    arrival.readings.visited transfer.id - lastProgress transfer.id before < requestTimeout

variable (codec)

/-- The decoder and its answers over a sequence of packets. -/
def receive (decoder : FrameDecoder) :
    List Arrival → Option (FrameDecoder × List (Except DecodeError (Option Frame)))
  | [] => some (decoder, [])
  | arrival :: rest => do
      let (state, answer) ← decoder.push codec arrival.readings arrival.packet arrival.reserved
      let (last, answers) ← receive state.1 rest
      some (last, answer :: answers)

variable {codec}

/-- The frame a packet completes. -/
def completed (transfers : List (Transfer codec)) (packet : Bytes) : Option Frame :=
  (transfers.find? fun transfer => transfer.encoded.packets.getLast? = some packet).map
    Transfer.frame

/-! ### The order of arrivals -/

namespace Transfer

theorem packetAt_ne_abort (lawful : codec.Lawful) (transfer : Transfer codec) {index : Nat}
    (within : index < transfer.encoded.packetCount) {id : UInt32} (nonzero : id ≠ 0) :
    transfer.encoded.packetAt index ≠ abortPacket id := by
  intro same
  have asPacket := transfer.fragment_packetAt within
  rw [same, fragment_abortPacket nonzero] at asPacket
  have total : 0 = transfer.total := congrArg Fragment.total (Except.ok.inj asPacket)
  have positive := transfer.total_pos lawful
  omega

/-- A packet says which transfer it is of and where it stands. -/
theorem packetAt_inj {transfer other : Transfer codec} {index place : Nat}
    (within : index < transfer.encoded.packetCount) (placed : place < other.encoded.packetCount)
    (same : transfer.encoded.packetAt index = other.encoded.packetAt place) :
    transfer.id = other.id ∧ index = place := by
  have first := transfer.fragment_packetAt within
  rw [same, other.fragment_packetAt placed] at first
  have fields := Except.ok.inj first
  refine ⟨(congrArg Fragment.id fields).symm, ?_⟩
  have offsets : place * chunkSize = index * chunkSize := congrArg Fragment.offset fields
  exact (Nat.mul_right_cancel chunkSize_pos offsets).symm

theorem take_packets_length {transfer : Transfer codec} {index : Nat}
    (within : index ≤ transfer.encoded.packetCount) :
    (transfer.encoded.packets.take index).length = index := by
  rw [List.length_take, packets_length]
  omega

theorem abort_notMem_take (lawful : codec.Lawful) (transfer : Transfer codec) (count : Nat) :
    abortPacket transfer.id ∉ transfer.encoded.packets.take count := by
  intro member
  obtain ⟨index, found⟩ := List.mem_iff_getElem?.mp (List.mem_of_mem_take member)
  have within : index < transfer.encoded.packetCount := by
    rw [← packets_length]
    exact (List.getElem?_eq_some_iff.mp found).1
  rw [packets_getElem? within] at found
  exact transfer.packetAt_ne_abort lawful within transfer.isNew_iff.2.1 (Option.some.inj found)

end Transfer

/-- What arrives next of a transfer: an abort, or the packet after those that
have arrived. -/
theorem Sends.follows {transfer : Transfer codec} {before after : List Bytes} {packet : Bytes}
    (sends : Sends transfer (before ++ packet :: after)) :
    packet = abortPacket transfer.id ∨ ∃ index < transfer.encoded.packetCount,
      packet = transfer.encoded.packetAt index ∧
        before = transfer.encoded.packets.take index := by
  obtain ⟨count, aborts, whole⟩ := sends
  have here : (transfer.encoded.packets.take count ++
      List.replicate aborts (abortPacket transfer.id))[before.length]? = some packet := by
    rw [← whole]
    simp
  by_cases early : before.length < (transfer.encoded.packets.take count).length
  · rw [List.getElem?_append_left early, List.getElem?_take] at here
    rw [List.length_take, packets_length] at early
    rw [if_pos (by omega), packets_getElem? (by omega)] at here
    refine Or.inr ⟨before.length, by omega, (Option.some.inj here).symm, ?_⟩
    have start := congrArg (List.take before.length) whole
    rw [List.take_left,
      List.take_append_of_le_length (by rw [List.length_take, packets_length]; omega),
      List.take_take, Nat.min_eq_left (by omega)] at start
    exact start
  · rw [List.getElem?_append_right (Nat.not_lt.mp early)] at here
    exact Or.inl (List.eq_of_mem_replicate (List.mem_of_getElem? here))

/-- A transfer under way has sent exactly its first packets. -/
theorem Sends.underway {transfer : Transfer codec} {before after : List Bytes}
    (sends : Sends transfer (before ++ after)) (unaborted : abortPacket transfer.id ∉ before) :
    before = transfer.encoded.packets.take before.length := by
  obtain ⟨count, aborts, whole⟩ := sends
  have start := congrArg (List.take before.length) whole
  rw [List.take_left, List.take_append] at start
  by_cases short : before.length ≤ (transfer.encoded.packets.take count).length
  · rw [Nat.sub_eq_zero_of_le short, List.take_zero, List.append_nil, List.take_take] at start
    rw [List.length_take] at short
    rwa [Nat.min_eq_left (by omega)] at start
  · refine absurd ?_ unaborted
    have bound := congrArg List.length whole
    simp only [List.length_append, List.length_replicate] at bound
    rw [start, List.mem_append, List.take_replicate]
    exact Or.inr (List.mem_replicate.mpr ⟨by omega, rfl⟩)

/-! ### The decoder between two arrivals -/

/-- What the decoder keeps of a transfer under way. -/
def assembly (transfer : Transfer codec) (before : List Arrival) : Assembly where
  reservation := transfer.total
  total := transfer.total
  bytes := transfer.encoded.bytes.take ((packetsOf transfer.id before).length * chunkSize)
  lastProgress := lastProgress transfer.id before

/-- The decoder holds the transfers under way and nothing else. -/
structure Receives (budget : ReassemblyBudget) (transfers : List (Transfer codec))
    (before : List Arrival) (decoder : FrameDecoder) : Prop where
  handle : decoder.budget = budget
  sound : decoder.Sound
  discarded : decoder.discarded = ∅
  stored : ∀ transfer ∈ transfers, Incomplete transfer before →
    decoder.pending.lookup transfer.id = some (assembly transfer before)
  only : ∀ id frame, decoder.pending.lookup id = some frame →
    ∃ transfer ∈ transfers, transfer.id = id ∧ Incomplete transfer before

/-- Different transfers have different identifiers. -/
def Distinct (transfers : List (Transfer codec)) : Prop := (transfers.map Transfer.id).Nodup

theorem Distinct.eq {transfers : List (Transfer codec)} (distinct : Distinct transfers)
    {first second : Transfer codec} (inFirst : first ∈ transfers) (inSecond : second ∈ transfers)
    (same : first.id = second.id) : first = second :=
  List.inj_on_of_nodup_map distinct inFirst inSecond same

variable {budget : ReassemblyBudget} {transfers : List (Transfer codec)} {before : List Arrival}
  {decoder : FrameDecoder}

theorem Receives.initial (budget : ReassemblyBudget) (transfers : List (Transfer codec)) :
    Receives budget transfers [] (FrameDecoder.withBudget budget) where
  handle := rfl
  sound := ⟨fun id frame found => by simp [FrameDecoder.withBudget] at found, rfl⟩
  discarded := rfl
  stored := fun transfer _ underway => absurd rfl underway.1
  only := fun id frame found => by simp [FrameDecoder.withBudget] at found

/-- The entries of the decoder, one for each transfer under way. -/
theorem Receives.entries (receives : Receives budget transfers before decoder)
    (distinct : Distinct transfers) :
    decoder.pending.entries.Perm ((incomplete transfers before).map fun transfer =>
      (⟨transfer.id, assembly transfer before⟩ : (_ : UInt32) × Assembly)) := by
  have keys : ((incomplete transfers before).map Transfer.id).Nodup :=
    distinct.sublist (List.filter_sublist.map _)
  refine (List.perm_ext_iff_of_nodup decoder.pending.nodupKeys.nodup ?_).mpr fun entry => ?_
  · refine List.Nodup.of_map Sigma.fst ?_
    rw [List.map_map]
    exact keys
  · rw [← AList.mem_lookup_iff, Option.mem_def, List.mem_map]
    constructor
    · intro found
      obtain ⟨transfer, member, same, underway⟩ := receives.only entry.1 entry.2 found
      have stored := receives.stored transfer member underway
      rw [same, found] at stored
      exact ⟨transfer, List.mem_filter.mpr ⟨member, by simpa using underway⟩,
        Sigma.ext same (heq_of_eq (Option.some.inj stored).symm)⟩
    · rintro ⟨transfer, member, rfl⟩
      obtain ⟨member, underway⟩ := List.mem_filter.mp member
      exact receives.stored transfer member (by simpa using underway)

theorem Receives.size_pending (receives : Receives budget transfers before decoder)
    (distinct : Distinct transfers) :
    size decoder.pending = (incomplete transfers before).length := by
  unfold size
  rw [(receives.entries distinct).length_eq, List.length_map]

theorem Receives.sum_pending (receives : Receives budget transfers before decoder)
    (distinct : Distinct transfers) (quantity : Assembly → Nat)
    (isTotal : ∀ transfer : Transfer codec, quantity (assembly transfer before) = transfer.total) :
    sum quantity decoder.pending = incompleteTotal transfers before := by
  unfold sum incompleteTotal
  rw [((receives.entries distinct).map _).sum_eq, List.map_map]
  exact congrArg List.sum (List.map_congr_left fun transfer _ => isTotal transfer)

/-- Without a pause nothing is given up. -/
theorem Receives.expire (receives : Receives budget transfers before decoder) {arrival : Arrival}
    (punctual : Punctual transfers before arrival) (reserved : Reservations) :
    decoder.expire arrival.readings reserved = some (decoder, reserved) := by
  have nothing : decoder.overdue arrival.readings = [] := by
    refine List.filter_eq_nil_iff.mpr fun entry member => ?_
    have found : decoder.pending.lookup entry.1 = some entry.2 := AList.mem_lookup_iff.mpr member
    obtain ⟨transfer, isTransfer, same, underway⟩ := receives.only entry.1 entry.2 found
    have stored := receives.stored transfer isTransfer underway
    rw [same, found] at stored
    have recent := punctual transfer (List.mem_filter.mpr ⟨isTransfer, by simpa using underway⟩)
    rw [Option.some.inj stored, ← same]
    simpa [assembly] using recent
  rw [FrameDecoder.expire, nothing]
  rfl

/-- A decoder that differs only at the transfer of the arrival receives it. -/
theorem Receives.advance (receives : Receives budget transfers before decoder)
    (distinct : Distinct transfers) {arrival : Arrival} {next : FrameDecoder}
    {transfer : Transfer codec} (member : transfer ∈ transfers) (isId : transfer.id = arrival.id)
    (handle : next.budget = budget) (sound : next.Sound) (discarded : next.discarded = ∅)
    (others : ∀ other, other ≠ transfer.id →
      next.pending.lookup other = decoder.pending.lookup other)
    (stored : Incomplete transfer (before ++ [arrival]) →
      next.pending.lookup transfer.id = some (assembly transfer (before ++ [arrival])))
    (gone : ¬ Incomplete transfer (before ++ [arrival]) →
      next.pending.lookup transfer.id = none) :
    Receives budget transfers (before ++ [arrival]) next := by
  have unchanged : ∀ other : Transfer codec, other.id ≠ transfer.id →
      packetsOf other.id (before ++ [arrival]) = packetsOf other.id before ∧
        lastProgress other.id (before ++ [arrival]) = lastProgress other.id before := by
    intro other different
    rw [packetsOf_snoc, lastProgress_snoc, ← isId, if_neg (Ne.symm different),
      if_neg (Ne.symm different)]
    exact ⟨rfl, rfl⟩
  refine ⟨handle, sound, discarded, fun other inTransfers underway => ?_, fun id frame found => ?_⟩
  · by_cases same : other.id = transfer.id
    · obtain rfl := distinct.eq inTransfers member same
      exact stored underway
    · obtain ⟨packets, progress⟩ := unchanged other same
      unfold Incomplete at underway
      rw [packets] at underway
      rw [others other.id same, receives.stored other inTransfers underway]
      simp only [assembly, packets, progress]
  · by_cases same : id = transfer.id
    · refine ⟨transfer, member, same.symm, ?_⟩
      by_contra ended
      rw [same, gone ended] at found
      simp at found
    · rw [others id same] at found
      obtain ⟨other, inTransfers, isOther, underway⟩ := receives.only id frame found
      obtain ⟨packets, _⟩ := unchanged other (isOther ▸ same)
      refine ⟨other, inTransfers, isOther, ?_⟩
      unfold Incomplete at *
      rwa [packets]

/-! ### Completed frames -/

theorem getLast?_packets (lawful : codec.Lawful) (transfer : Transfer codec) :
    transfer.encoded.packets.getLast? =
      some (transfer.encoded.packetAt (transfer.encoded.packetCount - 1)) := by
  have positive := transfer.packetCount_pos lawful
  rw [List.getLast?_eq_getElem?, packets_length]
  exact packets_getElem? (by omega)

/-- A packet completes a frame if it is the last one of its transfer. -/
theorem completed_packetAt (lawful : codec.Lawful) (distinct : Distinct transfers)
    {transfer : Transfer codec} (member : transfer ∈ transfers) {index : Nat}
    (within : index < transfer.encoded.packetCount) :
    completed transfers (transfer.encoded.packetAt index) =
      if index + 1 = transfer.encoded.packetCount then some transfer.frame else none := by
  have isLast : ∀ other ∈ transfers,
      other.encoded.packets.getLast? = some (transfer.encoded.packetAt index) →
        other = transfer ∧ index + 1 = transfer.encoded.packetCount := by
    intro other inTransfers last
    have positive := other.packetCount_pos lawful
    rw [getLast?_packets lawful] at last
    obtain ⟨sameId, sameIndex⟩ :=
      Transfer.packetAt_inj (by omega) within (Option.some.inj last)
    obtain rfl := distinct.eq inTransfers member sameId
    exact ⟨rfl, by omega⟩
  unfold completed
  cases found : transfers.find? fun other =>
      other.encoded.packets.getLast? = some (transfer.encoded.packetAt index) with
  | none =>
      rw [if_neg]
      · rfl
      · intro ends
        have unmatched := List.find?_eq_none.mp found transfer member
        rw [getLast?_packets lawful, ← ends] at unmatched
        simp at unmatched
  | some other =>
      obtain ⟨rfl, ends⟩ := isLast other (List.mem_of_find?_eq_some found)
        (by simpa using List.find?_some found)
      rw [if_pos ends]
      rfl

theorem completed_abort (lawful : codec.Lawful) {id : UInt32} (nonzero : id ≠ 0) :
    completed transfers (abortPacket id) = none := by
  unfold completed
  rw [List.find?_eq_none.mpr]
  · rfl
  · intro transfer _
    have positive := transfer.packetCount_pos lawful
    rw [getLast?_packets lawful]
    simpa using transfer.packetAt_ne_abort lawful (by omega) nonzero

/-! ### One arrival -/

/-- What a packet of a transfer does to a decoder that holds its earlier packets. -/
theorem extend_transfer (lawful : codec.Lawful) {transfer : Transfer codec} {index : Nat}
    (within : index < transfer.encoded.packetCount) {reserved : Reservations}
    {readings : Readings} {frame : Assembly} {answer : FrameDecoder.Answer Frame}
    (extended : decoder.extend codec readings
      ⟨transfer.id, transfer.total, index * chunkSize, chunk transfer.encoded.bytes index⟩
      reserved = some answer)
    (found : decoder.pending.lookup transfer.id = some frame)
    (isReserved : frame.reservation = transfer.total) (isTotal : frame.total = transfer.total)
    (isBytes : frame.bytes = transfer.encoded.bytes.take (index * chunkSize)) :
    answer.1.1.discarded = decoder.discarded ∧
    (∀ other, other ≠ transfer.id →
      answer.1.1.pending.lookup other = decoder.pending.lookup other) ∧
    (index + 1 = transfer.encoded.packetCount →
      answer.2 = .ok (some transfer.frame) ∧
      answer.1.1.pending.lookup transfer.id = none) ∧
    (index + 1 ≠ transfer.encoded.packetCount →
      answer.2 = .ok none ∧ answer.1.1.pending.lookup transfer.id =
        some ⟨transfer.total, transfer.total,
          transfer.encoded.bytes.take ((index + 1) * chunkSize), readings.progressed⟩) := by
  have inside := lt_packetCount.mp within
  have length : frame.bytes.length = index * chunkSize := by
    rw [isBytes, List.length_take]
    omega
  have grownBytes : frame.bytes ++ chunk transfer.encoded.bytes index =
      transfer.encoded.bytes.take ((index + 1) * chunkSize) := by
    rw [isBytes, take_append_chunk]
  have grownLength : (frame.bytes ++ chunk transfer.encoded.bytes index).length =
      index * chunkSize + (chunk transfer.encoded.bytes index).length := by
    rw [List.length_append, length]
  obtain ⟨discarded, continues, ends⟩ :=
    FrameDecoder.extend_matching codec extended found isTotal length
  simp only [FrameDecoder.grown, grownLength, isReserved, isTotal] at continues ends
  refine ⟨discarded, fun other different => ?_, fun isLast => ?_, fun notLast => ?_⟩
  · by_cases isLast : index + 1 = transfer.encoded.packetCount
    · rw [(ends ((ends_iff within).mpr isLast)).2, AList.lookup_erase_ne different,
        AList.lookup_insert_ne different]
    · rw [(continues fun equal => isLast ((ends_iff within).mp equal)).2,
        AList.lookup_insert_ne different]
  · obtain ⟨answered, pending⟩ := ends ((ends_iff within).mpr isLast)
    refine ⟨?_, by rw [pending, AList.lookup_erase]⟩
    have whole : transfer.encoded.bytes.take ((index + 1) * chunkSize) =
        transfer.encoded.bytes := by
      refine List.take_of_length_le ?_
      have beyond := (@lt_packetCount transfer.encoded (index + 1)).mpr
      omega
    rw [answered, grownBytes, whole, FrameDecoder.decoded,
      lawful.roundTrip _ _ transfer.isNew_iff.1]
  · obtain ⟨answered, pending⟩ := continues fun equal => notLast ((ends_iff within).mp equal)
    refine ⟨answered, ?_⟩
    rw [pending, AList.lookup_insert, grownBytes]

section Packet

variable {transfer : Transfer codec} {arrival : Arrival} {index : Nat}

theorem packetsOf_after (within : index < transfer.encoded.packetCount)
    (isId : transfer.id = arrival.id) (isPacket : arrival.packet = transfer.encoded.packetAt index)
    (sent : packetsOf transfer.id before = transfer.encoded.packets.take index) :
    packetsOf transfer.id (before ++ [arrival]) = transfer.encoded.packets.take (index + 1) := by
  rw [packetsOf_snoc, if_pos isId.symm, sent, isPacket, List.take_add_one, packets_getElem? within]
  rfl

theorem incomplete_take (lawful : codec.Lawful) {arrivals : List Arrival}
    (within : index ≤ transfer.encoded.packetCount)
    (sent : packetsOf transfer.id arrivals = transfer.encoded.packets.take index) :
    Incomplete transfer arrivals ↔ 0 < index ∧ index < transfer.encoded.packetCount := by
  have length := Transfer.take_packets_length within
  unfold Incomplete
  rw [sent, length]
  constructor
  · rintro ⟨begun, short, _⟩
    refine ⟨Nat.pos_of_ne_zero fun zero => begun ?_, short⟩
    rw [zero, List.take_zero]
  · rintro ⟨begun, short⟩
    refine ⟨fun empty => ?_, short, Transfer.abort_notMem_take lawful transfer index⟩
    rw [empty] at length
    exact absurd length (by simp; omega)

/-- The counters a call finds, seen from the decoder. -/
theorem Receives.keeps (receives : Receives budget transfers before decoder)
    (distinct : Distinct transfers) (fits : Fits budget transfers before arrival) :
    ∃ rest, FrameDecoder.Keeps rest budget (decoder, arrival.reserved) := by
  obtain ⟨rest, covers⟩ := fits.covers
  refine ⟨rest, receives.handle, receives.sound, ?_, fits.within⟩
  have held : decoder.held = incompleteTotal transfers before :=
    receives.sum_pending distinct _ fun _ => rfl
  rw [← held] at covers
  exact covers

/-- The budget and the decoder's own share grant a transfer that fits. -/
theorem Receives.claims (receives : Receives budget transfers before decoder)
    (distinct : Distinct transfers)
    (share : incompleteTotal transfers before + transfer.total ≤ maxFrame)
    (leaves : arrival.reserved.Leaves budget transfer.total) :
    ∃ reserved, decoder.claim transfer.total arrival.reserved = .ok reserved := by
  have totals : sum Assembly.total decoder.pending = incompleteTotal transfers before :=
    receives.sum_pending distinct _ fun _ => rfl
  obtain ⟨total, account, members⟩ := leaves
  have room : ¬ (arrival.reserved.total + transfer.total > 2 * maxFrame ∨
      getD arrival.reserved.accounts budget.account 0 + transfer.total > maxFrame ∨
      (budget.member = true ∧ arrival.reserved.members + transfer.total > maxFrame)) := by
    rintro (above | above | ⟨member, above⟩)
    · omega
    · omega
    · have := members member
      omega
  rw [FrameDecoder.claim, if_neg (by omega), receives.handle]
  exact ⟨_, if_neg room⟩

/-- The fragment a packet of the transfer is read as. -/
def fragmentAt (transfer : Transfer codec) (index : Nat) : Fragment :=
  ⟨transfer.id, transfer.total, index * chunkSize, chunk transfer.encoded.bytes index⟩

theorem fragmentAt_fits (within : index < transfer.encoded.packetCount) :
    ¬ (fragmentAt transfer index).Exceeds := by
  have inside := lt_packetCount.mp within
  have length := chunk_length transfer.encoded.bytes index
  have positive := chunkSize_pos
  rintro (empty | above)
  · have none : (chunk transfer.encoded.bytes index).length = 0 := congrArg List.length empty
    omega
  · have beyond : index * chunkSize + (chunk transfer.encoded.bytes index).length >
        transfer.encoded.bytes.length := above
    omega

/-- A packet of a transfer is neither given up, nor an abort, nor drained. -/
theorem Receives.push_eq (receives : Receives budget transfers before decoder)
    (punctual : Punctual transfers before arrival)
    (within : index < transfer.encoded.packetCount)
    (isPacket : arrival.packet = transfer.encoded.packetAt index) :
    decoder.push codec arrival.readings arrival.packet arrival.reserved =
      if index * chunkSize = 0 then
        decoder.admitFragment codec arrival.readings (fragmentAt transfer index) arrival.reserved
      else decoder.extend codec arrival.readings (fragmentAt transfer index) arrival.reserved := by
  have fits := fragmentAt_fits within
  have notAborts : ¬ (fragmentAt transfer index).Aborts := fun aborts => fits (Or.inl aborts.2.2)
  have undiscarded : decoder.discarded.lookup (fragmentAt transfer index).id = none := by
    rw [receives.discarded]
    exact AList.lookup_empty _
  simp only [FrameDecoder.push, receives.expire punctual, isPacket,
    transfer.fragment_packetAt within, Option.bind_eq_bind, Option.bind_some]
  rw [← fragmentAt, FrameDecoder.accept, if_neg notAborts, if_neg fits, undiscarded]
  rfl

/-- The answer and the table a packet of a transfer leads to. -/
structure Takes (decoder : FrameDecoder) (transfer : Transfer codec) (index progressed : Nat)
    (next : FrameDecoder) (answer : Except DecodeError (Option Frame)) : Prop where
  discarded : next.discarded = decoder.discarded
  others : ∀ other, other ≠ transfer.id →
    next.pending.lookup other = decoder.pending.lookup other
  ends : index + 1 = transfer.encoded.packetCount →
    answer = .ok (some transfer.frame) ∧ next.pending.lookup transfer.id = none
  continues : index + 1 ≠ transfer.encoded.packetCount →
    answer = .ok none ∧ next.pending.lookup transfer.id =
      some ⟨transfer.total, transfer.total,
        transfer.encoded.bytes.take ((index + 1) * chunkSize), progressed⟩

/-- The first packet of a transfer that fits. -/
theorem Receives.begins (receives : Receives budget transfers before decoder)
    (lawful : codec.Lawful) (distinct : Distinct transfers)
    (fits : Fits budget transfers before arrival) (member : transfer ∈ transfers)
    (isId : transfer.id = arrival.id) (isPacket : arrival.packet = transfer.encoded.packetAt 0)
    (sent : packetsOf transfer.id before = []) {answer : FrameDecoder.Answer Frame}
    (admitted : decoder.admitFragment codec arrival.readings (fragmentAt transfer 0) arrival.reserved =
      some answer) :
    Takes decoder transfer 0 arrival.readings.progressed answer.1.1 answer.2 := by
  have within := transfer.packetCount_pos lawful
  have absent : decoder.pending.lookup transfer.id = none := by
    cases found : decoder.pending.lookup transfer.id with
    | none => rfl
    | some frame =>
        obtain ⟨other, inTransfers, same, underway⟩ := receives.only transfer.id frame found
        obtain rfl := distinct.eq inTransfers member same
        exact absurd sent underway.1
  obtain ⟨few, share, leaves⟩ := fits.room transfer member isId (isId ▸ sent) (by
    rw [isPacket, ← isId]
    exact transfer.packetAt_ne_abort lawful within transfer.isNew_iff.2.1)
  have uncrowded : ¬ ((fragmentAt transfer 0).id ∈ decoder.pending ∨
      size decoder.pending + size decoder.discarded ≥ maxInFlight) := by
    rw [receives.discarded, receives.size_pending distinct, not_or]
    refine ⟨AList.lookup_eq_none.mp absent, ?_⟩
    have none : size (∅ : HashMap UInt32 Discarded) = 0 := rfl
    omega
  rw [FrameDecoder.admitFragment, if_neg uncrowded] at admitted
  by_cases whole : decoder.budget.member = true ∧
      (fragmentAt transfer 0).payload.length = (fragmentAt transfer 0).total
  · rw [if_pos whole] at admitted
    have isLast : 0 + 1 = transfer.encoded.packetCount :=
      (ends_iff within).mp (by rw [Nat.zero_mul, Nat.zero_add]; exact whole.2)
    have isWhole : chunk transfer.encoded.bytes 0 = transfer.encoded.bytes := by
      have joined := take_append_chunk transfer.encoded.bytes 0
      have beyond := (@lt_packetCount transfer.encoded 1).mpr
      rwa [Nat.zero_mul, List.take_zero, List.nil_append,
        List.take_of_length_le (by omega)] at joined
    obtain rfl := Option.some.inj admitted
    refine ⟨rfl, fun _ _ => rfl, fun _ => ⟨?_, absent⟩, fun notLast => absurd isLast notLast⟩
    show FrameDecoder.decoded codec (chunk transfer.encoded.bytes 0) = _
    rw [isWhole, FrameDecoder.decoded, lawful.roundTrip _ _ transfer.isNew_iff.1]
  · obtain ⟨reserved, claimed⟩ := receives.claims distinct share leaves
    have isTotal : (fragmentAt transfer 0).total = transfer.total := rfl
    rw [if_neg whole, isTotal, claimed] at admitted
    obtain ⟨discarded, others, ends, continues⟩ :=
      extend_transfer lawful within admitted (AList.lookup_insert _) rfl rfl (by simp)
    refine ⟨discarded, fun other different => ?_, ends, continues⟩
    rw [others other different]
    exact AList.lookup_insert_ne different

/-- A later packet of a transfer. -/
theorem Receives.continues (receives : Receives budget transfers before decoder)
    (lawful : codec.Lawful) (member : transfer ∈ transfers) (begun : 0 < index)
    (within : index < transfer.encoded.packetCount)
    (sent : packetsOf transfer.id before = transfer.encoded.packets.take index)
    {answer : FrameDecoder.Answer Frame}
    (extended : decoder.extend codec arrival.readings (fragmentAt transfer index)
      arrival.reserved = some answer) :
    Takes decoder transfer index arrival.readings.progressed answer.1.1 answer.2 := by
  have underway : Incomplete transfer before :=
    (incomplete_take lawful (Nat.le_of_lt within) sent).mpr ⟨begun, within⟩
  have bytes : (assembly transfer before).bytes =
      transfer.encoded.bytes.take (index * chunkSize) := by
    unfold assembly
    rw [sent, Transfer.take_packets_length (Nat.le_of_lt within)]
  obtain ⟨discarded, others, ends, continues⟩ :=
    extend_transfer lawful within extended (receives.stored transfer member underway) rfl rfl bytes
  exact ⟨discarded, others, ends, continues⟩

/-- A packet of a transfer is answered with the frame it completes. -/
theorem Receives.packet (receives : Receives budget transfers before decoder)
    (lawful : codec.Lawful) (distinct : Distinct transfers)
    (fits : Fits budget transfers before arrival) (punctual : Punctual transfers before arrival)
    (member : transfer ∈ transfers) (isId : transfer.id = arrival.id)
    (within : index < transfer.encoded.packetCount)
    (isPacket : arrival.packet = transfer.encoded.packetAt index)
    (sent : packetsOf transfer.id before = transfer.encoded.packets.take index) :
    ∃ state, decoder.push codec arrival.readings arrival.packet arrival.reserved =
        some (state, .ok (completed transfers arrival.packet)) ∧
      Receives budget transfers (before ++ [arrival]) state.1 := by
  obtain ⟨rest, keeps⟩ := receives.keeps distinct fits
  obtain ⟨answer, pushed, keepsNext⟩ := keeps.push codec arrival.readings arrival.packet
  have sentAfter := packetsOf_after within isId isPacket sent
  have incompleteAfter := incomplete_take lawful (Nat.succ_le_of_lt within) sentAfter
  have takes : Takes decoder transfer index arrival.readings.progressed answer.1.1 answer.2 := by
    have accepted := (receives.push_eq punctual within isPacket).symm.trans pushed
    by_cases begun : index = 0
    · subst index
      rw [Nat.zero_mul, if_pos rfl] at accepted
      exact receives.begins lawful distinct fits member isId isPacket (by simpa using sent) accepted
    · have positive := Nat.pos_of_ne_zero begun
      rw [if_neg (Nat.ne_of_gt (Nat.mul_pos positive chunkSize_pos))] at accepted
      exact receives.continues lawful member positive within sent accepted
  have isAssembly : assembly transfer (before ++ [arrival]) =
      ⟨transfer.total, transfer.total, transfer.encoded.bytes.take ((index + 1) * chunkSize),
        arrival.readings.progressed⟩ := by
    unfold assembly
    rw [sentAfter, Transfer.take_packets_length (Nat.succ_le_of_lt within), lastProgress_snoc,
      if_pos isId.symm]
  refine ⟨answer.1, ?_, receives.advance distinct member isId keepsNext.handle keepsNext.sound
    (takes.discarded.trans receives.discarded) takes.others (fun underway => ?_) (fun ended => ?_)⟩
  · have answered : answer.2 = .ok (completed transfers arrival.packet) := by
      rw [isPacket, completed_packetAt lawful distinct member within]
      by_cases isLast : index + 1 = transfer.encoded.packetCount
      · rw [(takes.ends isLast).1, if_pos isLast]
      · rw [(takes.continues isLast).1, if_neg isLast]
    rw [pushed, ← answered]
  · rw [isAssembly]
    exact (takes.continues (Nat.ne_of_lt (incompleteAfter.mp underway).2)).2
  · refine (takes.ends ?_).2
    by_contra notLast
    exact ended (incompleteAfter.mpr ⟨Nat.succ_pos _, by omega⟩)

/-- An abort takes its transfer away and answers nothing. -/
theorem Receives.abort (receives : Receives budget transfers before decoder)
    (lawful : codec.Lawful) (distinct : Distinct transfers)
    (fits : Fits budget transfers before arrival) (punctual : Punctual transfers before arrival)
    (member : transfer ∈ transfers) (isId : transfer.id = arrival.id)
    (isAbort : arrival.packet = abortPacket transfer.id) :
    ∃ state, decoder.push codec arrival.readings arrival.packet arrival.reserved =
        some (state, .ok (completed transfers arrival.packet)) ∧
      Receives budget transfers (before ++ [arrival]) state.1 := by
  have nonzero := transfer.isNew_iff.2.1
  obtain ⟨rest, keeps⟩ := receives.keeps distinct fits
  obtain ⟨next, aborted, keepsNext, pending, discarded⟩ :=
    @FrameDecoder.Keeps.abort rest budget Frame _ keeps transfer.id
  have aborts : (⟨transfer.id, 0, 0, []⟩ : Fragment).Aborts := ⟨rfl, rfl, rfl⟩
  have pushed : decoder.push codec arrival.readings arrival.packet arrival.reserved =
      some (next, .ok none) := by
    simp only [FrameDecoder.push, receives.expire punctual, isAbort, fragment_abortPacket nonzero,
      Option.bind_eq_bind, Option.bind_some]
    rw [FrameDecoder.accept, if_pos aborts]
    exact aborted
  have ended : ¬ Incomplete transfer (before ++ [arrival]) := by
    intro underway
    refine underway.2.2 ?_
    rw [packetsOf_snoc, if_pos isId.symm, isAbort]
    simp
  refine ⟨next, ?_, receives.advance distinct member isId keepsNext.handle keepsNext.sound ?_
    (fun other different => ?_) (fun underway => absurd underway ended) (fun _ => ?_)⟩
  · rw [pushed, isAbort, completed_abort lawful nonzero]
  · rw [discarded, receives.discarded]
    exact erase_of_notMem (AList.notMem_empty _)
  · rw [pending]
    exact AList.lookup_erase_ne different
  · rw [pending]
    exact AList.lookup_erase _ _

/-- One arrival of an interleaving. -/
theorem Receives.step {after : List Arrival}
    (receives : Receives budget transfers before decoder) (lawful : codec.Lawful)
    (distinct : Distinct transfers)
    (interleaving : Interleaving transfers (before ++ arrival :: after))
    (fits : Fits budget transfers before arrival) (punctual : Punctual transfers before arrival) :
    ∃ state, decoder.push codec arrival.readings arrival.packet arrival.reserved =
        some (state, .ok (completed transfers arrival.packet)) ∧
      Receives budget transfers (before ++ [arrival]) state.1 := by
  obtain ⟨transfer, member, isId⟩ := interleaving.known arrival (by simp)
  have sends := interleaving.ordered transfer member
  have here : packetsOf transfer.id (arrival :: after) =
      arrival.packet :: packetsOf transfer.id after := by
    simp [packetsOf, isId]
  rw [packetsOf_append, here] at sends
  obtain isAbort | ⟨index, within, isPacket, sent⟩ := sends.follows
  · exact receives.abort lawful distinct fits punctual member isId isAbort
  · exact receives.packet lawful distinct fits punctual member isId within isPacket sent

end Packet

/-- Every arrival of a sequence fits and finds no transfer paused too long. -/
def Orderly (budget : ReassemblyBudget) (transfers : List (Transfer codec))
    (arrivals : List Arrival) : Prop :=
  ∀ before arrival after, arrivals = before ++ arrival :: after →
    Fits budget transfers before arrival ∧ Punctual transfers before arrival

/-- The rest of an interleaving. -/
theorem Receives.run (lawful : codec.Lawful) (distinct : Distinct transfers)
    {rest : List Arrival} (receives : Receives budget transfers before decoder)
    (interleaving : Interleaving transfers (before ++ rest))
    (orderly : Orderly budget transfers (before ++ rest)) :
    ∃ last, receive codec decoder rest = some (last, rest.map fun arrival =>
        .ok (completed transfers arrival.packet)) ∧
      Receives budget transfers (before ++ rest) last := by
  induction rest generalizing before decoder with
  | nil => exact ⟨decoder, rfl, by simpa using receives⟩
  | cons arrival rest inductionHypothesis =>
      obtain ⟨fits, punctual⟩ := orderly before arrival rest rfl
      obtain ⟨state, pushed, receivesNext⟩ :=
        receives.step lawful distinct interleaving fits punctual
      rw [List.append_cons] at interleaving orderly ⊢
      obtain ⟨last, received, receivesLast⟩ :=
        inductionHypothesis receivesNext interleaving orderly
      refine ⟨last, ?_, receivesLast⟩
      simp only [receive, pushed, received, Option.bind_eq_bind, Option.bind_some, List.map_cons]

/-! ### Whole interleavings -/

/-- An arrival with a packet of a transfer is an arrival of that transfer. -/
theorem Interleaving.id_eq {arrivals : List Arrival} (lawful : codec.Lawful)
    (interleaving : Interleaving transfers arrivals) {arrival : Arrival}
    (arrived : arrival ∈ arrivals) {transfer : Transfer codec} {index : Nat}
    (within : index < transfer.encoded.packetCount)
    (isPacket : arrival.packet = transfer.encoded.packetAt index) : arrival.id = transfer.id := by
  obtain ⟨other, member, isId⟩ := interleaving.known arrival arrived
  obtain ⟨before, after, rfl⟩ := List.append_of_mem arrived
  have sends := interleaving.ordered other member
  have here : packetsOf other.id (arrival :: after) =
      arrival.packet :: packetsOf other.id after := by
    simp [packetsOf, isId]
  rw [packetsOf_append, here] at sends
  obtain isAbort | ⟨place, placed, isOther, _⟩ := sends.follows
  · rw [isPacket] at isAbort
    exact absurd isAbort (transfer.packetAt_ne_abort lawful within other.isNew_iff.2.1)
  · rw [isPacket] at isOther
    exact isId.symm.trans (Transfer.packetAt_inj within placed isOther).1.symm

theorem packets_nodup (transfer : Transfer codec) : transfer.encoded.packets.Nodup := by
  refine List.nodup_iff_getElem?_ne_getElem?.mpr fun first second ordered bound same => ?_
  rw [packets_length] at bound
  rw [packets_getElem? bound, packets_getElem? (by omega)] at same
  have places := (Transfer.packetAt_inj (by omega) bound (Option.some.inj same)).2
  omega

/-- The arrivals that carry the last packet of a transfer. -/
def endings (transfer : Transfer codec) (arrivals : List Arrival) : List Arrival :=
  arrivals.filter fun arrival => transfer.encoded.packets.getLast? = some arrival.packet

/-- The last packet arrives once if the transfer arrives whole, and never otherwise. -/
theorem endings_length {arrivals : List Arrival} (lawful : codec.Lawful)
    (interleaving : Interleaving transfers arrivals) {transfer : Transfer codec}
    (member : transfer ∈ transfers) :
    (endings transfer arrivals).length =
      if transfer.encoded.packets <+: packetsOf transfer.id arrivals then 1 else 0 := by
  have positive := transfer.packetCount_pos lawful
  have isLast := getLast?_packets lawful transfer
  have own : endings transfer arrivals = (arrivals.filter fun arrival =>
      arrival.id = transfer.id).filter fun arrival =>
        transfer.encoded.packets.getLast? = some arrival.packet := by
    rw [endings, List.filter_filter]
    refine List.filter_congr fun arrival arrived => ?_
    by_cases ends : transfer.encoded.packets.getLast? = some arrival.packet
    · rw [isLast] at ends
      have same := interleaving.id_eq lawful arrived (by omega) (Option.some.inj ends).symm
      simp [same]
    · simp [ends]
  have counted : (endings transfer arrivals).length =
      (packetsOf transfer.id arrivals).count
        (transfer.encoded.packetAt (transfer.encoded.packetCount - 1)) := by
    rw [own, isLast, packetsOf, List.count, List.countP_map, ← List.countP_eq_length_filter]
    refine List.countP_congr fun arrival _ => ?_
    simp only [Function.comp_apply, decide_eq_true_eq, beq_iff_eq, Option.some.injEq]
    exact eq_comm
  have notAbort := transfer.packetAt_ne_abort lawful
    (show transfer.encoded.packetCount - 1 < _ by omega) transfer.isNew_iff.2.1
  obtain ⟨count, aborts, sent⟩ := interleaving.ordered transfer member
  have fromAborts : (List.replicate aborts (abortPacket transfer.id)).count
      (transfer.encoded.packetAt (transfer.encoded.packetCount - 1)) = 0 :=
    List.count_eq_zero.mpr fun inAborts => notAbort (List.eq_of_mem_replicate inAborts)
  rw [counted, sent, List.count_append, fromAborts, Nat.add_zero]
  by_cases whole : transfer.encoded.packetCount ≤ count
  · rw [List.take_of_length_le (by rw [packets_length]; exact whole),
      if_pos (List.prefix_append _ _)]
    exact List.count_eq_one_of_mem (packets_nodup transfer) (List.mem_of_getLast? isLast)
  · have missing : transfer.encoded.packetAt (transfer.encoded.packetCount - 1) ∉
        transfer.encoded.packets.take count := by
      intro among
      obtain ⟨place, found⟩ := List.mem_iff_getElem?.mp among
      rw [List.getElem?_take] at found
      split at found
      · rename_i early
        rw [packets_getElem? (by omega)] at found
        have places := (Transfer.packetAt_inj (by omega) (by omega) (Option.some.inj found)).2
        omega
      · simp at found
    rw [List.count_eq_zero.mpr missing, if_neg]
    intro cut
    have inSent := cut.subset (List.mem_of_getLast? isLast)
    rw [List.mem_append] at inSent
    exact inSent.elim missing fun inAborts => notAbort (List.eq_of_mem_replicate inAborts)

/-- Any interleaving that fits and never pauses too long is answered with exactly
the frames whose last packet arrives, each once; what is under way is held, and an
aborted transfer is gone, whatever the others do. -/
theorem reassembly_round_trip (lawful : codec.Lawful) (budget : ReassemblyBudget)
    (transfers : List (Transfer codec)) (arrivals : List Arrival)
    (distinct : Distinct transfers) (interleaving : Interleaving transfers arrivals)
    (orderly : Orderly budget transfers arrivals) :
    ∃ decoder, receive codec (FrameDecoder.withBudget budget) arrivals =
        some (decoder, arrivals.map fun arrival => .ok (completed transfers arrival.packet)) ∧
      (∀ transfer ∈ transfers, (endings transfer arrivals).length =
          (if transfer.encoded.packets <+: packetsOf transfer.id arrivals then 1 else 0) ∧
        ∀ arrival ∈ endings transfer arrivals,
          completed transfers arrival.packet = some transfer.frame) ∧
      (∀ id, id ∈ decoder.pending ↔
        ∃ transfer ∈ transfers, transfer.id = id ∧ Incomplete transfer arrivals) ∧
      decoder.discarded = ∅ := by
  have whole : Interleaving transfers ([] ++ arrivals) := interleaving
  obtain ⟨decoder, received, receives⟩ :=
    (Receives.initial budget transfers).run lawful distinct whole orderly
  refine ⟨decoder, received, fun transfer member => ⟨endings_length lawful interleaving member,
    fun arrival ending => ?_⟩, fun id => ?_, receives.discarded⟩
  · have positive := transfer.packetCount_pos lawful
    have ends : transfer.encoded.packets.getLast? = some arrival.packet := by
      simpa using (List.mem_filter.mp ending).2
    rw [getLast?_packets lawful] at ends
    rw [← Option.some.inj ends, completed_packetAt lawful distinct member (by omega),
      if_pos (by omega)]
  · rw [← AList.lookup_isSome]
    constructor
    · intro held
      obtain ⟨frame, found⟩ := Option.isSome_iff_exists.mp held
      exact receives.only id frame found
    · rintro ⟨transfer, member, rfl, underway⟩
      rw [receives.stored transfer member underway]
      rfl

/-! ### A pause -/

/-- A transfer that is alone and has paused for the timeout is drained: its next
packet, also the last one, is answered with nothing. -/
theorem Receives.paused {transfer : Transfer codec} {arrival : Arrival} {index : Nat}
    (receives : Receives budget [transfer] before decoder) (lawful : codec.Lawful)
    (fits : Fits budget [transfer] before arrival) (begun : 0 < index)
    (within : index < transfer.encoded.packetCount)
    (isPacket : arrival.packet = transfer.encoded.packetAt index)
    (sent : packetsOf transfer.id before = transfer.encoded.packets.take index)
    (late : requestTimeout ≤
      arrival.readings.visited transfer.id - lastProgress transfer.id before) :
    ∃ state, decoder.push codec arrival.readings arrival.packet arrival.reserved =
      some (state, .ok none) := by
  have distinct : Distinct [transfer] := List.nodup_singleton _
  have underway : Incomplete transfer before :=
    (incomplete_take lawful (Nat.le_of_lt within) sent).mpr ⟨begun, within⟩
  have entries : decoder.pending.entries = [⟨transfer.id, assembly transfer before⟩] := by
    have permuted := receives.entries distinct
    rwa [incomplete, List.filter_cons_of_pos (by simpa using underway), List.filter_nil,
      List.map_singleton, List.perm_singleton] at permuted
  have overdue : decoder.overdue arrival.readings =
      [⟨transfer.id, assembly transfer before⟩] := by
    rw [FrameDecoder.overdue, entries]
    simpa [assembly] using late
  obtain ⟨rest, keeps⟩ := receives.keeps distinct fits
  obtain ⟨next, removed, _, _, discarded⟩ := keeps.remove (receives.stored transfer (by simp) underway)
  obtain ⟨dropped, isDropped⟩ : ∃ dropped : Discarded,
      dropped = ⟨transfer.total, (assembly transfer before).bytes.length⟩ := ⟨_, rfl⟩
  have expired : decoder.expire arrival.readings arrival.reserved = some
      ({ next.1 with discarded := next.1.discarded.insert transfer.id dropped }, next.2) := by
    rw [FrameDecoder.expire, overdue]
    simp only [List.foldlM_cons, List.foldlM_nil, FrameDecoder.discard, removed,
      Option.bind_eq_bind, Option.bind_some, Option.pure_def]
    rw [isDropped]
    rfl
  have length : (assembly transfer before).bytes.length = index * chunkSize := by
    have inside := lt_packetCount.mp within
    unfold assembly
    rw [sent, Transfer.take_packets_length (Nat.le_of_lt within), List.length_take]
    omega
  have notExceeds := fragmentAt_fits within
  have notAborts : ¬ (fragmentAt transfer index).Aborts :=
    fun aborts => notExceeds (Or.inl aborts.2.2)
  simp only [FrameDecoder.push, expired, isPacket, transfer.fragment_packetAt within,
    Option.bind_eq_bind, Option.bind_some]
  rw [← fragmentAt, FrameDecoder.accept, if_neg notAborts, if_neg notExceeds]
  have isDiscarded : (next.1.discarded.insert transfer.id dropped).lookup
      (fragmentAt transfer index).id = some dropped := AList.lookup_insert _
  have matching : ¬ (dropped.total ≠ (fragmentAt transfer index).total ∨
      dropped.received ≠ (fragmentAt transfer index).offset) := by
    rw [isDropped, length]
    rintro (different | different) <;> exact different rfl
  dsimp only
  rw [isDiscarded]
  dsimp only
  rw [FrameDecoder.drain, if_neg matching]
  exact ⟨_, rfl⟩

/-- A codec of numbers, as strings of zeros one longer than the number. -/
def zeros : Codec Nat where
  serialize := fun frame => some (List.replicate (frame + 1) 0)
  parse := fun bytes => some (bytes.length - 1)
  requestIdPrefix := fun _ => none

theorem zeros_lawful : zeros.Lawful where
  nonempty := by
    rintro frame bytes serialized rfl
    simp [zeros] at serialized
  roundTrip := by
    intro frame bytes serialized
    obtain rfl := Option.some.inj serialized
    simp [zeros]

/-- A frame of two packets, the second with one byte. -/
def twoPackets : Transfer zeros where
  frame := chunkSize
  encoded := ⟨1, List.replicate (chunkSize + 1) 0⟩
  isNew := by
    have fits : ¬ ((1 : UInt32) = 0 ∨
        (List.replicate (chunkSize + 1) (0 : UInt8)).length > maxFrame) := by
      rw [List.length_replicate]
      decide
    simp only [EncodedFrame.new, zeros]
    rw [if_neg fits]

theorem twoPackets_packetCount : twoPackets.encoded.packetCount = 2 := by
  have length : twoPackets.encoded.bytes.length = chunkSize + 1 := List.length_replicate
  rw [EncodedFrame.packetCount, length]
  decide

/-- The counters while an owner's transfer of some size is under way. -/
def underwayOnly (bytes : Nat) : Reservations where
  total := bytes
  members := 0
  accounts := if bytes = 0 then ∅ else AList.insert "owner" bytes ∅

/-- The arrival of a packet of the frame of two packets, at one time. -/
def arrivalAt (time index bytes : Nat) : Arrival where
  id := 1
  packet := twoPackets.encoded.packetAt index
  readings := ⟨fun _ => time, time, time⟩
  reserved := underwayOnly bytes

/-- The budget of the owner. -/
def ownerBudget : ReassemblyBudget := ReassemblyBudget.forAccount "owner" .owner

/-- The two packets of the frame at two times. -/
def twoArrivals (second : Nat) : List Arrival :=
  [arrivalAt 0 0 0, arrivalAt second 1 (chunkSize + 1)]

theorem packets_of_two {frame : EncodedFrame} (count : frame.packetCount = 2) :
    frame.packets = [frame.packetAt 0, frame.packetAt 1] := by
  have range : List.range 2 = [0, 1] := rfl
  unfold EncodedFrame.packetCount at count
  unfold EncodedFrame.packets EncodedFrame.packetAt
  rw [count, range, List.map_cons, List.map_cons, List.map_nil]

theorem packets_twoPackets :
    twoPackets.encoded.packets = [twoPackets.encoded.packetAt 0, twoPackets.encoded.packetAt 1] :=
  packets_of_two twoPackets_packetCount

theorem lookup_underwayOnly (bytes : Nat) (account : String) :
    (underwayOnly bytes).accounts.lookup account =
      if bytes = 0 then none else if account = "owner" then some bytes else none := by
  unfold underwayOnly
  by_cases zero : bytes = 0
  · simp [zero]
  · dsimp only
    rw [if_neg zero, if_neg zero, lookup_insert]
    rfl

theorem covers_underwayOnly (bytes : Nat) :
    Covers ⟨0, 0, fun _ => 0⟩ ownerBudget bytes (underwayOnly bytes) where
  total := (Nat.zero_add _).symm
  members := rfl
  accounts := fun account => by
    rw [getD, lookup_underwayOnly]
    by_cases zero : bytes = 0 <;> by_cases same : account = "owner" <;>
      simp [zero, same, ownerBudget, ReassemblyBudget.forAccount]
  positive := fun account => by
    rw [lookup_underwayOnly]
    by_cases zero : bytes = 0 <;> by_cases same : account = "owner" <;> simp [zero, same]

theorem within_underwayOnly {bytes : Nat} (fits : bytes ≤ maxFrame) :
    (underwayOnly bytes).Within where
  total := by
    show bytes ≤ 2 * maxFrame
    omega
  members := Nat.zero_le _
  accounts := fun account => by
    rw [getD, lookup_underwayOnly]
    by_cases zero : bytes = 0 <;> by_cases same : account = "owner" <;> simp [zero, same, fits]

/-- The two arrivals are an interleaving that fits, whenever the second comes. -/
theorem twoArrivals_interleaving (second : Nat) :
    Interleaving [twoPackets] (twoArrivals second) where
  known := fun arrival member => by
    refine ⟨twoPackets, by simp, ?_⟩
    obtain rfl | rfl := List.mem_pair.mp member <;> rfl
  ordered := fun transfer member => by
    obtain rfl := List.mem_singleton.mp member
    refine ⟨2, 0, ?_⟩
    rw [packets_twoPackets]
    rfl

theorem twoArrivals_split {second : Nat} {before after : List Arrival} {arrival : Arrival}
    (split : twoArrivals second = before ++ arrival :: after) :
    (before = [] ∧ arrival = arrivalAt 0 0 0) ∨
      (before = [arrivalAt 0 0 0] ∧ arrival = arrivalAt second 1 (chunkSize + 1)) := by
  unfold twoArrivals at split
  cases before with
  | nil => exact Or.inl ⟨rfl, (List.cons.inj split).1.symm⟩
  | cons head before =>
      obtain ⟨isFirst, split⟩ := List.cons.inj split
      cases before with
      | nil => exact Or.inr ⟨by rw [isFirst], (List.cons.inj split).1.symm⟩
      | cons next before =>
          have length := congrArg List.length split
          simp at length

theorem packetsOf_first : packetsOf twoPackets.id [arrivalAt 0 0 0] =
    twoPackets.encoded.packets.take 1 := by
  rw [packets_twoPackets]
  rfl

theorem incomplete_nil (transfers : List (Transfer codec)) : incomplete transfers [] = [] :=
  List.filter_eq_nil_iff.mpr fun transfer _ underway =>
    absurd rfl (by simpa using underway : Incomplete transfer []).1

theorem incompleteTotal_first :
    incompleteTotal [twoPackets] [arrivalAt 0 0 0] = chunkSize + 1 := by
  have underway : Incomplete twoPackets [arrivalAt 0 0 0] :=
    (incomplete_take zeros_lawful (by rw [twoPackets_packetCount]; decide) packetsOf_first).mpr
      ⟨Nat.one_pos, by rw [twoPackets_packetCount]; decide⟩
  rw [incompleteTotal, incomplete, List.filter_cons_of_pos (by simpa using underway),
    List.filter_nil, List.map_singleton, List.sum_singleton]
  exact List.length_replicate

theorem twoArrivals_fits {second : Nat} {before after : List Arrival} {arrival : Arrival}
    (split : twoArrivals second = before ++ arrival :: after) :
    Fits ownerBudget [twoPackets] before arrival := by
  have total : twoPackets.total = chunkSize + 1 := List.length_replicate
  have small : chunkSize + 1 ≤ maxFrame := by decide
  have nothing : incompleteTotal [twoPackets] [] = 0 := by
    rw [incompleteTotal, incomplete_nil, List.map_nil, List.sum_nil]
  obtain ⟨rfl, rfl⟩ | ⟨rfl, rfl⟩ := twoArrivals_split split
  · refine ⟨⟨_, nothing ▸ covers_underwayOnly 0⟩, within_underwayOnly (Nat.zero_le _),
      fun transfer member _ _ _ => ?_⟩
    obtain rfl := List.mem_singleton.mp member
    have account : getD (underwayOnly 0).accounts ownerBudget.account 0 = 0 := by
      rw [getD, lookup_underwayOnly, if_pos rfl, Option.getD_none]
    rw [total, incomplete_nil, nothing]
    refine ⟨by decide, by omega, ?_, ?_, fun member => absurd member (by decide)⟩
    · rw [show (arrivalAt 0 0 0).reserved.total = 0 from rfl]
      omega
    · rw [show (arrivalAt 0 0 0).reserved = underwayOnly 0 from rfl, account]
      omega
  · have covers : Covers ⟨0, 0, fun _ => 0⟩ ownerBudget
        (incompleteTotal [twoPackets] [arrivalAt 0 0 0]) (underwayOnly (chunkSize + 1)) := by
      rw [incompleteTotal_first]
      exact covers_underwayOnly _
    refine ⟨⟨_, covers⟩, within_underwayOnly small, fun transfer member isId none _ => ?_⟩
    obtain rfl := List.mem_singleton.mp member
    rw [← isId, packetsOf_first, packets_twoPackets] at none
    simp at none

theorem lastProgress_first : lastProgress twoPackets.id [arrivalAt 0 0 0] = 0 := by
  have snoc := lastProgress_snoc twoPackets.id [] (arrivalAt 0 0 0)
  rw [if_pos (show (arrivalAt 0 0 0).id = twoPackets.id from rfl)] at snoc
  exact snoc

theorem twoArrivals_distinct : Distinct [twoPackets] := List.nodup_singleton _

theorem punctual_nothing (arrival : Arrival) : Punctual [twoPackets] [] arrival := by
  intro transfer member
  rw [incomplete_nil] at member
  simp at member

/-- The frame of two packets is reassembled when its second packet comes in time. -/
theorem reassembly_round_trip_in_time :
    ∃ decoder, receive zeros (FrameDecoder.withBudget ownerBudget) (twoArrivals 1) =
      some (decoder, (twoArrivals 1).map fun arrival =>
        .ok (completed [twoPackets] arrival.packet)) := by
  have orderly : Orderly ownerBudget [twoPackets] (twoArrivals 1) := by
    intro before arrival after split
    refine ⟨twoArrivals_fits split, ?_⟩
    obtain ⟨rfl, rfl⟩ | ⟨rfl, rfl⟩ := twoArrivals_split split
    · exact punctual_nothing _
    · intro transfer member
      obtain rfl := List.mem_singleton.mp (List.mem_of_mem_filter member)
      rw [lastProgress_first]
      exact (by decide : 1 - 0 < requestTimeout)
  obtain ⟨decoder, received, _⟩ := reassembly_round_trip zeros_lawful ownerBudget [twoPackets]
    (twoArrivals 1) twoArrivals_distinct (twoArrivals_interleaving 1) orderly
  exact ⟨decoder, received⟩

/-- The same two packets fit as well when the second comes after the timeout, but
the frame is never emitted. -/
theorem round_trip_lost_after_pause :
    Distinct [twoPackets] ∧ Interleaving [twoPackets] (twoArrivals requestTimeout) ∧
    (∀ before arrival after, twoArrivals requestTimeout = before ++ arrival :: after →
      Fits ownerBudget [twoPackets] before arrival) ∧
    ∃ decoder, receive zeros (FrameDecoder.withBudget ownerBudget) (twoArrivals requestTimeout) =
        some (decoder, [.ok none, .ok none]) ∧
      (twoArrivals requestTimeout).map (fun arrival => completed [twoPackets] arrival.packet) =
        [none, some chunkSize] := by
  have distinct := twoArrivals_distinct
  have interleaving := twoArrivals_interleaving requestTimeout
  have fits : ∀ before arrival after, twoArrivals requestTimeout = before ++ arrival :: after →
      Fits ownerBudget [twoPackets] before arrival := fun _ _ _ split => twoArrivals_fits split
  have count := twoPackets_packetCount
  have firstWithin : 0 < twoPackets.encoded.packetCount := by omega
  have lastWithin : 1 < twoPackets.encoded.packetCount := by omega
  have first := completed_packetAt zeros_lawful distinct (List.mem_singleton_self _) firstWithin
  have last := completed_packetAt zeros_lawful distinct (List.mem_singleton_self _) lastWithin
  rw [count] at first last
  obtain ⟨state, pushed, receives⟩ := (Receives.initial ownerBudget [twoPackets]).step
    zeros_lawful distinct interleaving (fits [] _ _ rfl) (punctual_nothing _)
  obtain ⟨next, paused⟩ := receives.paused zeros_lawful (fits [arrivalAt 0 0 0] _ [] rfl)
    Nat.one_pos lastWithin rfl packetsOf_first (by
      rw [List.nil_append, lastProgress_first]
      exact Nat.le_refl _)
  have isFirst : completed [twoPackets] (arrivalAt 0 0 0).packet = none := first
  have isLast : completed [twoPackets] (arrivalAt requestTimeout 1 (chunkSize + 1)).packet =
      some chunkSize := last
  refine ⟨distinct, interleaving, fits, next.1, ?_, ?_⟩
  · rw [isFirst] at pushed
    simp only [twoArrivals, receive, pushed, paused, Option.bind_eq_bind, Option.bind_some]
  · simp only [twoArrivals, List.map_cons, List.map_nil, isFirst, isLast]

end Cairn.Protocol.DataChannel

import Cairn.Protocol.DataChannel

/-!
Owns what the packets of an encoded frame say: how many there are, which slice
of the frame each one carries, and that the decoder's header checks read back
what the encoder wrote.
-/

set_option autoImplicit false

namespace Cairn.Protocol.DataChannel

open Cairn.Library

/-! ### Headers -/

@[simp] theorem toBeBytes_length (value : Nat) : (toBeBytes value).length = 4 := by
  simp [toBeBytes]

theorem fromBeBytes_toBeBytes {value : Nat} (fits : value < 2 ^ 32) :
    fromBeBytes (toBeBytes value) = value := by
  unfold fromBeBytes toBeBytes
  rw [List.reverse_reverse]
  exact LittleEndian.decode_encode (by omega)

theorem maxFrame_lt : maxFrame < 2 ^ 32 := by decide

namespace EncodedFrame

theorem packet_length (id : UInt32) (total offset : Nat) (payload : Bytes) :
    (packet id total offset payload).length = header + payload.length := by
  simp [packet, header]
  omega

/-- The header checks read back the fields of a packet. -/
theorem fragment_packet {id : UInt32} {total offset : Nat} {payload : Bytes} (nonzero : id ≠ 0)
    (totalFits : total ≤ maxFrame) (offsetFits : offset ≤ maxFrame)
    (payloadFits : payload.length ≤ chunkSize) :
    fragment (packet id total offset payload) = .ok ⟨id, total, offset, payload⟩ := by
  have length := packet_length id total offset payload
  have bound := maxFrame_lt
  have sized : ¬ ((packet id total offset payload).length < header ∨
      (packet id total offset payload).length > maxPacket ∨
      (packet id total offset payload).head? ≠ some 1) := by
    rw [length]
    unfold chunkSize at payloadFits
    have headerLe : header ≤ maxPacket := by decide
    simp only [packet, List.head?_cons, ne_eq, not_true_eq_false, or_false, not_or]
    omega
  have idField : ((packet id total offset payload).drop 1).take 4 = toBeBytes id.toNat := by
    simp [packet]
  have totalField : ((packet id total offset payload).drop 5).take 4 = toBeBytes total := by
    simp [packet]
  have offsetField : ((packet id total offset payload).drop 9).take 4 = toBeBytes offset := by
    simp [packet, List.drop_append, List.drop_eq_nil_of_le]
  have payloadField : (packet id total offset payload).drop header = payload := by
    simp [packet, header, List.drop_append, List.drop_eq_nil_of_le]
  have idRead : UInt32.ofNat (fromBeBytes (toBeBytes id.toNat)) = id := by
    rw [fromBeBytes_toBeBytes id.toNat_lt]
    exact UInt32.ofNat_toNat
  have valid : ¬ (id = 0 ∨ total > maxFrame) := by
    rw [not_or]
    exact ⟨nonzero, Nat.not_lt.mpr totalFits⟩
  rw [fragment, if_neg sized]
  dsimp only
  rw [idField, totalField, offsetField, payloadField, idRead,
    fromBeBytes_toBeBytes (Nat.lt_of_le_of_lt totalFits bound),
    fromBeBytes_toBeBytes (Nat.lt_of_le_of_lt offsetFits bound), if_neg valid]

theorem fragment_abortPacket {id : UInt32} (nonzero : id ≠ 0) :
    fragment (abortPacket id) = .ok ⟨id, 0, 0, []⟩ :=
  fragment_packet nonzero (Nat.zero_le _) (Nat.zero_le _) (Nat.zero_le _)

/-! ### Chunks -/

theorem chunkSize_pos : 0 < chunkSize := by decide

/-- The number of packets of a frame. -/
def packetCount (frame : EncodedFrame) : Nat := (frame.bytes.length + chunkSize - 1) / chunkSize

/-- The packet at an index. -/
def packetAt (frame : EncodedFrame) (index : Nat) : Bytes :=
  packet frame.id frame.bytes.length (index * chunkSize) (chunk frame.bytes index)

theorem packets_length (frame : EncodedFrame) : frame.packets.length = frame.packetCount := by
  simp [packets, packetCount]

theorem packets_getElem? {frame : EncodedFrame} {index : Nat} (within : index < frame.packetCount) :
    frame.packets[index]? = some (frame.packetAt index) := by
  unfold packets packetCount packetAt at *
  simp [within]

/-- An index is one of a packet if its slice starts inside the frame. -/
theorem lt_packetCount {frame : EncodedFrame} {index : Nat} :
    index < frame.packetCount ↔ index * chunkSize < frame.bytes.length := by
  unfold packetCount
  rw [Nat.lt_div_iff_mul_lt chunkSize_pos]
  have := chunkSize_pos
  omega

theorem chunk_length (bytes : Bytes) (index : Nat) :
    (chunk bytes index).length = min chunkSize (bytes.length - index * chunkSize) := by
  simp [chunk]

theorem take_append_chunk (bytes : Bytes) (index : Nat) :
    bytes.take (index * chunkSize) ++ chunk bytes index = bytes.take ((index + 1) * chunkSize) := by
  rw [chunk, Nat.succ_mul, List.take_add]

/-- The slice of a packet ends the frame exactly at the last packet. -/
theorem ends_iff {frame : EncodedFrame} {index : Nat} (within : index < frame.packetCount) :
    index * chunkSize + (chunk frame.bytes index).length = frame.bytes.length ↔
      index + 1 = frame.packetCount := by
  have inside := lt_packetCount.mp within
  have next := @lt_packetCount frame (index + 1)
  rw [Nat.succ_mul] at next
  rw [chunk_length]
  constructor
  · intro ends
    have beyond : ¬ index + 1 < frame.packetCount := fun isNext => by
      have := next.mp isNext
      omega
    omega
  · intro isLast
    have beyond : ¬ index * chunkSize + chunkSize < frame.bytes.length := fun isNext => by
      have := next.mpr isNext
      omega
    omega

end EncodedFrame

end Cairn.Protocol.DataChannel

import Cairn.Library.HashMaps
import Cairn.Library.LittleEndian
import Cairn.Protocol.Direct

/-!
Owns the model of `protocol/src/data_channel.rs`: the packets of an encoded
frame, the reassembly budget shared by the decoders of an installation, and the
decoder of one data channel.

The JSON of a frame is a parameter. A computation is `none` where the code would
panic or a counter would run below zero. Times are nanoseconds of the monotonic
clock. The capacity of a buffer, which `push` grows up to the declared total, is
left out: no other value depends on it.
-/

set_option autoImplicit false

namespace Cairn.Protocol

open Cairn.Library Cairn.Library.HashMaps

/-- A byte string. -/
abbrev Bytes := List UInt8

/-- `MAX_BODY`. -/
def maxBody : Nat := 8000000

/-- `MAX_FRAME`. -/
def maxFrame : Nat := (maxBody + 2) / 3 * 4 + 65536

/-- `MAX_IN_FLIGHT`. -/
def maxInFlight : Nat := 32

/-- `REQUEST_TIMEOUT`. -/
def requestTimeout : Nat := 30 * 1000000000

namespace DataChannel

/-- `MAX_PACKET`. -/
def maxPacket : Nat := 16384

/-- `HEADER`. -/
def header : Nat := 13

/-- `u32::to_be_bytes` of the low 32 bits. -/
def toBeBytes (value : Nat) : Bytes := (LittleEndian.encode 4 value).reverse

/-- `u32::from_be_bytes`. -/
def fromBeBytes (bytes : Bytes) : Nat := LittleEndian.decode bytes.reverse

/-- What the channel takes from the JSON of frames: `to_vec`, `from_slice` and
`request_id_prefix`. -/
structure Codec (Frame : Type) where
  serialize : Frame → Option Bytes
  parse : Bytes → Option Frame
  requestIdPrefix : Bytes → Option String

/-- `EncodedFrame`. -/
structure EncodedFrame where
  id : UInt32
  bytes : Bytes
deriving DecidableEq, Repr

namespace EncodedFrame

/-- `EncodedFrame::new`. -/
def new {Frame : Type} (codec : Codec Frame) (id : UInt32) (frame : Frame) :
    Except String EncodedFrame :=
  match codec.serialize frame with
  | none => .error "Invalid application frame"
  | some bytes =>
      if id = 0 ∨ bytes.length > maxFrame then .error "Application frame too large"
      else .ok ⟨id, bytes⟩

/-- The payload size of a full packet. -/
def chunkSize : Nat := maxPacket - header

/-- One packet: version, transfer, total, offset and payload. -/
def packet (id : UInt32) (total offset : Nat) (payload : Bytes) : Bytes :=
  1 :: (toBeBytes id.toNat ++ (toBeBytes total ++ (toBeBytes offset ++ payload)))

/-- The piece of `chunks` at an index. -/
def chunk (bytes : Bytes) (index : Nat) : Bytes := (bytes.drop (index * chunkSize)).take chunkSize

/-- `EncodedFrame::packets`. -/
def packets (frame : EncodedFrame) : List Bytes :=
  (List.range ((frame.bytes.length + chunkSize - 1) / chunkSize)).map fun index =>
    packet frame.id frame.bytes.length (index * chunkSize) (chunk frame.bytes index)

end EncodedFrame

/-- The packet that aborts a transfer. -/
def abortPacket (id : UInt32) : Bytes := EncodedFrame.packet id 0 0 []

/-! ### Budget -/

/-- `DecodeError`. -/
inductive DecodeError where
  | busy
  | rejected (request : Option String)
  | invalid (message : String)
deriving DecidableEq, Repr

/-- `Reservations`, the state the handles of a budget share. -/
structure Reservations where
  total : Nat
  members : Nat
  accounts : HashMap String Nat

/-- `Reservations::default`. -/
def Reservations.initial : Reservations := ⟨0, 0, ∅⟩

/-- `ReassemblyBudget`, without the shared state. -/
structure ReassemblyBudget where
  account : String
  member : Bool
deriving DecidableEq, Repr

/-- A subtraction on `usize`. -/
def checkedSub (value amount : Nat) : Option Nat :=
  if amount ≤ value then some (value - amount) else none

namespace ReassemblyBudget

/-- `ReassemblyBudget::for_account`. -/
def forAccount (account : String) (role : Role) : ReassemblyBudget := ⟨account, role = .member⟩

/-- `ReassemblyBudget::reserve`. -/
def reserve (bytes : Nat) (budget : ReassemblyBudget) (reserved : Reservations) :
    Except DecodeError Reservations :=
  let account := getD reserved.accounts budget.account 0
  if reserved.total + bytes > 2 * maxFrame ∨ account + bytes > maxFrame ∨
      (budget.member = true ∧ reserved.members + bytes > maxFrame) then
    .error .busy
  else
    .ok {
      total := reserved.total + bytes
      members := if budget.member then reserved.members + bytes else reserved.members
      accounts := reserved.accounts.insert budget.account (account + bytes) }

/-- The members' counter after bytes of the handle are returned. -/
def releasedMembers (bytes : Nat) (budget : ReassemblyBudget) (reserved : Reservations) :
    Option Nat :=
  if budget.member then checkedSub reserved.members bytes else some reserved.members

/-- An account with what remains reserved for it; it is removed at zero. -/
def settled (account : String) (remaining : Nat) (accounts : HashMap String Nat) :
    HashMap String Nat :=
  if remaining = 0 then accounts.erase account else accounts.insert account remaining

/-- `Drop` of a `Reservation`. -/
def release (bytes : Nat) (budget : ReassemblyBudget) (reserved : Reservations) :
    Option Reservations := do
  let total ← checkedSub reserved.total bytes
  let members ← budget.releasedMembers bytes reserved
  let account ← reserved.accounts.lookup budget.account
  let remaining ← checkedSub account bytes
  some ⟨total, members, settled budget.account remaining reserved.accounts⟩

end ReassemblyBudget

/-! ### Decoder -/

/-- `Discarded`. -/
structure Discarded where
  total : Nat
  received : Nat
deriving DecidableEq, Repr

/-- `Assembly`; `reservation` is the size of the reservation it holds. -/
structure Assembly where
  reservation : Nat
  total : Nat
  bytes : Bytes
  lastProgress : Nat
deriving DecidableEq, Repr

/-- `FrameDecoder`. -/
structure FrameDecoder where
  pending : HashMap UInt32 Assembly
  discarded : HashMap UInt32 Discarded
  buffered : Nat
  budget : ReassemblyBudget

/-- The clock readings of one call: the one `expire` compares each assembly with,
the one of a new assembly and the one of its progress. -/
structure Readings where
  visited : UInt32 → Nat
  admitted : Nat
  progressed : Nat

/-- What a packet says after the checks on its header. -/
structure Fragment where
  id : UInt32
  total : Nat
  offset : Nat
  payload : Bytes
deriving DecidableEq, Repr

/-- The checks `push` makes on a packet before it looks at its state. -/
def fragment (packet : Bytes) : Except DecodeError Fragment :=
  if packet.length < header ∨ packet.length > maxPacket ∨ packet.head? ≠ some 1 then
    .error (.invalid "Invalid DataChannel fragment")
  else
    let id := UInt32.ofNat (fromBeBytes ((packet.drop 1).take 4))
    let total := fromBeBytes ((packet.drop 5).take 4)
    let offset := fromBeBytes ((packet.drop 9).take 4)
    if id = 0 ∨ total > maxFrame then .error (.invalid "Invalid transfer size")
    else .ok ⟨id, total, offset, packet.drop header⟩

/-- The fragment is an abort. -/
def Fragment.Aborts (fragment : Fragment) : Prop :=
  fragment.total = 0 ∧ fragment.offset = 0 ∧ fragment.payload = []

instance (fragment : Fragment) : Decidable fragment.Aborts := by
  unfold Fragment.Aborts
  infer_instance

/-- The payload is empty or reaches past the declared total. -/
def Fragment.Exceeds (fragment : Fragment) : Prop :=
  fragment.payload = [] ∨ fragment.offset + fragment.payload.length > fragment.total

instance (fragment : Fragment) : Decidable fragment.Exceeds := by
  unfold Fragment.Exceeds
  infer_instance

namespace FrameDecoder

/-- `FrameDecoder::with_budget`. -/
def withBudget (budget : ReassemblyBudget) : FrameDecoder := ⟨∅, ∅, 0, budget⟩

/-- An assembly leaves `pending` and returns its reservation. -/
def remove (id : UInt32) (frame : Assembly) (decoder : FrameDecoder) (reserved : Reservations) :
    Option (FrameDecoder × Reservations) := do
  let buffered ← checkedSub decoder.buffered frame.bytes.length
  let reserved ← decoder.budget.release frame.reservation reserved
  some ({ decoder with pending := decoder.pending.erase id, buffered := buffered }, reserved)

/-- One assembly whose time has run out. -/
def discard (state : FrameDecoder × Reservations) (entry : (_ : UInt32) × Assembly) :
    Option (FrameDecoder × Reservations) := do
  let (decoder, reserved) ← state.1.remove entry.1 entry.2 state.2
  some ({ decoder with
    discarded := decoder.discarded.insert entry.1 ⟨entry.2.total, entry.2.bytes.length⟩ }, reserved)

/-- The assemblies `expire` gives up. -/
def overdue (readings : Readings) (decoder : FrameDecoder) : List ((_ : UInt32) × Assembly) :=
  decoder.pending.entries.filter fun entry =>
    ¬ readings.visited entry.1 - entry.2.lastProgress < requestTimeout

/-- `FrameDecoder::expire`. -/
def expire (readings : Readings) (decoder : FrameDecoder) (reserved : Reservations) :
    Option (FrameDecoder × Reservations) :=
  (decoder.overdue readings).foldlM discard (decoder, reserved)

variable {Frame : Type} (codec : Codec Frame)

/-- What a call leaves and answers. -/
abbrev Answer (Frame : Type) :=
  (FrameDecoder × Reservations) × Except DecodeError (Option Frame)

/-- `serde_json::from_slice` of a complete frame. -/
def decoded (bytes : Bytes) : Except DecodeError (Option Frame) :=
  match codec.parse bytes with
  | some frame => .ok (some frame)
  | none => .error (.invalid "Invalid application frame")

/-- The branch of an abort. -/
def abort (id : UInt32) (decoder : FrameDecoder) (reserved : Reservations) :
    Option (Answer Frame) := do
  let (decoder, reserved) ← match decoder.pending.lookup id with
    | some frame => decoder.remove id frame reserved
    | none => some (decoder, reserved)
  some (({ decoder with discarded := decoder.discarded.erase id }, reserved), .ok none)

/-- The branch of a fragment of a discarded transfer. -/
def drain (fragment : Fragment) (discarded : Discarded) (decoder : FrameDecoder)
    (reserved : Reservations) : Answer Frame :=
  if discarded.total ≠ fragment.total ∨ discarded.received ≠ fragment.offset then
    ((decoder, reserved), .error (.invalid "Invalid discarded fragment sequence"))
  else
    let received := discarded.received + fragment.payload.length
    (({ decoder with
        discarded :=
          if received = fragment.total then decoder.discarded.erase fragment.id
          else decoder.discarded.insert fragment.id ⟨discarded.total, received⟩ }, reserved),
      .ok none)

/-- The payload joins its assembly, which is dispatched when it is complete. -/
def extend (readings : Readings) (fragment : Fragment) (decoder : FrameDecoder)
    (reserved : Reservations) : Option (Answer Frame) :=
  match decoder.pending.lookup fragment.id with
  | none => some ((decoder, reserved), .error (.invalid "Unknown transfer"))
  | some frame =>
      if frame.total ≠ fragment.total ∨ frame.bytes.length ≠ fragment.offset then
        some ((decoder, reserved), .error (.invalid "Invalid fragment sequence"))
      else
        let frame := { frame with
          bytes := frame.bytes ++ fragment.payload
          lastProgress := readings.progressed }
        let decoder := { decoder with
          pending := decoder.pending.insert fragment.id frame
          buffered := decoder.buffered + fragment.payload.length }
        if frame.bytes.length ≠ fragment.total then some ((decoder, reserved), .ok none)
        else do
          let state ← decoder.remove fragment.id frame reserved
          some (state, decoded codec frame.bytes)

/-- The reservation a new transfer asks for. -/
def claim (total : Nat) (decoder : FrameDecoder) (reserved : Reservations) :
    Except DecodeError Reservations :=
  if sum Assembly.total decoder.pending + total > maxFrame then .error .busy
  else decoder.budget.reserve total reserved

/-- `admit`: the branch of a first fragment. -/
def admitFragment (readings : Readings) (fragment : Fragment) (decoder : FrameDecoder)
    (reserved : Reservations) : Option (Answer Frame) :=
  if fragment.id ∈ decoder.pending ∨
      size decoder.pending + size decoder.discarded ≥ maxInFlight then
    some ((decoder, reserved), .error (.invalid "Too many incomplete transfers"))
  else if decoder.budget.member = true ∧ fragment.payload.length = fragment.total then
    -- a complete member frame needs neither an assembly nor a reservation
    some ((decoder, reserved), decoded codec fragment.payload)
  else
    match decoder.claim fragment.total reserved with
    | .ok reserved =>
        let frame : Assembly := ⟨fragment.total, fragment.total, [], readings.admitted⟩
        extend codec readings fragment
          { decoder with pending := decoder.pending.insert fragment.id frame } reserved
    | .error error =>
        if error = .busy ∧ (decoder.budget.member = true ∨ decoder.pending.entries ≠ []) then
          let discarded :=
            if fragment.payload.length < fragment.total then
              decoder.discarded.insert fragment.id ⟨fragment.total, fragment.payload.length⟩
            else decoder.discarded
          some (({ decoder with discarded := discarded }, reserved),
            .error (.rejected (codec.requestIdPrefix fragment.payload)))
        else some ((decoder, reserved), .error error)

/-- What `push` does with a checked fragment. -/
def accept (readings : Readings) (fragment : Fragment) (decoder : FrameDecoder)
    (reserved : Reservations) : Option (Answer Frame) :=
  if fragment.Aborts then decoder.abort fragment.id reserved
  else if fragment.Exceeds then
    some ((decoder, reserved), .error (.invalid "DataChannel reassembly limit exceeded"))
  else
    match decoder.discarded.lookup fragment.id with
    | some discarded => some (decoder.drain fragment discarded reserved)
    | none =>
        if fragment.offset = 0 then decoder.admitFragment codec readings fragment reserved
        else decoder.extend codec readings fragment reserved

/-- `FrameDecoder::push`. -/
def push (readings : Readings) (packet : Bytes) (decoder : FrameDecoder)
    (reserved : Reservations) : Option (Answer Frame) := do
  let (decoder, reserved) ← decoder.expire readings reserved
  match fragment packet with
  | .error error => some ((decoder, reserved), .error error)
  | .ok fragment => decoder.accept codec readings fragment reserved

/-- `Drop` of a decoder: every assembly returns its reservation. -/
def drop (decoder : FrameDecoder) (reserved : Reservations) : Option Reservations :=
  decoder.pending.entries.foldlM
    (fun reserved entry => decoder.budget.release entry.2.reservation reserved) reserved

end FrameDecoder

end DataChannel

end Cairn.Protocol

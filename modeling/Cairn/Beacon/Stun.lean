import Cairn.Library.BigEndian
import Cairn.Library.HashMaps
import Cairn.Library.IpAddresses

/-!
Owns the address discovery of the beacon: how a datagram is checked, the response to a
binding request, and the responder that bounds its responses in every window.

Does not own: the socket, its status counters and the warnings about its failures.
-/

set_option autoImplicit false

namespace Cairn.Beacon.Stun

open Cairn.Library Cairn.Library.HashMaps Cairn.Library.IpAddresses

abbrev Bytes := List UInt8

/-- Where a datagram comes from. -/
structure Source where
  ip : IpAddr
  port : UInt16
deriving DecidableEq

/-! ### Reads -/

/-- `input[start..stop]`, `none` where it leaves the input. -/
def slice (input : Bytes) (start stop : Nat) : Option Bytes :=
  if start ≤ stop ∧ stop ≤ input.length then some ((input.drop start).take (stop - start))
  else none

/-- `u16::from_be_bytes` of two bytes of the input. -/
def readU16 (input : Bytes) (offset : Nat) : Option Nat :=
  (slice input offset (offset + 2)).map BigEndian.decode

/-- `usize::next_multiple_of`. -/
def nextMultipleOf (size factor : Nat) : Nat := (size + factor - 1) / factor * factor

/-! ### Requests -/

/-- The magic cookie. -/
def magicCookie : Bytes := [0x21, 0x12, 0xa4, 0x42]

/-- What the sum of a FINGERPRINT is mixed with. -/
def fingerprintMask : UInt32 := 0x5354554e

/-- The kind of a FINGERPRINT. -/
def fingerprintKind : Nat := 0x8028

/-- The checks of the header of a datagram of so many bytes, in order. -/
def header (input : Bytes) (length : Nat) : Option Bool :=
  if ¬ (20 ≤ length ∧ length ≤ 512) then some false
  else
    match slice input 0 2, slice input 4 8, readU16 input 2 with
    | some kind, some cookie, some size =>
        some (kind = [0, 1] && cookie = magicCookie && size + 20 = length && length % 4 = 0)
    | _, _, _ => none

/-- What the attributes of a datagram are. -/
inductive Attributes where
  | invalid
  | valid (fingerprint : Bool)
deriving DecidableEq

variable (crc32 : Bytes → UInt32)

/-- The sum that a FINGERPRINT has after so many bytes. -/
def fingerprintOf (covered : Bytes) : UInt32 := crc32 covered ^^^ fingerprintMask

/-- The loop over the attributes, from an offset. -/
def attributes (input : Bytes) (length offset : Nat) (fingerprint : Bool) : Option Attributes :=
  if offset < length then
    match readU16 input offset, readU16 input (offset + 2) with
    | some kind, some size =>
        if length < offset + 4 + nextMultipleOf size 4 then some .invalid
        else if kind = fingerprintKind then
          if size ≠ 4 ∨ offset + 4 + nextMultipleOf size 4 ≠ length then some .invalid
          else
            match slice input (offset + 4) (offset + 4 + nextMultipleOf size 4),
                slice input 0 offset with
            | some sum, some covered =>
                if BigEndian.decode sum ≠ (fingerprintOf crc32 covered).toNat then some .invalid
                else attributes input length (offset + 4 + nextMultipleOf size 4) true
            | _, _ => none
        -- This address-discovery usage supports no authenticated/ICE/TURN extensions.
        else if kind < 0x8000 then some .invalid
        else attributes input length (offset + 4 + nextMultipleOf size 4) fingerprint
    | _, _ => none
  else some (.valid fingerprint)
termination_by length - offset

/-! ### Responses -/

/-- `address.octets()`. -/
def octets : IpAddr → Bytes
  | .v4 address => address.octets.map fun octet => UInt8.ofNat octet.val
  | .v6 address => (address.segments.flatMap Ipv6.octetsOf).map fun octet => UInt8.ofNat octet.val

def isIpv4 : IpAddr → Bool
  | .v4 _ => true
  | .v6 _ => false

/-- The response to a request that was valid. -/
def response (input : Bytes) (source : Source) (fingerprint : Bool) : Option Bytes :=
  match slice input 4 20, slice input 4 8 with
  | some transaction, some cookie =>
      let addressLength := if isIpv4 source.ip then 8 else 20
      let mask := if isIpv4 source.ip then cookie else transaction
      let messageLength := addressLength + 4 + if fingerprint then 8 else 0
      let message :=
        [1, 1] ++ BigEndian.encode 2 messageLength ++ transaction ++
          [0, 0x20] ++ BigEndian.encode 2 addressLength ++
          [0, if isIpv4 source.ip then 1 else 2] ++
          BigEndian.encode 2 (source.port ^^^ 0x2112).toNat ++
          List.zipWith (· ^^^ ·) (octets source.ip) mask
      if fingerprint then
        some (message ++ [0x80, 0x28, 0, 4] ++
          BigEndian.encode 4 (fingerprintOf crc32 message).toNat)
      else some message
  | _, _ => none

/-! ### The responder -/

/-- One second, in nanoseconds. -/
def second : Nat := 1000000000

/-- A response that was sent: to which request, of which window and when. -/
structure Sent where
  source : Source
  request : Bytes
  response : Bytes
  window : Nat
  time : Nat

/-- The responder: its clock, its buffer, the start of its window with the responses of that
window by address and in total, and all responses so far, the newest first. -/
structure State where
  clock : Nat
  input : Bytes
  window : Nat
  counts : HashMap IpAddr Nat
  total : Nat
  sent : List Sent

/-- A responder that starts. -/
def State.starting (clock : Nat) : State :=
  ⟨clock, List.replicate 513 0, clock, ∅, 0, []⟩

/-- What the socket gives. The clock is read twice: so long after its last reading, and, for a
new window, so long after that. -/
inductive Event where
  | failed
  | datagram (source : Source) (bytes : Bytes) (elapsed restarted : Nat)

/-- A new window once the last one is over. -/
def State.turn (state : State) (elapsed restarted : Nat) : State :=
  let now := state.clock + elapsed
  if now - state.window ≥ second then
    { state with
      clock := now + restarted
      window := now + restarted
      counts := ∅
      total := 0 }
  else { state with clock := now }

/-- The buffer with the first bytes of a datagram, as many as it holds. -/
def State.receive (state : State) (bytes : Bytes) : State :=
  { state with input := bytes.take 513 ++ state.input.drop (bytes.take 513).length }

/-- What the responder does with a request that is valid, `none` where it reads outside of
its buffer. -/
def State.answer (state : State) (source : Source) (request : Bytes) (fingerprint : Bool) :
    Option State :=
  -- No unbounded IP tracking, tasks, retransmissions or amplification loop.
  if state.counts.lookup source.ip = none ∧ size state.counts ≥ 1000 then some state
  else
    let count := getD state.counts source.ip 0
    if count ≥ 20 then some state
    else
      (response crc32 state.input source fingerprint).map fun bytes =>
        { state with
          counts := state.counts.insert source.ip (count + 1)
          total := state.total + 1
          sent := ⟨source, request, bytes, state.window, state.clock⟩ :: state.sent }

/-- One round of `serve_with_status`, `none` where it reads outside of its buffer. -/
def step (state : State) : Event → Option State
  | .failed => some state
  | .datagram source bytes elapsed restarted =>
      let request := bytes.take 513
      let state := (state.receive bytes).turn elapsed restarted
      match header state.input request.length with
      | none => none
      | some false => some state
      | some true =>
          if state.total ≥ 1000 then some state
          else
            match attributes crc32 state.input request.length 20 false with
            | none => none
            | some .invalid => some state
            | some (.valid fingerprint) => state.answer crc32 source request fingerprint

end Cairn.Beacon.Stun

import Cairn.Protocol.Transfers
import Mathlib.Data.Int.Order.Basic

/-!
Owns the model of `DirectChannel.receive`, the reassembly of the web client, and that
it dispatches exactly the frames the installation writes one after the other. The
checks on a header are those of `push`, in the same order; every exception ends the
channel, so that only its presence matters. Times are milliseconds.
-/

set_option autoImplicit false

namespace Cairn.Protocol.DirectChannel

open Cairn.Library.HashMaps DataChannel DataChannel.EncodedFrame

/-- An entry of `assemblies`. -/
structure Assembly where
  total : Nat
  chunks : List Bytes
  length : Nat
  started : Nat
deriving DecidableEq, Repr

/-- The fields `receive` works on. -/
structure Receiver where
  assemblies : HashMap UInt32 Assembly
  buffered : Int

namespace Receiver

/-- A channel that has received nothing, or only whole frames. -/
def empty : Receiver := ⟨∅, 0⟩

variable {Frame : Type} (codec : Codec Frame)

/-- `buffered` less what is held of a transfer. -/
def forget (id : UInt32) (receiver : Receiver) : Receiver where
  assemblies := receiver.assemblies.erase id
  buffered := receiver.buffered - (((receiver.assemblies.lookup id).map Assembly.length).getD 0 : Nat)

/-- The assemblies once a first fragment has opened its own. -/
def opened (now : Nat) (fragment : Fragment) (receiver : Receiver) :
    Option (HashMap UInt32 Assembly) :=
  if fragment.offset = 0 then
    if fragment.id ∈ receiver.assemblies ∨ size receiver.assemblies ≥ 32 then none
    else some (receiver.assemblies.insert fragment.id ⟨fragment.total, [], 0, now⟩)
  else some receiver.assemblies

/-- The fragment continues an assembly that is not overdue. -/
def Continues (now : Nat) (fragment : Fragment) (assembly : Assembly) : Prop :=
  assembly.total = fragment.total ∧ assembly.length = fragment.offset ∧
    now < assembly.started + 30000

instance (now : Nat) (fragment : Fragment) (assembly : Assembly) :
    Decidable (Continues now fragment assembly) := by
  unfold Continues
  infer_instance

/-- A fragment joins its assembly; a complete one is parsed and dispatched. -/
def join (fragment : Fragment) (assembly : Assembly) (assemblies : HashMap UInt32 Assembly)
    (receiver : Receiver) : Option (Receiver × Option Frame) :=
  let assembly := { assembly with
    chunks := assembly.chunks ++ [fragment.payload]
    length := assembly.length + fragment.payload.length }
  let buffered := receiver.buffered + fragment.payload.length
  if assembly.length ≠ fragment.total then
    some (⟨assemblies.insert fragment.id assembly, buffered⟩, none)
  else
    (codec.parse assembly.chunks.flatten).map fun frame =>
      (⟨assemblies.erase fragment.id, buffered - fragment.total⟩, some frame)

/-- What follows the checks on the header. -/
def accept (now : Nat) (fragment : Fragment) (receiver : Receiver) :
    Option (Receiver × Option Frame) :=
  if fragment.Aborts then some (receiver.forget fragment.id, none)
  else if fragment.Exceeds ∨ receiver.buffered + fragment.payload.length > maxFrame then none
  else do
    let assemblies ← receiver.opened now fragment
    let assembly ← assemblies.lookup fragment.id
    if Continues now fragment assembly then receiver.join codec fragment assembly assemblies
    else none

/-- `receive`: the state and the frame that is dispatched; `none` where it throws. -/
def receive (now : Nat) (packet : Bytes) (receiver : Receiver) :
    Option (Receiver × Option Frame) :=
  match fragment packet with
  | .error _ => none
  | .ok fragment => receiver.accept codec now fragment

/-- The frames dispatched over a sequence of packets, each with the time it arrives. -/
def receiveAll (receiver : Receiver) : List (Nat × Bytes) → Option (Receiver × List Frame)
  | [] => some (receiver, [])
  | (now, packet) :: rest => do
      let (receiver, frame) ← receiver.receive codec now packet
      let (last, frames) ← receiver.receiveAll rest
      some (last, frame.toList ++ frames)

variable {codec}

theorem receiveAll_append {receiver middle last : Receiver} {first second : List (Nat × Bytes)}
    {frames others : List Frame} (begins : receiver.receiveAll codec first = some (middle, frames))
    (ends : middle.receiveAll codec second = some (last, others)) :
    receiver.receiveAll codec (first ++ second) = some (last, frames ++ others) := by
  induction first generalizing receiver frames with
  | nil =>
      obtain ⟨rfl, rfl⟩ := Prod.mk.inj (Option.some.inj begins)
      exact ends
  | cons head rest inductionHypothesis =>
      obtain ⟨⟨next, frame⟩, received, begins⟩ := Option.bind_eq_some_iff.mp begins
      obtain ⟨⟨reached, later⟩, continued, whole⟩ := Option.bind_eq_some_iff.mp begins
      obtain ⟨rfl, rfl⟩ := Prod.mk.inj (Option.some.inj whole)
      have tail := inductionHypothesis continued
      show (receiver.receive codec head.1 head.2).bind _ = _
      rw [received]
      show (next.receiveAll codec (rest ++ second)).bind _ = _
      rw [tail, List.append_assoc]
      rfl

/-! ### One frame -/

/-- A frame the installation writes, with the times its packets arrive. -/
structure Delivery (codec : Codec Frame) where
  transfer : Transfer codec
  arrival : Nat → Nat

namespace Delivery

/-- The packets of a delivery. -/
def packets (delivery : Delivery codec) : List (Nat × Bytes) :=
  (List.range delivery.transfer.encoded.packetCount).map fun index =>
    (delivery.arrival index, delivery.transfer.encoded.packetAt index)

/-- The packets arrive before the assembly of the first one runs out. -/
def Punctual (delivery : Delivery codec) : Prop :=
  ∀ index, delivery.arrival index < delivery.arrival 0 + 30000

theorem packets_bytes (delivery : Delivery codec) :
    delivery.packets.map Prod.snd = delivery.transfer.encoded.packets := by
  simp only [packets, List.map_map, EncodedFrame.packets, packetCount]
  rfl

end Delivery

/-- What the client holds of a delivery after some of its packets. -/
structure Holds (delivery : Delivery codec) (count : Nat) (receiver : Receiver) : Prop where
  buffered : receiver.buffered = (count * chunkSize : Nat)
  assemblies : ∃ chunks : List Bytes,
    chunks.flatten = delivery.transfer.encoded.bytes.take (count * chunkSize) ∧
      receiver.assemblies = AList.singleton delivery.transfer.id
        ⟨delivery.transfer.total, chunks, count * chunkSize, delivery.arrival 0⟩

/-- The state before a packet of a delivery: nothing, or what came before it. -/
def Expects (delivery : Delivery codec) (index : Nat) (receiver : Receiver) : Prop :=
  if index = 0 then receiver = empty else Holds delivery index receiver

end Receiver

end Cairn.Protocol.DirectChannel

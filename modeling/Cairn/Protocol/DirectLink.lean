import Cairn.Library.Steps
import Cairn.Protocol.DirectChannel

/-!
Owns the model of one direct connection: a client's `DirectChannel`, the reader of
`direct/peer.rs` with its `FrameDecoder`, and the packets and replies between them.
A run is any order of the blocks of the client, of packets read and timer ticks at
the installation with any clock readings and shared counters, and of replies.

The channel delivers packets in order. A packet carries the send that wrote it, and
`read`, `rejected` and `expired` record what the reader has done; only the bytes of
a packet reach the decoder. Frames of the installation arrive whole, in order.
-/

set_option autoImplicit false

namespace Cairn.Protocol.DirectChannel

open Cairn.Library Cairn.Library.HashMaps DataChannel

/-! ### Packets in order -/

namespace Written

/-- What a packet says of its transfer before its slice arrives. -/
def inflight (written : Written) (offset : Nat) : Inflight :=
  ⟨written.key, written.payload, offset⟩

/-- The packet ends its payload. -/
def Completes (written : Written) : Prop :=
  ∃ offset, written.part = some offset ∧ DataChannel.Completes written.payload offset

/-- The packet is the last one of its send. -/
def Ends (written : Written) : Prop := written.part = none ∨ written.Completes

/-- The transfers under way after a packet; `none` if it does not continue them. -/
def advance (progress : Progress) (written : Written) : Option Progress :=
  match written.part with
  | none =>
      if (progress.lookup written.transfer).map Inflight.key = some written.key then
        some (progress.erase written.transfer)
      else none
  | some offset =>
      if progress.lookup written.transfer =
          if offset = 0 then none else some (written.inflight offset) then
        some (progress.place written.transfer (written.inflight offset))
      else none

end Written

/-- The transfers under way after a sequence of packets. -/
def track (packets : List Written) : Option Progress := packets.foldlM Written.advance ∅

/-! ### The connection -/

/-- A client, the packets under way, the reader of the installation and the replies
under way; `ended` is the error that ended the reader. -/
structure Link where
  channel : Channel
  wire : List Written
  read : List Written
  decoder : FrameDecoder
  ended : Option String
  emitted : List (Nat × Frame)
  handed : List Frame
  replies : List Reply
  rejected : List Nat
  expired : List Nat

/-- `response_header`. -/
def responseHeader (name : String) : Bool :=
  name ∈ ["content-type", "content-length", "content-disposition", "etag", "last-modified",
    "accept-ranges", "content-range", "retry-after", "mcp-protocol-version", "www-authenticate"]

/-- A reply of the application, with the headers that pass `response_header`. -/
def Reply.passed : Reply → Reply
  | .response id status headers accepted =>
      .response id status (headers.filter fun header => responseHeader header.1) accepted
  | .streamStart id status headers =>
      .streamStart id status (headers.filter fun header => responseHeader header.1)
  | .streamChunk id accepted => .streamChunk id accepted
  | .streamEnd id failed => .streamEnd id failed

/-- The response to a request that was rejected before its dispatch. -/
def rejection (id : String) : Reply := .response id 503 [(rejectionHeader, rejectionCode)] true

/-- The blocks of the two sides. -/
inductive Action where
  | request (id : String) (call : Call) (aborted : Bool)
  | abort (id : String)
  | timeOut (id : String)
  | pull (id : String)
  | cancel (id : String)
  | admitNext (key : Nat)
  | capacity (key : Nat)
  | write (key : Nat)
  | settle (key : Nat)
  | close
  | disconnect
  | receive
  | read (readings : Readings) (reserved : Reservations) (full : Bool)
  | tick (readings : Readings) (reserved : Reservations)
  | reply (reply : Reply)

namespace Link

/-- A connection that has just opened. -/
def initial (budget : ReassemblyBudget) : Link :=
  ⟨Channel.initial, [], [], FrameDecoder.withBudget budget, none, [], [], [], [], []⟩

/-- Every packet written so far. -/
def packets (link : Link) : List Written := link.read ++ link.wire

/-- The sends whose transfers an expiry gives up. -/
def overdue (readings : Readings) (link : Link) : List Nat :=
  (link.decoder.overdue readings).filterMap fun entry =>
    ((track link.read).getD ∅).lookup entry.1 |>.map Inflight.key

/-- A packet has been read. -/
def consume (written : Written) (rest : List Written) (link : Link) : Link :=
  { link with wire := rest, read := link.read ++ [written] }

/-- What the reader does with an answer of its decoder; `full` is whether the queue of
the dispatcher has no room. -/
def handle (written : Written) (rest : List Written) (full : Bool) (link : Link) :
    Except DecodeError (Option Frame) → Link
  | .ok none => link.consume written rest
  | .ok (some frame) =>
      let link := { link.consume written rest with
        emitted := link.emitted ++ [(written.key, frame)] }
      if full then { link with ended := some "Direct ingress busy." }
      else { link with handed := link.handed ++ [frame] }
  | .error .busy => link
  | .error (.rejected id) =>
      { link.consume written rest with
        rejected := link.rejected ++ [written.key]
        replies := link.replies ++ (id.map rejection).toList }
  | .error (.invalid message) => { link with ended := some message }

variable (codec : Codec Frame)

/-- The reader takes the next packet. -/
def readNext (readings : Readings) (reserved : Reservations) (full : Bool) (link : Link) :
    Option Link :=
  match link.wire, link.ended with
  | written :: rest, none => do
      let ((decoder, _), answer) ← link.decoder.push codec readings written.bytes reserved
      let link := { link with
        decoder := decoder
        expired := link.expired ++ link.overdue readings }
      some (link.handle written rest full answer)
  | _, _ => none

/-- The timer of the reader. -/
def tick (readings : Readings) (reserved : Reservations) (link : Link) : Option Link :=
  match link.ended with
  | none => do
      let (decoder, _) ← link.decoder.expire readings reserved
      some { link with decoder := decoder, expired := link.expired ++ link.overdue readings }
  | some _ => none

/-- The client has run a block. -/
def withChannel (channel : Channel) (link : Link) : Link := { link with channel := channel }

/-- The client has run a block that may have written a packet. -/
def withWritten (written : Channel × Option Written) (link : Link) : Link :=
  { link with channel := written.1, wire := link.wire ++ written.2.toList }

/-- One block of either side. -/
def step (identity : Identity) (link : Link) : Action → Option Link
  | .request id call aborted =>
      (link.channel.request codec identity id call aborted).map link.withChannel
  | .abort id => (link.channel.abort codec id).map link.withChannel
  | .timeOut id => (link.channel.timeOut codec id).map link.withChannel
  | .pull id => (link.channel.pull codec id).map link.withChannel
  | .cancel id => (link.channel.cancel codec id).map link.withChannel
  | .admitNext key => (link.channel.admitNext key).map link.withChannel
  | .capacity key => (link.channel.capacity key).map link.withChannel
  | .write key => (link.channel.write key).map link.withWritten
  | .settle key => (link.channel.settle key).map link.withChannel
  | .close => some (link.withChannel link.channel.close)
  | .disconnect => some (link.withChannel { link.channel with isOpen := false })
  | .receive =>
      match link.replies with
      | [] => none
      | reply :: rest =>
          some { link.withChannel (link.channel.receive reply) with replies := rest }
  | .read readings reserved full => link.readNext codec readings reserved full
  | .tick readings reserved => link.tick readings reserved
  | .reply reply => some { link with replies := link.replies ++ [reply.passed] }

/-- The connection after a run. -/
def run (identity : Identity) (budget : ReassemblyBudget) (actions : List Action) : Option Link :=
  Steps.execute (step codec identity) (initial budget) actions

end Link

end Cairn.Protocol.DirectChannel

import Cairn.Protocol.DecoderTracking

/-!
Owns the model of `DirectChannel` in `apps/web/src/direct-channel.ts`: the
requests a web client waits for, the sends that share one data channel, and what
a reply of the installation does to a request. `sendRequest` of
`installation-transport.ts`, which decides what is replayed over the relay, is
modelled at its end.

One definition is one synchronous block of the source: a send is admitted, passes
`capacity`, writes one packet and is settled in blocks of its own, and other
blocks may run in between. A send is known by its place in the order of the calls
of `send`. `failed` closes the channel at once, as the transport does; after an
exception in a send it runs in a block of its own. The names of headers are in
lower case and methods are ASCII.

Does not own the packets that arrive at the client.
-/

set_option autoImplicit false

namespace Cairn.Protocol.DirectChannel

open Cairn.Library.HashMaps DataChannel

/-! ### Requests -/

/-- The arguments of `request`, with the headers as `new Headers` lists them. -/
structure Call where
  method : Option String
  path : String
  headers : List (String × String)
  body : Option String
deriving DecidableEq, Repr

/-- `identity`. -/
structure Identity where
  accountId : String
  role : Role

/-- What a frame of type `request` carries next to its identifier; `body` is what
`base64` encodes. -/
structure RequestFrame where
  accountId : String
  role : Role
  method : String
  path : String
  headers : List (String × String)
  body : Bytes
deriving DecidableEq

/-- The frames a client sends. -/
inductive Frame where
  | request (id : String) (request : RequestFrame)
  | streamCredit (id : String)
  | cancel (id : String)
deriving DecidableEq

/-- The request a frame makes. -/
def Frame.requestId : Frame → Option String
  | .request id _ => some id
  | .streamCredit _ => none
  | .cancel _ => none

namespace Call

/-- `body` of `request`. -/
def bytes (call : Call) : Bytes :=
  match call.body with
  | some text => text.toUTF8.toList
  | none => []

/-- `streaming`: the path without its query ends in `/stream`. -/
def streaming (call : Call) : Bool :=
  ("/stream".toList).isSuffixOf (call.path.toList.takeWhile fun char => char ≠ '?')

/-- The names of the headers that are forwarded. -/
def forwardedNames : List String :=
  ["content-type", "accept", "range", "if-none-match", "if-modified-since", "last-event-id",
    "mcp-protocol-version", "mcp-method"]

/-- `headers` once a body without a type has been given one; `Headers` keeps its
names in order. -/
def typedHeaders (call : Call) : List (String × String) :=
  if call.body ≠ none ∧ "content-type" ∉ call.headers.map Prod.fst then
    call.headers.takeWhile (fun header => header.1 < "content-type") ++
      ("content-type", "application/json") ::
        call.headers.dropWhile (fun header => header.1 < "content-type")
  else call.headers

/-- `forwarded`. -/
def forwarded (call : Call) : List (String × String) :=
  call.typedHeaders.filter fun header => header.1 ∈ forwardedNames

/-- The frame of a request. -/
def frame (identity : Identity) (call : Call) : RequestFrame where
  accountId := identity.accountId
  role := identity.role
  method := call.method.getD "GET"
  path := call.path
  headers := call.forwarded
  body := call.bytes

end Call

/-- What a promise is rejected with. -/
inductive Failure where
  | transportLost
  | transportNotSent
  | timedOut
  | aborted
deriving DecidableEq, Repr

/-- How the promise of a request was settled. -/
inductive Outcome where
  | resolved (status : Nat)
  | rejected (failure : Failure)
deriving DecidableEq, Repr

/-- `Pending`, without its callbacks. -/
structure Pending where
  streaming : Bool
  started : Bool
  credited : Bool
  sent : Bool
deriving DecidableEq, Repr

/-! ### The channel -/

/-- Where a call of `send` stands: before its reservation, before `capacity`, past
it, or done with its last packet. -/
inductive Stage where
  | waiting
  | reserved
  | ready
  | done
deriving DecidableEq, Repr

/-- A call of `send`. -/
structure Send where
  frame : Frame
  transfer : UInt32
  payload : Bytes
  offset : Nat
  stage : Stage

/-- A packet a call of `send` writes: a slice of its payload, or nothing where it
abandons the transfer. -/
structure Written where
  key : Nat
  frame : Frame
  transfer : UInt32
  payload : Bytes
  part : Option Nat

/-- The fields of `DirectChannel`, with its unfinished sends; `history` is every
frame that was given a transfer, `calls` every request and `outcomes` every
settled promise. -/
structure Channel where
  pending : HashMap String Pending
  transfer : UInt32
  closed : Bool
  isOpen : Bool
  outgoing : HashMap UInt32 Nat
  outgoingBytes : Int
  sends : HashMap Nat Send
  history : List Frame
  calls : HashMap String Call
  outcomes : List (String × Outcome)

/-- The bytes of a packet. -/
def Written.bytes (written : Written) : Bytes :=
  match written.part with
  | none => abortPacket written.transfer
  | some offset =>
      EncodedFrame.packet written.transfer written.payload.length offset (slice written.payload offset)

/-- The identifier after one: `(transfer + 1) >>> 0 || 1`. -/
def nextTransfer (transfer : UInt32) : UInt32 := if transfer + 1 = 0 then 1 else transfer + 1

namespace Channel

/-- A channel that has just opened. -/
def initial : Channel := ⟨∅, 0, false, true, ∅, 0, ∅, [], ∅, []⟩

/-- `valid` of a send: a request is still waited for. -/
def valid (channel : Channel) (frame : Frame) : Bool :=
  match frame.requestId with
  | some id => (channel.pending.lookup id).isSome
  | none => true

/-- A payload has to wait for the sends under way. -/
def full (channel : Channel) (payload : Bytes) : Bool :=
  size channel.outgoing ≥ maxInFlight ∨ channel.outgoingBytes + payload.length > maxFrame

/-- A promise is settled. -/
def settlePromise (id : String) (outcome : Outcome) (channel : Channel) : Channel :=
  { channel with outcomes := channel.outcomes ++ [(id, outcome)] }

/-- `release`. -/
def release (id : String) (channel : Channel) : Channel :=
  { channel with pending := channel.pending.erase id }

/-- What `close` settles for a request. -/
def lost (entry : (_ : String) × Pending) : Option (String × Outcome) :=
  if entry.2.started then none
  else if entry.2.sent then some (entry.1, .rejected .transportLost)
  else some (entry.1, .rejected .transportNotSent)

/-- `close`. -/
def close (channel : Channel) : Channel :=
  if channel.closed then channel
  else { channel with
    closed := true
    pending := ∅
    outcomes := channel.outcomes ++ channel.pending.entries.filterMap lost }

/-! ### Sending -/

/-- The test of the loop that waits for a reservation. -/
def reserve (key : Nat) (send : Send) (channel : Channel) : Channel :=
  if channel.full send.payload then
    if channel.closed ∨ ¬ channel.valid send.frame then
      { channel with sends := channel.sends.erase key }
    else channel
  else { channel with
    outgoing := channel.outgoing.insert send.transfer send.payload.length
    outgoingBytes := channel.outgoingBytes + send.payload.length
    sends := channel.sends.insert key { send with stage := .reserved } }

variable (codec : Codec Frame)

/-- The beginning of `send`, up to its first wait. -/
def send (frame : Frame) (channel : Channel) : Channel :=
  match codec.serialize frame with
  | none => channel
  | some payload =>
      if payload.length > maxFrame then channel
      else
        let transfer := nextTransfer channel.transfer
        let key := channel.history.length
        let send : Send := ⟨frame, transfer, payload, 0, .waiting⟩
        { channel with
          transfer := transfer
          sends := channel.sends.insert key send
          history := channel.history ++ [frame] }.reserve key send

/-- A waiting send is woken. -/
def admitNext (key : Nat) (channel : Channel) : Option Channel :=
  match channel.sends.lookup key with
  | some send => if send.stage = .waiting then some (channel.reserve key send) else none
  | none => none

/-- A send is done with its last packet. -/
def complete (key : Nat) (send : Send) (channel : Channel) : Channel :=
  { channel with sends := channel.sends.insert key { send with stage := .done } }

/-- The end of `capacity`, with room in the buffer, or with an exception because the
channel is gone. -/
def capacity (key : Nat) (channel : Channel) : Option Channel :=
  match channel.sends.lookup key with
  | some send =>
      if send.stage = .reserved then
        if channel.closed ∨ ¬ channel.isOpen then some (channel.complete key send)
        else some { channel with
          sends := channel.sends.insert key { send with stage := .ready } }
      else none
  | none => none

/-- `sent` of a send. -/
def markSent (frame : Frame) (channel : Channel) : Channel :=
  match frame.requestId with
  | none => channel
  | some id =>
      match channel.pending.lookup id with
      | none => channel
      | some pending =>
          { channel with pending := channel.pending.insert id { pending with sent := true } }

/-- The packet of a send that is no longer wanted, if it has written any. -/
def abandonment (key : Nat) (send : Send) : Option Written :=
  if send.offset = 0 then none
  else some ⟨key, send.frame, send.transfer, send.payload, none⟩

/-- The rest of a send once a slice has been written. -/
def advance (key : Nat) (send : Send) (channel : Channel) : Channel :=
  let offset := send.offset + (slice send.payload send.offset).length
  if offset = send.payload.length then
    (channel.complete key { send with offset := offset }).markSent send.frame
  else { channel with
    sends := channel.sends.insert key { send with offset := offset, stage := .reserved } }

/-- What follows `capacity` in an operation of the writer: the channel and the
packet written. `RTCDataChannel.send` throws once the channel is no longer open. -/
def write (key : Nat) (channel : Channel) : Option (Channel × Option Written) :=
  match channel.sends.lookup key with
  | some send =>
      if send.stage ≠ .ready then none
      else if ¬ channel.isOpen then some (channel.complete key send, none)
      else if ¬ channel.valid send.frame then
        some (channel.complete key send, abandonment key send)
      else some (channel.advance key send,
        some ⟨key, send.frame, send.transfer, send.payload, some send.offset⟩)
  | none => none

/-- The `finally` of `send`. -/
def settle (key : Nat) (channel : Channel) : Option Channel :=
  match channel.sends.lookup key with
  | some send =>
      if send.stage = .done then
        some { channel with
          sends := channel.sends.erase key
          outgoing := channel.outgoing.erase send.transfer
          outgoingBytes := channel.outgoingBytes - send.payload.length }
      else none
  | none => none

/-! ### Requesting -/

/-- The streams among the pending requests. -/
def streams (channel : Channel) : Nat :=
  (channel.pending.entries.filter fun entry => entry.2.streaming).length

/-- `abort` of a pending request. -/
def abandon (id : String) (pending : Pending) (channel : Channel) : Channel :=
  let channel := channel.release id
  let channel := if pending.started then channel else channel.settlePromise id (.rejected .aborted)
  channel.send codec (.cancel id)

/-- `request`; `id` is the identifier it draws, and `aborted` whether its signal
has already fired. An identifier is never drawn twice. -/
def request (identity : Identity) (id : String) (call : Call) (aborted : Bool) (channel : Channel) :
    Option Channel :=
  if id ∈ channel.calls then none
  else
    let channel := { channel with calls := channel.calls.insert id call }
    if channel.closed ∨ ¬ channel.isOpen then
      some (channel.settlePromise id (.rejected .transportNotSent))
    else if size channel.pending ≥ maxInFlight ∨ (call.streaming ∧ channel.streams ≥ 8) then
      some (channel.settlePromise id (.rejected .transportNotSent))
    else if call.bytes.length > maxBody then some (channel.settlePromise id (.resolved 413))
    else
      let pending : Pending := ⟨call.streaming, false, false, false⟩
      let channel := { channel with pending := channel.pending.insert id pending }
      if aborted then some (channel.abandon codec id pending)
      else some (channel.send codec (.request id (call.frame identity)))

/-- The signal of a request fires. -/
def abort (id : String) (channel : Channel) : Option Channel :=
  (channel.pending.lookup id).map fun pending => channel.abandon codec id pending

/-- The timer of a request fires; it is cleared when a stream starts. -/
def timeOut (id : String) (channel : Channel) : Option Channel :=
  match channel.pending.lookup id with
  | some pending =>
      if pending.started then none
      else
        let failure := if pending.sent then Failure.timedOut else Failure.transportNotSent
        some (((channel.release id).settlePromise id (.rejected failure)).send codec (.cancel id))
  | none => none

/-- `pull` of a stream. -/
def pull (id : String) (channel : Channel) : Option Channel :=
  match channel.pending.lookup id with
  | some pending =>
      if ¬ pending.started then none
      else if pending.credited then some channel
      else some ({ channel with
        pending := channel.pending.insert id { pending with credited := true } }.send codec
          (.streamCredit id))
  | none => none

/-- `cancel` of a stream. -/
def cancel (id : String) (channel : Channel) : Option Channel :=
  match channel.pending.lookup id with
  | some pending =>
      if pending.started then some ((channel.release id).send codec (.cancel id)) else none
  | none => none

end Channel

/-! ### Replies -/

/-- The frames an installation sends; `accepted` is whether `bytes` takes the body. -/
inductive Reply where
  | response (id : String) (status : Nat) (headers : List (String × String)) (accepted : Bool)
  | streamStart (id : String) (status : Nat) (headers : List (String × String))
  | streamChunk (id : String) (accepted : Bool)
  | streamEnd (id : String) (failed : Bool)
deriving DecidableEq, Repr

/-- `REASSEMBLY_REJECTION_HEADER`. -/
def rejectionHeader : String := "x-cairn-direct-rejection"

/-- `REASSEMBLY_REJECTION_CODE`. -/
def rejectionCode : String := "reassembly-busy"

/-- `Headers.get`: the values of a name, joined. -/
def headerValue (name : String) (headers : List (String × String)) : Option String :=
  match headers.filterMap fun header => if header.1 = name then some header.2 else none with
  | [] => none
  | values => some (", ".intercalate values)

/-- A reply refuses a request before its dispatch. -/
def Refuses (status : Nat) (headers : List (String × String)) : Prop :=
  status = 503 ∧ headerValue rejectionHeader headers = some rejectionCode

instance (status : Nat) (headers : List (String × String)) : Decidable (Refuses status headers) := by
  unfold Refuses
  infer_instance

namespace Channel

/-- A response or the start of a stream is out of order or has no valid status. -/
def misplaced (pending : Pending) (status : Nat) : Bool :=
  pending.started ∨ status < 200 ∨ status > 599

/-- `dispatch`; `none` where it throws. -/
def dispatch (reply : Reply) (channel : Channel) : Option Channel :=
  match reply with
  | .response id status headers accepted =>
      match channel.pending.lookup id with
      | none => some channel
      | some pending =>
          if misplaced pending status ∨ ¬ accepted then none
          else if Refuses status headers then
            some ((channel.release id).settlePromise id (.rejected .transportNotSent))
          else some ((channel.release id).settlePromise id (.resolved status))
  | .streamStart id status _ =>
      match channel.pending.lookup id with
      | none => some channel
      | some pending =>
          if misplaced pending status then none
          else some ({ channel with
            pending := channel.pending.insert id { pending with started := true } }.settlePromise id
              (.resolved status))
  | .streamChunk id accepted =>
      match channel.pending.lookup id with
      | none => some channel
      | some pending =>
          if ¬ pending.started ∨ ¬ pending.credited then none
          else
            let channel := { channel with
              pending := channel.pending.insert id { pending with credited := false } }
            if accepted then some channel else some channel.close
  | .streamEnd id _ =>
      match channel.pending.lookup id with
      | none => some channel
      | some pending => if pending.started then some (channel.release id) else none

/-- A reply arrives; what `dispatch` throws fails the channel. -/
def receive (reply : Reply) (channel : Channel) : Channel :=
  (channel.dispatch reply).getD channel.close

end Channel

/-! ### Replays over the relay -/

/-- A path of the form `/chats/{id}/messages`. -/
def isMessagesPath (path : String) : Bool :=
  match path.toList.splitOn '/' with
  | [[], chats, id, messages] =>
      chats = "chats".toList ∧ id ≠ [] ∧ messages = "messages".toList
  | _ => false

/-- The path `sendRequest` requests for the one it was given. -/
def apiPath (path : String) : String := "/api" ++ path

namespace Call

/-- `method` of `sendRequest`. -/
def upperMethod (call : Call) : String :=
  String.ofList ((call.method.getD "GET").toList.map Char.toUpper)

/-- `message`: the call posts a message under an identifier of its own. `identified`
parses a body and looks for an `id` that is a string; it is `none` where the parser
throws. -/
def message (identified : String → Option Bool) (path : String) (call : Call) : Option Bool :=
  if call.upperMethod = "POST" ∧ isMessagesPath path then
    match call.body with
    | some text => identified text
    | none => some false
  else some false

/-- The call only reads, or a second execution is refused for its identifier. -/
def Idempotent (identified : String → Option Bool) (path : String) (call : Call) : Prop :=
  call.upperMethod = "GET" ∨ call.upperMethod = "HEAD" ∨ call.message identified path = some true

instance (identified : String → Option Bool) (path : String) (call : Call) :
    Decidable (call.Idempotent identified path) := by
  unfold Idempotent
  infer_instance

/-- `replayable`: `sendRequest` repeats a call that failed over the relay. -/
def replayable (identified : String → Option Bool) (path : String) (call : Call)
    (failure : Failure) : Bool :=
  call.message identified path ≠ none ∧
    (failure = .transportNotSent ∨
      (failure = .transportLost ∧ call.Idempotent identified path))

end Call

end Cairn.Protocol.DirectChannel

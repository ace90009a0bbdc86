import Cairn.Library.HashMaps

/-!
Owns the two ends of the live stream's compression: the encoder that replaces a growing
message snapshot by what it appends, and the client's fold that rebuilds the message.

Does not own which events a batch carries or when a stream is reset.
-/

set_option autoImplicit false

namespace Cairn.Live

open Cairn.Library.HashMaps

/-- The characters of a string. -/
abbrev Text := List Char

/-- The item of an event's payload. `text(item, "id")` reads a missing id as empty. -/
structure Item where
  type : String
  id : String
  text : Option Text
  delta : Option Text
deriving DecidableEq, Repr

/-- An event as the store keeps it and as the stream sends it. -/
structure Event where
  id : Nat
  createdAt : Nat
  type : String
  text : Text
  item : Option Item
deriving DecidableEq, Repr

namespace Event

def startsTurn (event : Event) : Bool := event.type == "turn.started"

/-- The item of a snapshot of an agent's message. -/
def snapshot? (event : Event) : Option Item :=
  event.item.filter fun item => item.type == "agent_message" && item.id != ""

/-- The message an event is a snapshot of. -/
def message? (event : Event) : Option String := event.snapshot?.map Item.id

/-- The text that a client shows: `original?.text ?? previous.text`. -/
def shown (event : Event) : Text := (event.item.bind Item.text).getD event.text

end Event

/-! ### The encoder -/

/-- The last text sent of each message. -/
abbrev TextDeltas := HashMap String Text

namespace TextDeltas

/-- Remembers an agent message snapshot and returns what it appends to the previous
snapshot of the same message, if it only appends. -/
def suffix (deltas : TextDeltas) (item : Option Item) : TextDeltas × Option Text :=
  match item with
  | none => (deltas, none)
  | some item =>
      if item.type != "agent_message" then (deltas, none)
      else
        match item.text.filter fun _ => item.id != "" with
        | none => (deltas, none)
        | some content =>
            (deltas.insert item.id content,
              (deltas.lookup item.id).bind fun previous => content.dropPrefix? previous)

def encodeEvent (deltas : TextDeltas) (event : Event) : TextDeltas × Event :=
  let deltas := if event.startsTurn then ∅ else deltas
  let (deltas, suffix) := deltas.suffix event.item
  match suffix with
  | none => (deltas, event)
  | some suffix =>
      (deltas, { event with
        text := []
        item := event.item.map fun item => { item with text := none, delta := some suffix } })

def encodeEvents (deltas : TextDeltas) : List Event → TextDeltas × List Event
  | [] => (deltas, [])
  | event :: events =>
      let (deltas, sent) := deltas.encodeEvent event
      let (deltas, rest) := encodeEvents deltas events
      (deltas, sent :: rest)

def encode (deltas : TextDeltas) (events : List Event) (reset : Bool) :
    TextDeltas × List Event :=
  (if reset then ∅ else deltas).encodeEvents events

end TextDeltas

/-! ### The client's fold -/

/-- `cursor` is the newest event folded in, `messages` the row of each message of the turn. -/
structure LiveEvents where
  cursor : Nat
  messages : HashMap String Nat

namespace LiveEvents

def new : LiveEvents := ⟨0, ∅⟩

def missingBaseline : String := "Missing streamed message baseline"

/-- Reading a row that does not exist fails as any property read of `undefined`. -/
def rowAt (target : List Event) (index : Nat) : Except String Event :=
  match target[index]? with
  | some row => .ok row
  | none => .error "Cannot read properties of undefined"

/-- The rows of the messages of the last turn, in the order of the rows. -/
def restoreRow (messages : HashMap String Nat) (row : Event × Nat) : HashMap String Nat :=
  let messages := if row.1.startsTurn then ∅ else messages
  match row.1.message? with
  | none => messages
  | some message => messages.insert message row.2

def restore (events : List Event) (cursor : Nat) : LiveEvents :=
  ⟨cursor, events.zipIdx.foldl restoreRow ∅⟩

/-- The full snapshot that a delta stands for. -/
def rebuild (target : List Event) (event : Event) (item : Item) (index : Option Nat) :
    Except String Event :=
  match item.delta with
  | none => .ok event
  | some delta =>
      match index with
      | none => .error missingBaseline
      | some index => do
          let previous ← rowAt target index
          let text := previous.shown ++ delta
          return { event with text, item := some { item with delta := none, text := some text } }

/-- Preserve when and where the message first appeared. -/
def place (messages : HashMap String Nat) (target : List Event) (event : Event)
    (message : String) (index : Option Nat) : Except String (LiveEvents × List Event) :=
  match index with
  | some index => do
      let previous ← rowAt target index
      return (⟨event.id, messages⟩,
        target.set index { event with createdAt := previous.createdAt })
  | none => .ok (⟨event.id, messages.insert message target.length⟩, target ++ [event])

def appendEvent (live : LiveEvents) (target : List Event) (event : Event) :
    Except String (LiveEvents × List Event) :=
  if event.id ≤ live.cursor then .ok (live, target)
  else
    let messages := if event.startsTurn then ∅ else live.messages
    match event.snapshot? with
    | none => .ok (⟨event.id, messages⟩, target ++ [event])
    | some item => do
        let index := messages.lookup item.id
        let event ← rebuild target event item index
        place messages target event item.id index

def append (live : LiveEvents) (target : List Event) (incoming : List Event) :
    Except String (LiveEvents × List Event) :=
  incoming.foldlM (fun state event => appendEvent state.1 state.2 event) (live, target)

end LiveEvents

end Cairn.Live

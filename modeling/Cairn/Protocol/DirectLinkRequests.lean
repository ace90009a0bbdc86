import Cairn.Protocol.DirectLinkSends
import Mathlib.Data.List.Infix

/-!
Owns what the outcome of a request says about its execution: a request whose promise
was rejected as not sent never reaches the dispatcher, and what is replayed over the
relay is executed once. `Asks` relates the promises of a channel to the packets
written on it, and every block keeps this.

The JSON parser is a parameter: `entries` is what a visit of an object yields before
its text ends.
-/

set_option autoImplicit false

namespace Cairn.Protocol.DirectChannel

open Cairn.Library Cairn.Library.HashMaps DataChannel

/-! ### The identity of a request -/

/-- The entries of an object, each value where it is a string, as a visit meets them. -/
abbrev Entries := List (String × Option String)

/-- The visitor of `request_id_prefix`; a `type` or an `id` that is no string ends it
with an error. -/
def requestIdPrefix (kind id : Option String) : Entries → Option String
  | [] => none
  | (key, value) :: rest =>
      if (key = "type" ∨ key = "id") ∧ value = none then none
      else
        let kind := if key = "type" then value else kind
        let id := if key = "id" then value else id
        match kind, id with
        | some kind, some id =>
            if kind = "request" ∧ id ≠ "" ∧ id.utf8ByteSize ≤ 128 then some id else none
        | kind, id => requestIdPrefix kind id rest

namespace Frame

/-- `type`. -/
def kind : Frame → String
  | .request .. => "request"
  | .streamCredit _ => "stream_credit"
  | .cancel _ => "cancel"

/-- The identifier of a frame. -/
def id : Frame → String
  | .request id _ => id
  | .streamCredit id => id
  | .cancel id => id

/-- The entries a frame begins with. -/
def identity (frame : Frame) : Entries := [("type", some frame.kind), ("id", some frame.id)]

theorem requestId_of_kind {frame : Frame} (isRequest : frame.kind = "request") :
    frame.requestId = some frame.id := by
  cases frame with
  | request id request => rfl
  | streamCredit id => simp [kind] at isRequest
  | cancel id => simp [kind] at isRequest

end Frame

/-- A visit of a frame that is cut off meets its first entries. -/
structure Visits (codec : Codec Frame) (entries : Bytes → Entries) : Prop where
  visited : ∀ packet, codec.requestIdPrefix packet = requestIdPrefix none none (entries packet)
  truncated : ∀ frame bytes count, codec.serialize frame = some bytes →
    ∃ others, entries (bytes.take count) <+: frame.identity ++ others

/-- What a rejection names is the request of the rejected frame. -/
theorem Visits.names {codec : Codec Frame} {entries : Bytes → Entries}
    (visits : Visits codec entries) {frame : Frame} {bytes : Bytes}
    (serialized : codec.serialize frame = some bytes) {id : String}
    (named : codec.requestIdPrefix (slice bytes 0) = some id) : frame.requestId = some id := by
  obtain ⟨others, rest, whole⟩ := visits.truncated frame bytes
    (min (maxPacket - header) (bytes.length - 0)) serialized
  have text : slice bytes 0 = bytes.take (min (maxPacket - header) (bytes.length - 0)) := rfl
  rw [visits.visited, text] at named
  generalize entries (bytes.take (min (maxPacket - header) (bytes.length - 0))) = visited at named whole
  match visited, whole with
  | [], _ => cases named
  | [entry], whole =>
      obtain rfl : entry = ("type", some frame.kind) := (List.cons.inj whole).1
      simp [requestIdPrefix] at named
  | first :: second :: _, whole =>
      obtain ⟨rfl, following⟩ := List.cons.inj whole
      obtain ⟨rfl, _⟩ := List.cons.inj following
      simp [requestIdPrefix] at named
      obtain ⟨⟨isRequest, _⟩, rfl⟩ := named
      exact Frame.requestId_of_kind isRequest

/-! ### Promises -/

/-- The promises of a channel against the packets written on it and the sends whose
transfer was rejected. -/
structure Asks (channel : Channel) (packets : List Written) (rejected : List Nat) : Prop where
  known : ∀ (key : Nat) frame id, channel.history[key]? = some frame →
    frame.requestId = some id → id ∈ channel.calls
  unique : ∀ (key other : Nat) frame another id, channel.history[key]? = some frame →
    channel.history[other]? = some another → frame.requestId = some id →
    another.requestId = some id → key = other
  pendingKnown : ∀ id pending, channel.pending.lookup id = some pending → id ∈ channel.calls
  outcomeKnown : ∀ id outcome, (id, outcome) ∈ channel.outcomes → id ∈ channel.calls
  waits : ∀ id pending outcome, channel.pending.lookup id = some pending →
    (id, outcome) ∈ channel.outcomes → pending.started = true ∧ ∀ failure, outcome ≠ .rejected failure
  once : (channel.outcomes.map Prod.fst).Nodup
  sent : ∀ written ∈ packets, written.Completes → ∀ id pending,
    written.frame.requestId = some id → channel.pending.lookup id = some pending →
    pending.sent = true
  notSent : ∀ written ∈ packets, written.Completes → ∀ id, written.frame.requestId = some id →
    (id, .rejected .transportNotSent) ∈ channel.outcomes → written.key ∈ rejected

namespace Asks

variable {channel next : Channel} {packets : List Written} {rejected : List Nat} {id : String}

theorem initial : Asks Channel.initial [] [] where
  known := fun key frame id found => by simp [Channel.initial] at found
  unique := fun key other frame another id found => by simp [Channel.initial] at found
  pendingKnown := fun id pending found => by simp [Channel.initial] at found
  outcomeKnown := fun id outcome inside => absurd inside List.not_mem_nil
  waits := fun id pending outcome found => by simp [Channel.initial] at found
  once := List.nodup_nil
  sent := fun written member => absurd member List.not_mem_nil
  notSent := fun written member => absurd member List.not_mem_nil

/-- Requests that are no longer waited for, or whose flags change; none is unmarked. -/
theorem narrow (asks : Asks channel packets rejected) (history : next.history = channel.history)
    (calls : next.calls = channel.calls) (outcomes : next.outcomes = channel.outcomes)
    (pending : ∀ id later, next.pending.lookup id = some later → ∃ earlier,
      channel.pending.lookup id = some earlier ∧ later.started = earlier.started ∧
        (earlier.sent = true → later.sent = true)) : Asks next packets rejected := by
  refine ⟨?_, ?_, fun id later found => ?_, ?_, fun id later outcome found => ?_, ?_,
    fun written member completes id later isRequest found => ?_, ?_⟩
  · rw [history, calls]
    exact asks.known
  · rw [history]
    exact asks.unique
  · rw [calls]
    obtain ⟨earlier, isEarlier, _⟩ := pending id later found
    exact asks.pendingKnown id earlier isEarlier
  · rw [outcomes, calls]
    exact asks.outcomeKnown
  · rw [outcomes]
    obtain ⟨earlier, isEarlier, started, _⟩ := pending id later found
    rw [started]
    exact asks.waits id earlier outcome isEarlier
  · rw [outcomes]
    exact asks.once
  · obtain ⟨earlier, isEarlier, _, kept⟩ := pending id later found
    exact kept (asks.sent written member completes id earlier isRequest isEarlier)
  · rw [outcomes]
    exact asks.notSent

theorem of_eq (asks : Asks channel packets rejected) (history : next.history = channel.history)
    (calls : next.calls = channel.calls) (outcomes : next.outcomes = channel.outcomes)
    (pending : next.pending = channel.pending) : Asks next packets rejected :=
  asks.narrow history calls outcomes fun _ later found =>
    ⟨later, pending ▸ found, rfl, fun isSent => isSent⟩

theorem release (asks : Asks channel packets rejected) (other : String) :
    Asks (channel.release other) packets rejected :=
  asks.narrow rfl rfl rfl fun _ later found => ⟨later, (lookup_of_erase found).2, rfl,
    fun isSent => isSent⟩

/-- A promise that was open is settled and its request released, or resolved while
its stream goes on. -/
theorem settle (asks : Asks channel packets rejected) {outcome : Outcome}
    (isKnown : id ∈ channel.calls) (isOpen : ∀ earlier, (id, earlier) ∉ channel.outcomes)
    (cause : outcome = .rejected .transportNotSent → ∀ written ∈ packets, written.Completes →
      written.frame.requestId = some id → written.key ∈ rejected)
    (history : next.history = channel.history) (calls : next.calls = channel.calls)
    (outcomes : next.outcomes = channel.outcomes ++ [(id, outcome)])
    (pending : ∀ other later, next.pending.lookup other = some later → ∃ earlier,
      channel.pending.lookup other = some earlier ∧ (other ≠ id → later.started = earlier.started) ∧
        (other = id → later.started = true ∧ ∀ failure, outcome ≠ .rejected failure) ∧
        (earlier.sent = true → later.sent = true)) : Asks next packets rejected := by
  refine ⟨?_, ?_, fun other later found => ?_, fun other entry member => ?_,
    fun other later entry found member => ?_, ?_,
    fun written member completes other later isRequest found => ?_,
    fun written member completes other isRequest inside => ?_⟩
  · rw [history, calls]
    exact asks.known
  · rw [history]
    exact asks.unique
  · rw [calls]
    obtain ⟨earlier, isEarlier, _⟩ := pending other later found
    exact asks.pendingKnown other earlier isEarlier
  · rw [calls]
    rw [outcomes] at member
    rcases List.mem_append.mp member with earlier | isLast
    · exact asks.outcomeKnown other entry earlier
    · rw [(Prod.mk.inj (List.mem_singleton.mp isLast)).1]
      exact isKnown
  · obtain ⟨earlier, isEarlier, elsewhere, here, _⟩ := pending other later found
    rw [outcomes] at member
    by_cases same : other = id
    · rcases List.mem_append.mp member with before | isLast
      · rw [same] at before
        exact absurd before (isOpen entry)
      · rw [(Prod.mk.inj (List.mem_singleton.mp isLast)).2]
        exact here same
    · rcases List.mem_append.mp member with before | isLast
      · rw [elsewhere same]
        exact asks.waits other earlier entry isEarlier before
      · exact absurd (Prod.mk.inj (List.mem_singleton.mp isLast)).1 same
  · rw [outcomes, List.map_append, List.nodup_append]
    refine ⟨asks.once, List.nodup_singleton _, fun other inside last isLast => ?_⟩
    rw [List.map_singleton, List.mem_singleton] at isLast
    obtain ⟨entry, member, rfl⟩ := List.mem_map.mp inside
    intro same
    have isId : entry.1 = id := same.trans isLast
    exact isOpen entry.2 (isId ▸ member)
  · obtain ⟨earlier, isEarlier, _, _, kept⟩ := pending other later found
    exact kept (asks.sent written member completes other earlier isRequest isEarlier)
  · rw [outcomes] at inside
    rcases List.mem_append.mp inside with before | isLast
    · exact asks.notSent written member completes other isRequest before
    · obtain ⟨rfl, isOutcome⟩ := Prod.mk.inj (List.mem_singleton.mp isLast)
      exact cause isOutcome.symm written member completes isRequest

/-- A request whose promise is settled and that is no longer waited for. -/
theorem settleReleased (asks : Asks channel packets rejected) {pending : Pending}
    (found : channel.pending.lookup id = some pending) (unstarted : pending.started ≠ true)
    (outcome : Outcome)
    (cause : outcome = .rejected .transportNotSent → ∀ written ∈ packets, written.Completes →
      written.frame.requestId = some id → written.key ∈ rejected) :
    Asks ((channel.release id).settlePromise id outcome) packets rejected := by
  refine asks.settle (asks.pendingKnown id pending found)
    (fun earlier member => unstarted (asks.waits id pending earlier found member).1) cause rfl rfl
    rfl fun other later isLater => ?_
  obtain ⟨different, isEarlier⟩ := lookup_of_erase isLater
  exact ⟨later, isEarlier, fun _ => rfl, fun same => absurd same different, fun isSent => isSent⟩

/-- A frame is given to the channel; a request only once. -/
theorem given (asks : Asks channel packets rejected) {frame : Frame}
    (fresh : ∀ id, frame.requestId = some id → id ∈ channel.calls ∧ ∀ (key : Nat) earlier,
      channel.history[key]? = some earlier → earlier.requestId ≠ some id)
    (history : next.history = channel.history ++ [frame]) (calls : next.calls = channel.calls)
    (outcomes : next.outcomes = channel.outcomes) (pending : next.pending = channel.pending) :
    Asks next packets rejected := by
  have place : ∀ (key : Nat) found, next.history[key]? = some found →
      channel.history[key]? = some found ∨ (key = channel.history.length ∧ found = frame) := by
    intro key found isFound
    rw [history, List.getElem?_append] at isFound
    split at isFound
    · exact .inl isFound
    · rename_i beyond
      obtain ⟨zero, same⟩ := List.getElem?_eq_some_iff.mp isFound
      rw [List.length_singleton] at zero
      refine .inr ⟨by omega, ?_⟩
      rw [← same, List.getElem_singleton]
  refine ⟨fun key found id isFound isRequest => ?_,
    fun key other found another id isFound isAnother isRequest isSecond => ?_, ?_, ?_, ?_, ?_, ?_, ?_⟩
  · rw [calls]
    rcases place key found isFound with earlier | ⟨_, rfl⟩
    · exact asks.known key found id earlier isRequest
    · exact (fresh id isRequest).1
  · rcases place key found isFound with earlier | ⟨isLast, rfl⟩
    · rcases place other another isAnother with before | ⟨_, rfl⟩
      · exact asks.unique key other found another id earlier before isRequest isSecond
      · exact absurd isRequest ((fresh id isSecond).2 key found earlier)
    · rcases place other another isAnother with before | ⟨alsoLast, rfl⟩
      · exact absurd isSecond ((fresh id isRequest).2 other another before)
      · rw [isLast, alsoLast]
  · rw [pending, calls]
    exact asks.pendingKnown
  · rw [outcomes, calls]
    exact asks.outcomeKnown
  · rw [pending, outcomes]
    exact asks.waits
  · rw [outcomes]
    exact asks.once
  · rw [pending]
    exact asks.sent
  · rw [outcomes]
    exact asks.notSent

/-- `send` gives the frame to the channel, if it can be encoded, and changes no promise. -/
theorem sendFrame {codec : Codec Frame} (asks : Asks channel packets rejected) {frame : Frame}
    (fresh : ∀ id, frame.requestId = some id → id ∈ channel.calls ∧ ∀ (key : Nat) earlier,
      channel.history[key]? = some earlier → earlier.requestId ≠ some id) :
    Asks (channel.send codec frame) packets rejected := by
  unfold Channel.send
  split
  · exact asks
  split
  · exact asks
  dsimp only [Channel.reserve]
  split
  · split
    · exact asks.given fresh rfl rfl rfl rfl
    · exact asks.given fresh rfl rfl rfl rfl
  · exact asks.given fresh rfl rfl rfl rfl

/-- A frame that makes no request. -/
theorem sendControl {codec : Codec Frame} (asks : Asks channel packets rejected) {frame : Frame}
    (control : frame.requestId = none) : Asks (channel.send codec frame) packets rejected :=
  asks.sendFrame fun id isRequest => by
    rw [control] at isRequest
    cases isRequest

/-! ### Blocks -/

theorem lost_keys (entries : List ((_ : String) × Pending)) :
    ((entries.filterMap Channel.lost).map Prod.fst).Sublist entries.keys := by
  induction entries with
  | nil => exact List.Sublist.slnil
  | cons entry rest inductionHypothesis =>
      rw [List.keys_cons]
      cases isLost : Channel.lost entry with
      | none =>
          rw [List.filterMap_cons_none isLost]
          exact inductionHypothesis.cons _
      | some lost =>
          have sameKey : lost.1 = entry.1 := by
            unfold Channel.lost at isLost
            split at isLost
            · cases isLost
            · split at isLost <;> exact congrArg Prod.fst (Option.some.inj isLost).symm
          rw [List.filterMap_cons_some isLost, List.map_cons, sameKey]
          exact inductionHypothesis.cons_cons _

theorem close (asks : Asks channel packets rejected) : Asks channel.close packets rejected := by
  unfold Channel.close
  split
  · exact asks
  have origin : ∀ id outcome, (id, outcome) ∈ channel.pending.entries.filterMap Channel.lost →
      ∃ pending, channel.pending.lookup id = some pending ∧ pending.started ≠ true ∧
        (pending.sent = true → outcome = .rejected .transportLost) := by
    intro id outcome member
    obtain ⟨entry, stored, isLost⟩ := List.mem_filterMap.mp member
    unfold Channel.lost at isLost
    split at isLost
    · cases isLost
    rename_i unstarted
    split at isLost
    · obtain ⟨rfl, rfl⟩ := Prod.mk.inj (Option.some.inj isLost)
      exact ⟨entry.2, AList.mem_lookup_iff.mpr stored, unstarted, fun _ => rfl⟩
    · rename_i unsent
      obtain ⟨rfl, rfl⟩ := Prod.mk.inj (Option.some.inj isLost)
      exact ⟨entry.2, AList.mem_lookup_iff.mpr stored, unstarted, fun isSent => absurd isSent unsent⟩
  have nothing : ∀ id pending, (∅ : HashMap String Pending).lookup id ≠ some pending := by
    intro id pending found
    rw [AList.lookup_empty] at found
    cases found
  refine ⟨asks.known, asks.unique, fun id pending found => absurd found (nothing id pending),
    fun id outcome member => ?_, fun id pending _ found => absurd found (nothing id pending), ?_,
    fun written _ _ id pending _ found => absurd found (nothing id pending),
    fun written member completes id isRequest inside => ?_⟩
  · rcases List.mem_append.mp member with earlier | isLost
    · exact asks.outcomeKnown id outcome earlier
    · obtain ⟨pending, found, _⟩ := origin id outcome isLost
      exact asks.pendingKnown id pending found
  · rw [List.map_append, List.nodup_append]
    refine ⟨asks.once, ?_, fun id inside other isOther => ?_⟩
    · exact channel.pending.keys_nodup.sublist (lost_keys channel.pending.entries)
    · obtain ⟨entry, member, rfl⟩ := List.mem_map.mp inside
      obtain ⟨lost, isLost, rfl⟩ := List.mem_map.mp isOther
      obtain ⟨pending, found, unstarted, _⟩ := origin lost.1 lost.2 isLost
      intro same
      rw [← same] at found
      exact unstarted (asks.waits entry.1 pending entry.2 found member).1
  · rcases List.mem_append.mp inside with earlier | isLost
    · exact asks.notSent written member completes id isRequest earlier
    · obtain ⟨pending, found, _, wasSent⟩ := origin id _ isLost
      have failure := wasSent (asks.sent written member completes id pending isRequest found)
      cases failure

/-- A request is drawn under a new identifier. -/
theorem called (asks : Asks channel packets rejected) (id : String) (call : Call) :
    Asks { channel with calls := channel.calls.insert id call } packets rejected := by
  have kept : ∀ {other}, other ∈ channel.calls → other ∈ channel.calls.insert id call :=
    fun inside => (AList.mem_insert _).mpr (.inr inside)
  exact ⟨fun key frame other found isRequest => kept (asks.known key frame other found isRequest),
    asks.unique, fun other pending found => kept (asks.pendingKnown other pending found),
    fun other outcome member => kept (asks.outcomeKnown other outcome member), asks.waits,
    asks.once, asks.sent, asks.notSent⟩

/-- Nothing is known of a request but that it was called. -/
structure Unasked (channel : Channel) (packets : List Written) (id : String) : Prop where
  called : id ∈ channel.calls
  settled : ∀ outcome, (id, outcome) ∉ channel.outcomes
  given : ∀ (key : Nat) frame, channel.history[key]? = some frame → frame.requestId ≠ some id
  written : ∀ written ∈ packets, written.frame.requestId ≠ some id

theorem unasked {codec : Codec Frame} (asks : Asks channel packets rejected)
    (writes : Writes codec channel packets) (fresh : id ∉ channel.calls) (call : Call) :
    Unasked { channel with calls := channel.calls.insert id call } packets id where
  called := (AList.mem_insert _).mpr (.inl rfl)
  settled := fun outcome member => fresh (asks.outcomeKnown id outcome member)
  given := fun key frame found isRequest => fresh (asks.known key frame id found isRequest)
  written := fun written member isRequest =>
    fresh (asks.known written.key written.frame id (writes.recorded written member) isRequest)

/-- A request that is settled at once. -/
theorem settleUnasked (asks : Asks channel packets rejected) (new : Unasked channel packets id)
    (unpending : channel.pending.lookup id = none) (outcome : Outcome) :
    Asks (channel.settlePromise id outcome) packets rejected := by
  refine asks.settle new.called new.settled (fun _ written member _ isRequest =>
    absurd isRequest (new.written written member)) rfl rfl rfl fun other later found => ?_
  refine ⟨later, found, fun _ => rfl, fun same => ?_, fun isSent => isSent⟩
  have here : channel.pending.lookup other = some later := found
  rw [same, unpending] at here
  cases here

/-- A request that is waited for. -/
theorem await (asks : Asks channel packets rejected) (new : Unasked channel packets id)
    (streaming : Bool) :
    Asks { channel with pending := channel.pending.insert id ⟨streaming, false, false, false⟩ }
      packets rejected := by
  refine ⟨asks.known, asks.unique, fun other pending found => ?_, asks.outcomeKnown,
    fun other pending outcome found member => ?_, asks.once,
    fun written member completes other pending isRequest found => ?_, asks.notSent⟩
  all_goals
    dsimp only at found
    rw [lookup_insert] at found
    split at found
  · rename_i same
    rw [same]
    exact new.called
  · exact asks.pendingKnown other pending found
  · rename_i same
    rw [same] at member
    exact absurd member (new.settled outcome)
  · exact asks.waits other pending outcome found member
  · rename_i same
    rw [same] at isRequest
    exact absurd isRequest (new.written written member)
  · exact asks.sent written member completes other pending isRequest found

theorem abandonRequest {codec : Codec Frame} (asks : Asks channel packets rejected)
    {pending : Pending} (found : channel.pending.lookup id = some pending) :
    Asks (channel.abandon codec id pending) packets rejected := by
  unfold Channel.abandon
  dsimp only
  split
  · exact (asks.release id).sendControl rfl
  · rename_i unstarted
    exact (asks.settleReleased found unstarted _ fun same => by cases same).sendControl rfl

theorem request {codec : Codec Frame} (asks : Asks channel packets rejected)
    (writes : Writes codec channel packets) {identity : Identity} {call : Call} {aborted : Bool}
    (requested : channel.request codec identity id call aborted = some next) :
    Asks next packets rejected := by
  unfold Channel.request at requested
  split at requested
  · cases requested
  rename_i fresh
  have called := asks.called id call
  have new := asks.unasked writes fresh call
  have unpending : channel.pending.lookup id = none := by
    cases found : channel.pending.lookup id with
    | none => rfl
    | some pending => exact absurd (asks.pendingKnown id pending found) fresh
  dsimp only at requested
  split at requested
  · obtain rfl := Option.some.inj requested
    exact called.settleUnasked new unpending _
  split at requested
  · obtain rfl := Option.some.inj requested
    exact called.settleUnasked new unpending _
  split at requested
  · obtain rfl := Option.some.inj requested
    exact called.settleUnasked new unpending _
  have waited := called.await new call.streaming
  split at requested
  · obtain rfl := Option.some.inj requested
    exact waited.abandonRequest (AList.lookup_insert _)
  · obtain rfl := Option.some.inj requested
    refine waited.sendFrame fun other isRequest => ?_
    obtain rfl := Option.some.inj isRequest
    exact ⟨new.called, new.given⟩

theorem abort {codec : Codec Frame} (asks : Asks channel packets rejected)
    (aborted : channel.abort codec id = some next) : Asks next packets rejected := by
  obtain ⟨pending, found, rfl⟩ := Option.map_eq_some_iff.mp aborted
  exact asks.abandonRequest found

/-- The timer reports a request as not sent only if its last packet was not written. -/
theorem timeOut {codec : Codec Frame} (asks : Asks channel packets rejected)
    (fired : channel.timeOut codec id = some next) : Asks next packets rejected := by
  unfold Channel.timeOut at fired
  split at fired
  · rename_i pending found
    split at fired
    · cases fired
    · rename_i unstarted
      obtain rfl := Option.some.inj fired
      refine (asks.settleReleased found unstarted _ fun same written member completes isRequest =>
        ?_).sendControl rfl
      rw [if_pos (asks.sent written member completes id pending isRequest found)] at same
      cases same
  · cases fired

theorem pull {codec : Codec Frame} (asks : Asks channel packets rejected)
    (pulled : channel.pull codec id = some next) : Asks next packets rejected := by
  unfold Channel.pull at pulled
  split at pulled
  · rename_i pending found
    split at pulled
    · cases pulled
    split at pulled
    · obtain rfl := Option.some.inj pulled
      exact asks
    · obtain rfl := Option.some.inj pulled
      refine sendControl ?_ rfl
      refine asks.narrow rfl rfl rfl fun other later isLater => ?_
      dsimp only at isLater
      rw [lookup_insert] at isLater
      split at isLater
      · rename_i same
        obtain rfl := Option.some.inj isLater
        exact ⟨pending, same ▸ found, rfl, fun isSent => isSent⟩
      · exact ⟨later, isLater, rfl, fun isSent => isSent⟩
  · cases pulled

theorem cancel {codec : Codec Frame} (asks : Asks channel packets rejected)
    (cancelled : channel.cancel codec id = some next) : Asks next packets rejected := by
  unfold Channel.cancel at cancelled
  split at cancelled
  · split at cancelled
    · obtain rfl := Option.some.inj cancelled
      exact (asks.release id).sendControl rfl
    · cases cancelled
  · cases cancelled

/-- A reply settles a request; one that refuses it is of a rejected send. -/
theorem receive (asks : Asks channel packets rejected) (reply : Reply)
    (refused : ∀ id status headers accepted, reply = .response id status headers accepted →
      Refuses status headers → ∀ written ∈ packets, written.frame.requestId = some id →
        written.key ∈ rejected) : Asks (channel.receive reply) packets rejected := by
  unfold Channel.receive
  cases dispatched : channel.dispatch reply with
  | none => exact asks.close
  | some next =>
      rw [Option.getD_some]
      unfold Channel.dispatch at dispatched
      cases reply with
      | response id status headers accepted =>
          dsimp only at dispatched
          split at dispatched
          · obtain rfl := Option.some.inj dispatched
            exact asks
          rename_i pending found
          split at dispatched
          · cases dispatched
          rename_i placed
          have unstarted : pending.started ≠ true := fun started =>
            placed (.inl (by simp [Channel.misplaced, started]))
          split at dispatched
          · rename_i refuses
            obtain rfl := Option.some.inj dispatched
            exact asks.settleReleased found unstarted _ fun _ written member _ isRequest =>
              refused id status headers accepted rfl refuses written member isRequest
          · obtain rfl := Option.some.inj dispatched
            exact asks.settleReleased found unstarted _ fun same => nomatch same
      | streamStart id status headers =>
          dsimp only at dispatched
          split at dispatched
          · obtain rfl := Option.some.inj dispatched
            exact asks
          rename_i pending found
          split at dispatched
          · cases dispatched
          rename_i placed
          have unstarted : pending.started ≠ true := fun started =>
            placed (by simp [Channel.misplaced, started])
          obtain rfl := Option.some.inj dispatched
          refine asks.settle (asks.pendingKnown id pending found)
            (fun earlier member => unstarted (asks.waits id pending earlier found member).1)
            (fun same : Outcome.resolved status = .rejected .transportNotSent => nomatch same)
            rfl rfl rfl fun other later isLater => ?_
          have here : (channel.pending.insert id { pending with started := true }).lookup other =
            some later := isLater
          rw [lookup_insert] at here
          split at here
          · rename_i same
            obtain rfl := Option.some.inj here
            exact ⟨pending, same ▸ found, fun different => absurd same different,
              fun _ => ⟨rfl, fun failure => nofun⟩, fun isSent => isSent⟩
          · rename_i different
            exact ⟨later, here, fun _ => rfl, fun same => absurd same different,
              fun isSent => isSent⟩
      | streamChunk id accepted =>
          dsimp only at dispatched
          split at dispatched
          · obtain rfl := Option.some.inj dispatched
            exact asks
          rename_i pending found
          split at dispatched
          · cases dispatched
          have uncredited : Asks { channel with
              pending := channel.pending.insert id { pending with credited := false } }
              packets rejected := by
            refine asks.narrow rfl rfl rfl fun other later isLater => ?_
            dsimp only at isLater
            rw [lookup_insert] at isLater
            split at isLater
            · rename_i same
              obtain rfl := Option.some.inj isLater
              exact ⟨pending, same ▸ found, rfl, fun isSent => isSent⟩
            · exact ⟨later, isLater, rfl, fun isSent => isSent⟩
          split at dispatched
          · obtain rfl := Option.some.inj dispatched
            exact uncredited
          · obtain rfl := Option.some.inj dispatched
            exact uncredited.close
      | streamEnd id failed =>
          dsimp only at dispatched
          split at dispatched
          · obtain rfl := Option.some.inj dispatched
            exact asks
          split at dispatched
          · obtain rfl := Option.some.inj dispatched
            exact asks.release id
          · cases dispatched

/-- A packet is written; the last one of a request marks it as sent. -/
theorem append (asks : Asks channel packets rejected) (written : Written)
    (marked : written.Completes → ∀ id, written.frame.requestId = some id →
      ∃ pending, channel.pending.lookup id = some pending ∧ pending.sent = true) :
    Asks channel (packets ++ [written]) rejected := by
  refine ⟨asks.known, asks.unique, asks.pendingKnown, asks.outcomeKnown, asks.waits, asks.once,
    fun other member completes id pending isRequest found => ?_,
    fun other member completes id isRequest inside => ?_⟩
  · rcases List.mem_append.mp member with earlier | isLast
    · exact asks.sent other earlier completes id pending isRequest found
    · rw [List.mem_singleton.mp isLast] at completes isRequest
      obtain ⟨waiting, isWaiting, isSent⟩ := marked completes id isRequest
      rw [found] at isWaiting
      rw [Option.some.inj isWaiting]
      exact isSent
  · rcases List.mem_append.mp member with earlier | isLast
    · exact asks.notSent other earlier completes id isRequest inside
    · rw [List.mem_singleton.mp isLast] at completes isRequest
      obtain ⟨waiting, isWaiting, _⟩ := marked completes id isRequest
      exact absurd rfl ((asks.waits id waiting _ isWaiting inside).2 _)

/-- `sent` marks a request that is waited for. -/
theorem markSent (asks : Asks channel packets rejected) (frame : Frame) :
    Asks (channel.markSent frame) packets rejected := by
  unfold Channel.markSent
  split
  · exact asks
  split
  · exact asks
  rename_i id _ _ pending found
  refine asks.narrow rfl rfl rfl fun other later isLater => ?_
  dsimp only at isLater
  rw [lookup_insert] at isLater
  split at isLater
  · rename_i same
    obtain rfl := Option.some.inj isLater
    exact ⟨pending, same ▸ found, rfl, fun _ => rfl⟩
  · exact ⟨later, isLater, rfl, fun isSent => isSent⟩

theorem write {key : Nat} (asks : Asks channel packets rejected)
    {result : Channel × Option Written} (wrote : channel.write key = some result) :
    Asks result.1 (packets ++ result.2.toList) rejected := by
  unfold Channel.write at wrote
  split at wrote
  · rename_i send found
    split at wrote
    · cases wrote
    split at wrote
    · obtain rfl := Option.some.inj wrote
      rw [Option.toList_none, List.append_nil]
      exact asks.of_eq rfl rfl rfl rfl
    split at wrote
    · obtain rfl := Option.some.inj wrote
      have done : Asks (channel.complete key send) packets rejected := asks.of_eq rfl rfl rfl rfl
      dsimp only [Channel.abandonment]
      split
      · rw [Option.toList_none, List.append_nil]
        exact done
      · refine done.append _ ?_
        rintro ⟨offset, isPart, _⟩
        cases isPart
    · rename_i valid
      obtain rfl := Option.some.inj wrote
      have waiting : ∀ id, send.frame.requestId = some id →
          ∃ pending, channel.pending.lookup id = some pending := by
        intro id isRequest
        unfold Channel.valid at valid
        rw [isRequest] at valid
        exact Option.isSome_iff_exists.mp (not_not.mp valid)
      dsimp only [Channel.advance]
      split
      · have done : Asks (channel.complete key { send with
            offset := send.offset + (slice send.payload send.offset).length }) packets rejected :=
          asks.of_eq rfl rfl rfl rfl
        refine (done.markSent send.frame).append _ fun _ id isRequest => ?_
        obtain ⟨pending, isPending⟩ := waiting id isRequest
        have here : (channel.complete key { send with
            offset := send.offset + (slice send.payload send.offset).length }).pending.lookup id =
              some pending := isPending
        refine ⟨{ pending with sent := true }, ?_, rfl⟩
        unfold Channel.markSent
        have isRequest' : send.frame.requestId = some id := isRequest
        rw [isRequest']
        dsimp only
        rw [here]
        exact AList.lookup_insert _
      · rename_i incomplete
        have on : Asks { channel with sends := channel.sends.insert key { send with
            offset := send.offset + (slice send.payload send.offset).length, stage := .reserved } }
            packets rejected := asks.of_eq rfl rfl rfl rfl
        refine on.append _ ?_
        rintro ⟨offset, isPart, completes⟩
        obtain rfl := Option.some.inj isPart
        exact absurd completes incomplete
  · cases wrote

theorem admitNext {key : Nat} (asks : Asks channel packets rejected)
    (admitted : channel.admitNext key = some next) : Asks next packets rejected := by
  unfold Channel.admitNext at admitted
  split at admitted
  · split at admitted
    · obtain rfl := Option.some.inj admitted
      unfold Channel.reserve
      split
      · split <;> exact asks.of_eq rfl rfl rfl rfl
      · exact asks.of_eq rfl rfl rfl rfl
    · cases admitted
  · cases admitted

theorem capacity {key : Nat} (asks : Asks channel packets rejected)
    (passed : channel.capacity key = some next) : Asks next packets rejected := by
  unfold Channel.capacity at passed
  split at passed
  · split at passed
    · split at passed <;>
      · obtain rfl := Option.some.inj passed
        exact asks.of_eq rfl rfl rfl rfl
    · cases passed
  · cases passed

theorem settleSend {key : Nat} (asks : Asks channel packets rejected)
    (settled : channel.settle key = some next) : Asks next packets rejected := by
  unfold Channel.settle at settled
  split at settled
  · split at settled
    · obtain rfl := Option.some.inj settled
      exact asks.of_eq rfl rfl rfl rfl
    · cases settled
  · cases settled

/-- More sends may be rejected. -/
theorem reject (asks : Asks channel packets rejected) {more : List Nat}
    (kept : ∀ key ∈ rejected, key ∈ more) : Asks channel packets more :=
  ⟨asks.known, asks.unique, asks.pendingKnown, asks.outcomeKnown, asks.waits, asks.once, asks.sent,
    fun written member completes id isRequest inside =>
      kept _ (asks.notSent written member completes id isRequest inside)⟩

end Asks

/-! ### Outcomes last -/

namespace Channel

variable {codec : Codec Frame} {channel next : Channel} {id : String}

theorem send_outcomes (frame : Frame) :
    (channel.send codec frame).outcomes = channel.outcomes := by
  unfold send
  split
  · rfl
  split
  · rfl
  dsimp only [reserve]
  split
  · split <;> rfl
  · rfl

theorem close_outcomes : channel.outcomes <+: channel.close.outcomes := by
  unfold close
  split
  · exact List.prefix_refl _
  · exact List.prefix_append _ _

theorem abandon_outcomes (pending : Pending) :
    channel.outcomes <+: (channel.abandon codec id pending).outcomes := by
  unfold abandon
  dsimp only
  rw [send_outcomes]
  split
  · exact List.prefix_refl _
  · exact List.prefix_append _ _

theorem request_outcomes {identity : Identity} {call : Call} {aborted : Bool}
    (requested : channel.request codec identity id call aborted = some next) :
    channel.outcomes <+: next.outcomes := by
  unfold request at requested
  split at requested
  · cases requested
  dsimp only at requested
  split at requested
  · obtain rfl := Option.some.inj requested
    exact List.prefix_append _ _
  split at requested
  · obtain rfl := Option.some.inj requested
    exact List.prefix_append _ _
  split at requested
  · obtain rfl := Option.some.inj requested
    exact List.prefix_append _ _
  split at requested
  · obtain rfl := Option.some.inj requested
    refine List.IsPrefix.trans ?_ (abandon_outcomes _)
    exact List.prefix_refl _
  · obtain rfl := Option.some.inj requested
    rw [send_outcomes]

theorem timeOut_outcomes (fired : channel.timeOut codec id = some next) :
    channel.outcomes <+: next.outcomes := by
  unfold timeOut at fired
  split at fired
  · split at fired
    · cases fired
    · obtain rfl := Option.some.inj fired
      rw [send_outcomes]
      exact List.prefix_append _ _
  · cases fired

theorem pull_outcomes (pulled : channel.pull codec id = some next) :
    channel.outcomes <+: next.outcomes := by
  unfold pull at pulled
  split at pulled
  · split at pulled
    · cases pulled
    split at pulled
    · obtain rfl := Option.some.inj pulled
      exact List.prefix_refl _
    · obtain rfl := Option.some.inj pulled
      rw [send_outcomes]
  · cases pulled

theorem cancel_outcomes (cancelled : channel.cancel codec id = some next) :
    channel.outcomes <+: next.outcomes := by
  unfold cancel at cancelled
  split at cancelled
  · split at cancelled
    · obtain rfl := Option.some.inj cancelled
      rw [send_outcomes]
      exact List.prefix_refl _
    · cases cancelled
  · cases cancelled

theorem reserve_outcomes (key : Nat) (send : Send) :
    (channel.reserve key send).outcomes = channel.outcomes := by
  unfold reserve
  split
  · split <;> rfl
  · rfl

theorem admitNext_outcomes {key : Nat} (admitted : channel.admitNext key = some next) :
    channel.outcomes <+: next.outcomes := by
  unfold admitNext at admitted
  split at admitted
  · split at admitted
    · obtain rfl := Option.some.inj admitted
      rw [reserve_outcomes]
    · cases admitted
  · cases admitted

theorem capacity_outcomes {key : Nat} (passed : channel.capacity key = some next) :
    channel.outcomes <+: next.outcomes := by
  unfold capacity at passed
  split at passed
  · split at passed
    · split at passed <;>
      · obtain rfl := Option.some.inj passed
        exact List.prefix_refl _
    · cases passed
  · cases passed

theorem settle_outcomes {key : Nat} (settled : channel.settle key = some next) :
    channel.outcomes <+: next.outcomes := by
  unfold settle at settled
  split at settled
  · split at settled
    · obtain rfl := Option.some.inj settled
      exact List.prefix_refl _
    · cases settled
  · cases settled

theorem advance_outcomes (key : Nat) (send : Send) :
    (channel.advance key send).outcomes = channel.outcomes := by
  unfold advance markSent
  dsimp only
  split
  · split
    · rfl
    · split <;> rfl
  · rfl

theorem write_outcomes {key : Nat} {result : Channel × Option Written}
    (wrote : channel.write key = some result) : channel.outcomes <+: result.1.outcomes := by
  unfold write at wrote
  split at wrote
  · split at wrote
    · cases wrote
    split at wrote
    · obtain rfl := Option.some.inj wrote
      exact List.prefix_refl _
    split at wrote
    · obtain rfl := Option.some.inj wrote
      exact List.prefix_refl _
    · obtain rfl := Option.some.inj wrote
      rw [advance_outcomes]
  · cases wrote

theorem receive_outcomes (reply : Reply) :
    channel.outcomes <+: (channel.receive reply).outcomes := by
  unfold receive
  cases dispatched : channel.dispatch reply with
  | none => exact close_outcomes
  | some next =>
      rw [Option.getD_some]
      unfold dispatch at dispatched
      cases reply with
      | response id status headers accepted =>
          dsimp only at dispatched
          split at dispatched
          · obtain rfl := Option.some.inj dispatched
            exact List.prefix_refl _
          split at dispatched
          · cases dispatched
          split at dispatched <;>
          · obtain rfl := Option.some.inj dispatched
            exact List.prefix_append _ _
      | streamStart id status headers =>
          dsimp only at dispatched
          split at dispatched
          · obtain rfl := Option.some.inj dispatched
            exact List.prefix_refl _
          split at dispatched
          · cases dispatched
          · obtain rfl := Option.some.inj dispatched
            exact List.prefix_append _ _
      | streamChunk id accepted =>
          dsimp only at dispatched
          split at dispatched
          · obtain rfl := Option.some.inj dispatched
            exact List.prefix_refl _
          rename_i pending _
          split at dispatched
          · cases dispatched
          split at dispatched
          · obtain rfl := Option.some.inj dispatched
            exact List.prefix_refl _
          · obtain rfl := Option.some.inj dispatched
            refine List.IsPrefix.trans ?_ close_outcomes
            exact List.prefix_refl _
      | streamEnd id failed =>
          dsimp only at dispatched
          split at dispatched
          · obtain rfl := Option.some.inj dispatched
            exact List.prefix_refl _
          split at dispatched
          · obtain rfl := Option.some.inj dispatched
            exact List.prefix_refl _
          · cases dispatched

end Channel

/-! ### The link -/

namespace Link

variable {codec : Codec Frame} {link next : Link} {entries : Bytes → Entries}

/-- Settled promises stay settled. -/
theorem step_outcomes {identity : Identity} {action : Action}
    (stepped : step codec identity link action = some next) :
    link.channel.outcomes <+: next.channel.outcomes := by
  cases action with
  | request id call aborted =>
      obtain ⟨channel, requested, rfl⟩ := Option.map_eq_some_iff.mp stepped
      exact Channel.request_outcomes requested
  | abort id =>
      obtain ⟨channel, aborted, rfl⟩ := Option.map_eq_some_iff.mp stepped
      obtain ⟨pending, _, rfl⟩ := Option.map_eq_some_iff.mp aborted
      exact Channel.abandon_outcomes pending
  | timeOut id =>
      obtain ⟨channel, fired, rfl⟩ := Option.map_eq_some_iff.mp stepped
      exact Channel.timeOut_outcomes fired
  | pull id =>
      obtain ⟨channel, pulled, rfl⟩ := Option.map_eq_some_iff.mp stepped
      exact Channel.pull_outcomes pulled
  | cancel id =>
      obtain ⟨channel, cancelled, rfl⟩ := Option.map_eq_some_iff.mp stepped
      exact Channel.cancel_outcomes cancelled
  | admitNext key =>
      obtain ⟨channel, admitted, rfl⟩ := Option.map_eq_some_iff.mp stepped
      exact Channel.admitNext_outcomes admitted
  | capacity key =>
      obtain ⟨channel, passed, rfl⟩ := Option.map_eq_some_iff.mp stepped
      exact Channel.capacity_outcomes passed
  | write key =>
      obtain ⟨written, wrote, rfl⟩ := Option.map_eq_some_iff.mp stepped
      exact Channel.write_outcomes wrote
  | settle key =>
      obtain ⟨channel, settled, rfl⟩ := Option.map_eq_some_iff.mp stepped
      exact Channel.settle_outcomes settled
  | close =>
      obtain rfl := Option.some.inj stepped
      exact Channel.close_outcomes
  | disconnect =>
      obtain rfl := Option.some.inj stepped
      exact List.prefix_refl _
  | receive =>
      unfold step at stepped
      dsimp only at stepped
      split at stepped
      · cases stepped
      · obtain rfl := Option.some.inj stepped
        exact Channel.receive_outcomes _
  | read readings reserved full =>
      have read : link.readNext codec readings reserved full = some next := stepped
      unfold readNext at read
      split at read
      · obtain ⟨_, _, isNext⟩ := Option.bind_eq_some_iff.mp read
        obtain rfl := Option.some.inj isNext
        rw [handle_channel]
      · cases read
  | tick readings reserved =>
      have ticked : link.tick readings reserved = some next := stepped
      unfold tick at ticked
      split at ticked
      · obtain ⟨_, _, isNext⟩ := Option.bind_eq_some_iff.mp ticked
        obtain rfl := Option.some.inj isNext
        exact List.prefix_refl _
      · cases ticked
  | reply reply =>
      obtain rfl := Option.some.inj stepped
      exact List.prefix_refl _

/-- The promises of the client against what the reader has rejected, and the refusals
that are on their way. -/
structure Asked (link : Link) : Prop where
  asks : Asks link.channel link.packets link.rejected
  refused : ∀ id status headers accepted, .response id status headers accepted ∈ link.replies →
    Refuses status headers → ∃ written ∈ link.packets, written.key ∈ link.rejected ∧
      written.frame.requestId = some id

theorem Asked.initial (budget : ReassemblyBudget) : (initial budget).Asked :=
  ⟨.initial, fun _ _ _ _ member => absurd member List.not_mem_nil⟩

/-- No reply of the application refuses a request. -/
theorem not_refuses_passed {reply : Reply} {id : String} {status : Nat}
    {headers : List (String × String)} {accepted : Bool}
    (passed : reply.passed = .response id status headers accepted) : ¬ Refuses status headers := by
  cases reply with
  | response name code given isAccepted =>
      obtain ⟨rfl, rfl, rfl, rfl⟩ := Reply.response.inj passed
      rintro ⟨_, value⟩
      have nothing : (given.filter fun header => responseHeader header.1).filterMap
          (fun header => if header.1 = rejectionHeader then some header.2 else none) = [] := by
        refine List.filterMap_eq_nil_iff.mpr fun header member => if_neg fun same => ?_
        have allowed := (List.mem_filter.mp member).2
        rw [same] at allowed
        exact absurd allowed (by decide)
      rw [headerValue, nothing] at value
      cases value
  | streamStart name code given => cases passed
  | streamChunk name isAccepted => cases passed
  | streamEnd name failed => cases passed

/-- A block of the client. -/
theorem Asked.withChannel (asked : link.Asked) {channel : Channel}
    (asks : Asks channel link.packets link.rejected) : (link.withChannel channel).Asked :=
  ⟨asks, asked.refused⟩

theorem Asked.withWritten (asked : link.Asked) {written : Channel × Option Written}
    (asks : Asks written.1 (link.packets ++ written.2.toList) link.rejected) :
    (link.withWritten written).Asked := by
  have grown : (link.withWritten written).packets = link.packets ++ written.2.toList :=
    (List.append_assoc _ _ _).symm
  refine ⟨?_, fun id status headers accepted member refuses => ?_⟩
  · rw [grown]
    exact asks
  · obtain ⟨earlier, inside, facts⟩ := asked.refused id status headers accepted member refuses
    refine ⟨earlier, ?_, facts⟩
    rw [grown]
    exact List.mem_append_left _ inside

/-- A refusal arrives: every packet of its request is of a rejected send. -/
theorem Asked.receive (asked : link.Asked) (sound : link.Sound codec) {reply : Reply}
    {rest : List Reply} (replies : link.replies = reply :: rest) :
    { link.withChannel (link.channel.receive reply) with replies := rest }.Asked := by
  refine ⟨asked.asks.receive reply ?_, fun id status headers accepted member => ?_⟩
  · rintro id status headers accepted rfl refuses written member isRequest
    obtain ⟨first, inside, isRejected, firstRequest⟩ := asked.refused id status headers accepted
      (by rw [replies]; exact List.mem_cons_self) refuses
    have sameKey := asked.asks.unique written.key first.key written.frame first.frame id
      (sound.writes.recorded written member) (sound.writes.recorded first inside) isRequest
      firstRequest
    rw [sameKey]
    exact isRejected
  · exact asked.refused id status headers accepted (by
      rw [replies]
      exact List.mem_cons_of_mem _ member)

/-- The reader rejects the send of a packet and names its request. -/
theorem Asked.reject (asked : link.Asked) (visits : Visits codec entries) {written : Written}
    {rest : List Written} (wire : link.wire = written :: rest) (valid : written.Valid codec)
    (full : Bool) : (link.handle written rest full
      (.error (.rejected (codec.requestIdPrefix (slice written.payload 0))))).Asked := by
  have packets := handle_packets wire full
    (.error (.rejected (codec.requestIdPrefix (slice written.payload 0))))
  have inside : written ∈ link.packets := by
    unfold Link.packets
    rw [wire]
    exact List.mem_append_right _ List.mem_cons_self
  refine ⟨?_, fun id status headers accepted member refuses => ?_⟩
  · rw [packets]
    exact asked.asks.reject fun key member => List.mem_append_left _ member
  · rw [packets]
    rcases List.mem_append.mp member with earlier | isLast
    · obtain ⟨first, isFirst, isRejected, isRequest⟩ :=
        asked.refused id status headers accepted earlier refuses
      exact ⟨first, isFirst, List.mem_append_left _ isRejected, isRequest⟩
    · rw [Option.mem_toList, Option.map_eq_some_iff] at isLast
      obtain ⟨named, isNamed, isReply⟩ := isLast
      obtain ⟨rfl, _⟩ := Reply.response.inj isReply
      exact ⟨written, inside, List.mem_append_right _ (List.mem_singleton_self _),
        visits.names valid.serialized isNamed⟩

theorem Asked.readNext (lawful : codec.Lawful) (visits : Visits codec entries) (asked : link.Asked)
    (sound : link.Sound codec) {readings : Readings} {reserved : Reservations} {full : Bool}
    (read : link.readNext codec readings reserved full = some next) : next.Asked := by
  obtain ⟨written, rest, decoder, answer, progress, wire, whole, _, answered, rfl⟩ :=
    sound.answered lawful read
  have gaveUp : (link.gaveUp readings decoder).Asked := ⟨asked.asks, asked.refused⟩
  have wireUp : (link.gaveUp readings decoder).wire = written :: rest := wire
  have packets := handle_packets wireUp full answer
  cases answered with
  | refused message first reason => exact ⟨gaveUp.asks, gaveUp.refused⟩
  | busy follows => exact gaveUp
  | rejected after advanced first follows => exact gaveUp.reject visits wireUp whole.of_snoc.2.1 full
  | silent after advanced follows quiet =>
      refine ⟨?_, ?_⟩
      · rw [packets]
        exact gaveUp.asks
      · rw [packets]
        exact gaveUp.refused
  | emitted after advanced follows completes kept =>
      have same : ∀ handled : Link, handled.channel = link.channel → handled.packets = link.packets →
          handled.rejected = link.rejected → handled.replies = link.replies → handled.Asked := by
        intro handled channel packets rejected replies
        refine ⟨?_, ?_⟩
        · rw [channel, packets, rejected]
          exact asked.asks
        · rw [packets, rejected, replies]
          exact asked.refused
      refine same _ (handle_channel full _) packets ?_ ?_
      all_goals
        unfold handle
        dsimp only
        split <;> rfl

/-- Every block keeps the promises of a connection. -/
theorem Asked.step (lawful : codec.Lawful) (visits : Visits codec entries) (identity : Identity)
    (asked : link.Asked) (sound : link.Sound codec) (action : Action)
    (stepped : step codec identity link action = some next) : next.Asked := by
  cases action with
  | request id call aborted =>
      obtain ⟨channel, requested, rfl⟩ := Option.map_eq_some_iff.mp stepped
      exact asked.withChannel (asked.asks.request sound.writes requested)
  | abort id =>
      obtain ⟨channel, aborted, rfl⟩ := Option.map_eq_some_iff.mp stepped
      exact asked.withChannel (asked.asks.abort aborted)
  | timeOut id =>
      obtain ⟨channel, fired, rfl⟩ := Option.map_eq_some_iff.mp stepped
      exact asked.withChannel (asked.asks.timeOut fired)
  | pull id =>
      obtain ⟨channel, pulled, rfl⟩ := Option.map_eq_some_iff.mp stepped
      exact asked.withChannel (asked.asks.pull pulled)
  | cancel id =>
      obtain ⟨channel, cancelled, rfl⟩ := Option.map_eq_some_iff.mp stepped
      exact asked.withChannel (asked.asks.cancel cancelled)
  | admitNext key =>
      obtain ⟨channel, admitted, rfl⟩ := Option.map_eq_some_iff.mp stepped
      exact asked.withChannel (asked.asks.admitNext admitted)
  | capacity key =>
      obtain ⟨channel, passed, rfl⟩ := Option.map_eq_some_iff.mp stepped
      exact asked.withChannel (asked.asks.capacity passed)
  | write key =>
      obtain ⟨written, wrote, rfl⟩ := Option.map_eq_some_iff.mp stepped
      exact asked.withWritten (asked.asks.write wrote)
  | settle key =>
      obtain ⟨channel, settled, rfl⟩ := Option.map_eq_some_iff.mp stepped
      exact asked.withChannel (asked.asks.settleSend settled)
  | close =>
      obtain rfl := Option.some.inj stepped
      exact asked.withChannel asked.asks.close
  | disconnect =>
      obtain rfl := Option.some.inj stepped
      exact asked.withChannel (asked.asks.of_eq rfl rfl rfl rfl)
  | receive =>
      unfold Link.step at stepped
      dsimp only at stepped
      split at stepped
      · cases stepped
      · rename_i reply rest replies
        obtain rfl := Option.some.inj stepped
        exact asked.receive sound replies
  | read readings reserved full => exact asked.readNext lawful visits sound stepped
  | tick readings reserved =>
      have ticked : link.tick readings reserved = some next := stepped
      unfold Link.tick at ticked
      split at ticked
      · obtain ⟨_, _, isNext⟩ := Option.bind_eq_some_iff.mp ticked
        obtain rfl := Option.some.inj isNext
        exact ⟨asked.asks, asked.refused⟩
      · cases ticked
  | reply reply =>
      obtain rfl := Option.some.inj stepped
      refine ⟨asked.asks, fun id status headers accepted member refuses => ?_⟩
      rcases List.mem_append.mp member with earlier | isLast
      · exact asked.refused id status headers accepted earlier refuses
      · exact absurd refuses (not_refuses_passed (List.mem_singleton.mp isLast).symm)

end Link

end Cairn.Protocol.DirectChannel

import Cairn.Protocol.DirectLinkRequests

/-!
Owns why the sender's own bookkeeping keeps the decoder within its limits: transfer
identifiers repeat only after a whole turn of the counter, every transfer under way has
a seat, and there are never more seats than the decoder accepts. It holds as long as no
send stays unfinished for a whole turn.
-/

set_option autoImplicit false

namespace Cairn.Protocol.DirectChannel

open Cairn.Library Cairn.Library.HashMaps Cairn.Library.Lists DataChannel

variable {codec : Codec Frame}

/-! ### Identifiers -/

/-- The number of transfer identifiers. -/
def turn : Nat := 2 ^ 32 - 1

/-- The identifier of the send at a place. -/
def transferAt (key : Nat) : UInt32 := UInt32.ofNat (key % turn + 1)

/-- The identifier that a channel gave last. -/
def lastTransfer (count : Nat) : UInt32 := if count = 0 then 0 else transferAt (count - 1)

theorem nextTransfer_last (count : Nat) : nextTransfer (lastTransfer count) = transferAt count := by
  have step : ∀ value : Nat, UInt32.ofNat value + 1 = UInt32.ofNat (value + 1) := fun value => by
    rw [UInt32.ofNat_add]
    rfl
  have wraps : ∀ value : Nat, UInt32.ofNat value = 0 ↔ value % 2 ^ 32 = 0 := fun value => by
    rw [← UInt32.toNat_inj, UInt32.toNat_ofNat']
    rfl
  unfold lastTransfer
  cases count with
  | zero => rfl
  | succ count =>
      have below : count % turn < turn := Nat.mod_lt _ (by decide)
      rw [if_neg (Nat.succ_ne_zero count), Nat.add_sub_cancel]
      unfold nextTransfer transferAt
      rw [step]
      have isTurn : turn = 4294967295 := rfl
      rw [isTurn] at below ⊢
      split
      · rename_i wrapped
        rw [wraps] at wrapped
        have last : (count + 1) % 4294967295 = 0 := by omega
        rw [last]
        rfl
      · rename_i unwrapped
        rw [wraps] at unwrapped
        have next : (count + 1) % 4294967295 = count % 4294967295 + 1 := by omega
        rw [next]

/-- Sends less than a turn apart have different identifiers. -/
theorem transferAt_inj {first second : Nat} (forward : second ≤ first + turn - 1)
    (backward : first ≤ second + turn - 1) (same : transferAt first = transferAt second) :
    first = second := by
  have values := congrArg UInt32.toNat same
  unfold transferAt at values
  rw [UInt32.toNat_ofNat', UInt32.toNat_ofNat'] at values
  have isTurn : turn = 4294967295 := rfl
  rw [isTurn] at values forward backward
  omega

/-- No send has stayed unfinished while a whole turn of others started. -/
def Channel.Recent (channel : Channel) : Prop :=
  ∀ key send, channel.sends.lookup key = some send → channel.history.length ≤ key + turn

/-! ### Seats -/

/-- Packets can still be written by a send that has yet to pass `capacity`. -/
def Channel.Alive (channel : Channel) : Prop := channel.closed ≠ true ∧ channel.isOpen = true

/-- Every transfer under way and every send about to write has a seat, and while the
channel is alive the seats are those of the reserved sends. -/
structure Seats (seats : HashMap UInt32 Nat) (channel : Channel) (packets : List Written) : Prop where
  few : size seats ≤ maxInFlight
  progress : ∃ progress, track packets = some progress ∧
    ∀ id inflight, progress.lookup id = some inflight → seats.lookup id = some inflight.key
  ready : ∀ key send, channel.sends.lookup key = some send → send.stage = .ready →
    seats.lookup send.transfer = some key
  seated : channel.Alive → ∀ key send, channel.sends.lookup key = some send →
    send.stage ≠ .waiting → seats.lookup send.transfer = some key
  owned : channel.Alive → ∀ id key, seats.lookup id = some key →
    ∃ send, channel.sends.lookup key = some send ∧ send.stage ≠ .waiting ∧ send.transfer = id
  reserved : channel.Alive → ∀ id, id ∈ seats ↔ id ∈ channel.outgoing

/-- What the bookkeeping of a channel keeps. -/
structure Seated (channel : Channel) (packets : List Written) : Prop where
  last : channel.transfer = lastTransfer channel.history.length
  placed : ∀ key send, channel.sends.lookup key = some send →
    send.transfer = transferAt key ∧ key < channel.history.length
  done : channel.Alive → ∀ key send, channel.sends.lookup key = some send → send.stage = .done →
    ∀ written ∈ packets, written.key = key → ∃ ending ∈ packets, ending.key = key ∧ ending.Ends
  seats : ∃ seats, Seats seats channel packets
  roomy : ∀ before written after, packets = before ++ written :: after → written.part = some 0 →
    ∀ progress, track before = some progress → size progress < maxInFlight

namespace Seated

variable {channel next : Channel} {packets : List Written} {key : Nat} {send : Send}

theorem initial : Seated Channel.initial [] where
  last := rfl
  placed := fun key send found => by simp [Channel.initial] at found
  done := fun _ key send found => by simp [Channel.initial] at found
  seats := by
    refine ⟨∅, by decide, ⟨∅, rfl, fun id inflight found => ?_⟩, fun key send found => ?_,
      fun _ key send found => ?_, fun _ id key found => ?_, fun _ id => Iff.rfl⟩
    · rw [AList.lookup_empty] at found
      cases found
    · simp [Channel.initial] at found
    · simp [Channel.initial] at found
    · rw [AList.lookup_empty] at found
      cases found
  roomy := fun before written after whole => by simp at whole

/-- Two sends whose identifiers are the same are one, if both are recent. -/
theorem same_key (placed : ∀ key send, channel.sends.lookup key = some send →
      send.transfer = transferAt key ∧ key < channel.history.length)
    (recent : channel.Recent) {other : Nat} {another : Send}
    (found : channel.sends.lookup key = some send)
    (isOther : channel.sends.lookup other = some another)
    (same : send.transfer = another.transfer) : key = other := by
  obtain ⟨transfer, before⟩ := placed key send found
  obtain ⟨otherTransfer, otherBefore⟩ := placed other another isOther
  have near := recent key send found
  have otherNear := recent other another isOther
  refine transferAt_inj (by omega) (by omega) ?_
  rw [← transfer, ← otherTransfer]
  exact same

/-- Only the sends, their count and what is reserved matter. -/
theorem of_eq (seated : Seated channel packets) (sends : next.sends = channel.sends)
    (history : next.history = channel.history) (transfer : next.transfer = channel.transfer)
    (outgoing : next.outgoing = channel.outgoing) (alive : next.Alive → channel.Alive) :
    Seated next packets := by
  obtain ⟨last, placed, done, ⟨seats, few, progress, ready, isSeated, owned, reserved⟩, roomy⟩ := seated
  refine ⟨?_, ?_, fun isAlive => ?_, ⟨seats, few, progress, ?_, fun isAlive => ?_,
    fun isAlive => ?_, fun isAlive => ?_⟩, roomy⟩
  · rw [transfer, history]
    exact last
  · rw [sends, history]
    exact placed
  · rw [sends]
    exact done (alive isAlive)
  · rw [sends]
    exact ready
  · rw [sends]
    exact isSeated (alive isAlive)
  · rw [sends]
    exact owned (alive isAlive)
  · rw [outgoing]
    exact reserved (alive isAlive)

/-- A send that starts has no seat yet. -/
theorem start (seated : Seated channel packets) {frame : Frame} {payload : Bytes}
    (transfer : next.transfer = nextTransfer channel.transfer)
    (sends : next.sends = channel.sends.insert channel.history.length
      ⟨frame, nextTransfer channel.transfer, payload, 0, .waiting⟩)
    (history : next.history = channel.history ++ [frame])
    (outgoing : next.outgoing = channel.outgoing) (alive : next.Alive → channel.Alive) :
    Seated next packets := by
  obtain ⟨last, placed, done, ⟨seats, few, progress, ready, isSeated, owned, reserved⟩, roomy⟩ := seated
  have count : next.history.length = channel.history.length + 1 := by
    rw [history, List.length_append, List.length_singleton]
  have isTransfer : nextTransfer channel.transfer = transferAt channel.history.length := by
    rw [last, nextTransfer_last]
  have old : ∀ other entry, next.sends.lookup other = some entry → entry.stage ≠ .waiting →
      channel.sends.lookup other = some entry := by
    intro other entry found notWaiting
    rw [sends, lookup_insert] at found
    split at found
    · obtain rfl := Option.some.inj found
      exact absurd rfl notWaiting
    · exact found
  refine ⟨?_, fun other entry found => ?_, fun isAlive other entry found isDone =>
      done (alive isAlive) other entry (old other entry found fun waiting => by
        rw [isDone] at waiting
        cases waiting) isDone,
    ⟨seats, few, progress, fun other entry found isReady =>
      ready other entry (old other entry found fun waiting => by
        rw [isReady] at waiting
        cases waiting) isReady,
      fun isAlive other entry found notWaiting =>
        isSeated (alive isAlive) other entry (old other entry found notWaiting) notWaiting,
      fun isAlive id other found => ?_, fun isAlive => ?_⟩, roomy⟩
  · rw [transfer, isTransfer, count]
    rfl
  · rw [count]
    rw [sends, lookup_insert] at found
    split at found
    · rename_i same
      obtain rfl := Option.some.inj found
      rw [same]
      exact ⟨isTransfer, Nat.lt_succ_self _⟩
    · obtain ⟨isPlaced, before⟩ := placed other entry found
      exact ⟨isPlaced, Nat.lt_succ_of_lt before⟩
  · obtain ⟨entry, isEntry, notWaiting, sameTransfer⟩ := owned (alive isAlive) id other found
    refine ⟨entry, ?_, notWaiting, sameTransfer⟩
    have before := (placed other entry isEntry).2
    rw [sends, lookup_insert, if_neg (Nat.ne_of_lt before)]
    exact isEntry
  · rw [outgoing]
    exact reserved (alive isAlive)

/-- A waiting send that is dropped held no seat. -/
theorem drop (seated : Seated channel packets) (found : channel.sends.lookup key = some send)
    (waiting : send.stage = .waiting) :
    Seated { channel with sends := channel.sends.erase key } packets := by
  obtain ⟨last, placed, done, ⟨seats, few, progress, ready, isSeated, owned, reserved⟩, roomy⟩ := seated
  refine ⟨last, fun other entry isEntry => placed other entry (lookup_of_erase isEntry).2,
    fun alive other entry isEntry => done alive other entry (lookup_of_erase isEntry).2,
    ⟨seats, few, progress, fun other entry isEntry => ready other entry (lookup_of_erase isEntry).2,
      fun alive other entry isEntry => isSeated alive other entry (lookup_of_erase isEntry).2,
      fun alive id other isOwned => ?_, reserved⟩, roomy⟩
  obtain ⟨entry, isEntry, notWaiting, sameTransfer⟩ := owned alive id other isOwned
  refine ⟨entry, ?_, notWaiting, sameTransfer⟩
  dsimp only
  rw [lookup_erase, if_neg fun same => ?_]
  · exact isEntry
  · rw [same, found] at isEntry
    obtain rfl := Option.some.inj isEntry
    exact notWaiting waiting

/-- A waiting send takes a seat of its own. -/
theorem take (seated : Seated channel packets) (found : channel.sends.lookup key = some send)
    (waiting : send.stage = .waiting) (room : size channel.outgoing < maxInFlight)
    (recent : channel.Recent) (outgoingBytes : Int) :
    Seated { channel with
      outgoing := channel.outgoing.insert send.transfer send.payload.length
      outgoingBytes := outgoingBytes
      sends := channel.sends.insert key { send with stage := .reserved } } packets := by
  obtain ⟨last, placed, done, ⟨seats, few, ⟨progress, tracked, isProgress⟩, ready, isSeated, owned,
    reserved⟩, roomy⟩ := seated
  have isPlaced : ∀ other entry,
      (channel.sends.insert key { send with stage := .reserved }).lookup other = some entry →
      entry.transfer = transferAt other ∧ other < channel.history.length := by
    intro other entry isEntry
    rw [lookup_insert] at isEntry
    split at isEntry
    · rename_i same
      obtain rfl := Option.some.inj isEntry
      rw [same]
      exact placed key send found
    · exact placed other entry isEntry
  have isDone : channel.Alive → ∀ other entry,
      (channel.sends.insert key { send with stage := .reserved }).lookup other = some entry →
      entry.stage = .done → ∀ written ∈ packets, written.key = other →
        ∃ ending ∈ packets, ending.key = other ∧ ending.Ends := by
    intro alive other entry isEntry stage
    rw [lookup_insert] at isEntry
    split at isEntry
    · obtain rfl := Option.some.inj isEntry
      cases stage
    · exact done alive other entry isEntry stage
  have isReady : ∀ other entry,
      (channel.sends.insert key { send with stage := .reserved }).lookup other = some entry →
      entry.stage = .ready → seats.lookup entry.transfer = some other := by
    intro other entry isEntry stage
    rw [lookup_insert] at isEntry
    split at isEntry
    · obtain rfl := Option.some.inj isEntry
      cases stage
    · exact ready other entry isEntry stage
  by_cases alive : channel.Alive
  · -- no seat has the identifier yet: its owner would be a send of the same turn
    have vacant : send.transfer ∉ seats := by
      intro taken
      obtain ⟨other, isOther⟩ := Option.isSome_iff_exists.mp (AList.lookup_isSome.mpr taken)
      obtain ⟨entry, isEntry, notWaiting, sameTransfer⟩ := owned alive _ other isOther
      obtain rfl := same_key placed recent isEntry found sameTransfer
      rw [found] at isEntry
      obtain rfl := Option.some.inj isEntry
      exact notWaiting waiting
    have elsewhere : ∀ id, id ∈ seats → id ≠ send.transfer := fun id inside same => vacant (same ▸ inside)
    refine ⟨last, isPlaced, fun _ => isDone alive, ⟨seats.insert send.transfer key, ?_,
      ⟨progress, tracked, fun id inflight under => ?_⟩, fun other entry isEntry stage => ?_,
      fun _ other entry isEntry stage => ?_, fun _ id other isOwned => ?_, fun _ id => ?_⟩, roomy⟩
    · have sizes : size seats ≤ size channel.outgoing :=
        size_le_size fun id inside => (reserved alive id).mp inside
      rw [size_insert_of_notMem key vacant]
      omega
    · have here := isProgress id inflight under
      rw [lookup_insert, if_neg (elsewhere id (AList.lookup_isSome.mp (by rw [here]; rfl)))]
      exact here
    · have here := isReady other entry isEntry stage
      rw [lookup_insert, if_neg (elsewhere _ (AList.lookup_isSome.mp (by rw [here]; rfl)))]
      exact here
    · dsimp only at isEntry
      rw [lookup_insert] at isEntry
      split at isEntry
      · rename_i same
        obtain rfl := Option.some.inj isEntry
        rw [same]
        exact AList.lookup_insert _
      · have here := isSeated alive other entry isEntry stage
        rw [lookup_insert, if_neg (elsewhere _ (AList.lookup_isSome.mp (by rw [here]; rfl)))]
        exact here
    · rw [lookup_insert] at isOwned
      split at isOwned
      · rename_i same
        obtain rfl := Option.some.inj isOwned
        exact ⟨{ send with stage := .reserved }, AList.lookup_insert _, nofun, same.symm⟩
      · obtain ⟨entry, isEntry, notWaiting, sameTransfer⟩ := owned alive id other isOwned
        refine ⟨entry, ?_, notWaiting, sameTransfer⟩
        dsimp only
        rw [lookup_insert, if_neg fun same => ?_]
        · exact isEntry
        · rw [same, found] at isEntry
          obtain rfl := Option.some.inj isEntry
          exact notWaiting waiting
    · dsimp only
      rw [AList.mem_insert, AList.mem_insert, reserved alive id]
  · exact ⟨last, isPlaced, fun isAlive => absurd isAlive alive, ⟨seats, few,
      ⟨progress, tracked, isProgress⟩, isReady, fun isAlive => absurd isAlive alive,
      fun isAlive => absurd isAlive alive, fun isAlive => absurd isAlive alive⟩, roomy⟩

theorem reserve (seated : Seated channel packets) (found : channel.sends.lookup key = some send)
    (waiting : send.stage = .waiting) (recent : channel.Recent) :
    Seated (channel.reserve key send) packets := by
  unfold Channel.reserve
  split
  · split
    · exact seated.drop found waiting
    · exact seated
  · rename_i room
    have few : size channel.outgoing < maxInFlight := by
      unfold Channel.full at room
      rw [decide_eq_true_eq, not_or] at room
      exact Nat.not_le.mp room.1
    exact seated.take found waiting few recent _

/-- The condition on the next state covers the send that starts in this step: it stays
under its identifier, or is dropped at once. -/
theorem sendFrame (seated : Seated channel packets) (frame : Frame)
    (recent : (channel.send codec frame).Recent) : Seated (channel.send codec frame) packets := by
  unfold Channel.send at recent ⊢
  split at recent
  · exact seated
  rename_i payload _
  split at recent
  · rename_i large
    rw [if_pos large]
    exact seated
  rename_i fits
  rw [if_neg fits]
  dsimp only at recent ⊢
  have started : Seated { channel with
      transfer := nextTransfer channel.transfer
      sends := channel.sends.insert channel.history.length
        ⟨frame, nextTransfer channel.transfer, payload, 0, .waiting⟩
      history := channel.history ++ [frame] } packets :=
    seated.start rfl rfl rfl rfl id
  have found : ({ channel with
      transfer := nextTransfer channel.transfer
      sends := channel.sends.insert channel.history.length
        ⟨frame, nextTransfer channel.transfer, payload, 0, .waiting⟩
      history := channel.history ++ [frame] } : Channel).sends.lookup channel.history.length =
        some ⟨frame, nextTransfer channel.transfer, payload, 0, .waiting⟩ := AList.lookup_insert _
  unfold Channel.reserve at recent ⊢
  split at recent
  · rename_i isFull
    rw [if_pos isFull]
    split at recent
    · rename_i gone
      rw [if_pos gone]
      exact started.drop found rfl
    · rename_i stays
      rw [if_neg stays]
      exact started
  · rename_i room
    rw [if_neg room]
    have few : size channel.outgoing < maxInFlight := by
      unfold Channel.full at room
      rw [decide_eq_true_eq, not_or] at room
      exact Nat.not_le.mp room.1
    refine started.take found rfl few (fun other entry isEntry => ?_) _
    dsimp only at isEntry
    rw [lookup_insert] at isEntry
    split at isEntry
    · rename_i same
      subst same
      exact recent channel.history.length _ (AList.lookup_insert _)
    · rename_i different
      refine recent other entry ?_
      dsimp only
      rw [lookup_insert, if_neg different, lookup_insert, if_neg different]
      exact isEntry

theorem admitNext (seated : Seated channel packets) (recent : channel.Recent)
    (admitted : channel.admitNext key = some next) : Seated next packets := by
  unfold Channel.admitNext at admitted
  split at admitted
  · rename_i send found
    split at admitted
    · rename_i waiting
      obtain rfl := Option.some.inj admitted
      exact seated.reserve found waiting recent
    · cases admitted
  · cases admitted

/-- A send that has a seat goes on to another stage under its identifier. -/
theorem move (seated : Seated channel packets) (found : channel.sends.lookup key = some send)
    (notWaiting : send.stage ≠ .waiting) (moved : Send) (transfer : moved.transfer = send.transfer)
    (later : moved.stage ≠ .waiting)
    (alive : channel.Alive ∨ (¬ channel.Alive ∧ (moved.stage = .ready → send.stage = .ready)))
    {more : List Written} (done : channel.Alive → moved.stage = .done →
      ∀ written ∈ packets ++ more, written.key = key →
        ∃ ending ∈ packets ++ more, ending.key = key ∧ ending.Ends)
    (others : ∀ written ∈ more, written.key = key)
    (progress : ∀ seats : HashMap UInt32 Nat, (∀ progress, track packets = some progress →
        ∀ id inflight, progress.lookup id = some inflight → seats.lookup id = some inflight.key) →
      (send.stage = .ready → seats.lookup send.transfer = some key) →
      ∃ progress, track (packets ++ more) = some progress ∧
        ∀ id inflight, progress.lookup id = some inflight → seats.lookup id = some inflight.key)
    (roomy : ∀ before written after, packets ++ more = before ++ written :: after →
      written.part = some 0 → ∀ progress, track before = some progress → size progress < maxInFlight)
    (sends : next.sends = channel.sends.insert key moved) (history : next.history = channel.history)
    (isTransfer : next.transfer = channel.transfer) (outgoing : next.outgoing = channel.outgoing)
    (kept : next.Alive → channel.Alive) : Seated next (packets ++ more) := by
  obtain ⟨last, placed, wasDone, ⟨seats, few, ⟨progress', tracked, isProgress⟩, ready, isSeated,
    owned, reserved⟩, _⟩ := seated
  have onward := progress seats (fun other isTracked => by
    rw [tracked] at isTracked
    obtain rfl := Option.some.inj isTracked
    exact isProgress) (ready key send found)
  refine ⟨?_, fun other entry isEntry => ?_, fun isAlive other entry isEntry stage => ?_,
    ⟨seats, few, onward, fun other entry isEntry stage => ?_,
      fun isAlive other entry isEntry stage => ?_, fun isAlive id other isOwned => ?_,
      fun isAlive => ?_⟩, roomy⟩
  · rw [isTransfer, history]
    exact last
  · rw [history]
    rw [sends, lookup_insert] at isEntry
    split at isEntry
    · rename_i same
      obtain rfl := Option.some.inj isEntry
      rw [same, transfer]
      exact placed key send found
    · exact placed other entry isEntry
  · rw [sends, lookup_insert] at isEntry
    split at isEntry
    · rename_i same
      obtain rfl := Option.some.inj isEntry
      rw [same]
      exact done (kept isAlive) stage
    · rename_i different
      intro written member sameKey
      rcases List.mem_append.mp member with earlier | added
      · obtain ⟨ending, inside, facts⟩ :=
          wasDone (kept isAlive) other entry isEntry stage written earlier sameKey
        exact ⟨ending, List.mem_append_left _ inside, facts⟩
      · exact absurd (sameKey.symm.trans (others written added)) different
  · rw [sends, lookup_insert] at isEntry
    split at isEntry
    · rename_i same
      obtain rfl := Option.some.inj isEntry
      rw [same, transfer]
      rcases alive with isAlive | ⟨_, wasReady⟩
      · exact isSeated isAlive key send found notWaiting
      · exact ready key send found (wasReady stage)
    · exact ready other entry isEntry stage
  · rw [sends, lookup_insert] at isEntry
    split at isEntry
    · rename_i same
      obtain rfl := Option.some.inj isEntry
      rw [same, transfer]
      exact isSeated (kept isAlive) key send found notWaiting
    · exact isSeated (kept isAlive) other entry isEntry stage
  · obtain ⟨entry, isEntry, stage, sameTransfer⟩ := owned (kept isAlive) id other isOwned
    by_cases same : other = key
    · rw [same, found] at isEntry
      obtain rfl := Option.some.inj isEntry
      refine ⟨moved, ?_, later, transfer.trans sameTransfer⟩
      rw [sends, same]
      exact AList.lookup_insert _
    · refine ⟨entry, ?_, stage, sameTransfer⟩
      rw [sends, lookup_insert, if_neg same]
      exact isEntry
  · rw [outgoing]
    exact reserved (kept isAlive)

/-- Progress that has not changed. -/
theorem same_progress (seated : Seated channel packets) (seats : HashMap UInt32 Nat)
    (here : ∀ progress, track packets = some progress →
      ∀ id inflight, progress.lookup id = some inflight → seats.lookup id = some inflight.key) :
    ∃ progress, track (packets ++ []) = some progress ∧
      ∀ id inflight, progress.lookup id = some inflight → seats.lookup id = some inflight.key := by
  obtain ⟨_, _, ⟨progress, tracked, _⟩, _⟩ := seated.seats
  rw [List.append_nil]
  exact ⟨progress, tracked, here progress tracked⟩

theorem capacity (seated : Seated channel packets)
    (passed : channel.capacity key = some next) : Seated next packets := by
  unfold Channel.capacity at passed
  split at passed
  · rename_i send found
    split at passed
    · rename_i reserved
      have notWaiting : send.stage ≠ .waiting := fun waiting => nomatch waiting.symm.trans reserved
      rw [← List.append_nil packets]
      have roomy : ∀ before written after, packets ++ [] = before ++ written :: after →
          written.part = some 0 → ∀ progress, track before = some progress →
            size progress < maxInFlight := by
        rw [List.append_nil]
        exact seated.roomy
      split at passed
      · rename_i gone
        obtain rfl := Option.some.inj passed
        have dead : ¬ channel.Alive := fun alive => gone.elim alive.1 (absurd alive.2)
        exact seated.move found notWaiting { send with stage := .done } rfl nofun (.inr ⟨dead, nofun⟩)
          (fun alive => absurd alive dead) (fun written member => absurd member List.not_mem_nil)
          (fun seats here _ => seated.same_progress seats here) roomy rfl rfl rfl rfl id
      · rename_i stays
        obtain rfl := Option.some.inj passed
        rw [not_or, not_not] at stays
        exact seated.move found notWaiting { send with stage := .ready } rfl nofun
          (.inl ⟨stays.1, stays.2⟩) (fun _ stage => nomatch stage) (fun written member => absurd member List.not_mem_nil)
          (fun seats here _ => seated.same_progress seats here) roomy rfl rfl rfl rfl id
    · cases passed
  · cases passed

/-- The rooms of a longer history, where only its last packet is new. -/
theorem roomy_snoc (seated : Seated channel packets) {written : Written}
    (room : written.part = some 0 → ∀ progress, track packets = some progress →
      size progress < maxInFlight) :
    ∀ before entry after, packets ++ [written] = before ++ entry :: after → entry.part = some 0 →
      ∀ progress, track before = some progress → size progress < maxInFlight := by
  intro before entry after whole first
  rcases append_singleton_split.mp whole with ⟨rfl, rfl, rfl⟩ | ⟨rest, rfl, earlier⟩
  · exact room first
  · exact seated.roomy before entry rest earlier first

/-- A send that is done without a packet; if the channel is alive it had written none. -/
theorem finish (writes : Writes codec channel packets) (seated : Seated channel packets)
    (found : channel.sends.lookup key = some send) (isReady : send.stage = .ready)
    (unbegun : channel.Alive → send.offset = 0) : Seated (channel.complete key send) packets := by
  have notWaiting : send.stage ≠ .waiting := fun waiting => nomatch waiting.symm.trans isReady
  rw [← List.append_nil packets]
  refine seated.move found notWaiting { send with stage := .done } rfl nofun ?_
    (fun alive _ written member same => ?_) (fun written member => absurd member List.not_mem_nil)
    (fun seats here _ => seated.same_progress seats here) ?_ rfl rfl rfl rfl id
  · by_cases alive : channel.Alive
    · exact .inl alive
    · exact .inr ⟨alive, nofun⟩
  · rw [List.append_nil] at member
    have begun := (writes.agrees key send found).begun written member same
    rw [unbegun alive] at begun
    exact absurd begun (Nat.lt_irrefl 0)
  · rw [List.append_nil]
    exact seated.roomy

/-- Abandoning a transfer frees it. -/
theorem abandon (writes : Writes codec channel packets) (seated : Seated channel packets)
    (found : channel.sends.lookup key = some send) (isReady : send.stage = .ready)
    (begun : send.offset ≠ 0) :
    Seated (channel.complete key send) (packets ++ [Writes.ofSend key send none]) := by
  have notWaiting : send.stage ≠ .waiting := fun waiting => nomatch waiting.symm.trans isReady
  have undone : send.stage ≠ .done := fun done => nomatch done.symm.trans isReady
  refine seated.move found notWaiting { send with stage := .done } rfl nofun ?_
    (fun _ _ _ _ _ => ⟨Writes.ofSend key send none, by simp, rfl, .inl rfl⟩)
    (fun written member => by rw [List.mem_singleton.mp member]; rfl) (fun seats here _ => ?_)
    (seated.roomy_snoc nofun) rfl rfl rfl rfl id
  · by_cases alive : channel.Alive
    · exact .inl alive
    · exact .inr ⟨alive, nofun⟩
  · obtain ⟨_, _, ⟨progress, tracked, _⟩, _⟩ := seated.seats
    have under := (writes.agrees key send found).tracked progress tracked undone
      (Nat.pos_of_ne_zero begun)
    have advanced : (Writes.ofSend key send none).advance progress =
        some (progress.erase send.transfer) := by
      refine if_pos ?_
      show (progress.lookup send.transfer).map Inflight.key = some key
      rw [under]
      rfl
    refine ⟨progress.erase send.transfer, ?_, fun id inflight isUnder =>
      here progress tracked id inflight (lookup_of_erase isUnder).2⟩
    rw [track_snoc, tracked]
    exact advanced

/-- A slice of a send that has a seat. -/
theorem advance (writes : Writes codec channel packets) (seated : Seated channel packets)
    (found : channel.sends.lookup key = some send) (isReady : send.stage = .ready) :
    Seated (channel.advance key send)
      (packets ++ [Writes.ofSend key send (some send.offset)]) := by
  have notWaiting : send.stage ≠ .waiting := fun waiting => nomatch waiting.symm.trans isReady
  have undone : send.stage ≠ .done := fun done => nomatch done.symm.trans isReady
  have agrees := writes.agrees key send found
  obtain ⟨seats, few, ⟨progress, tracked, isProgress⟩, ready, _⟩ := seated.seats
  have own := ready key send found isReady
  -- a transfer under way at the identifier would be the send's own, which has not begun
  have free : send.offset = 0 → progress.lookup send.transfer = none := by
    intro start
    cases taken : progress.lookup send.transfer with
    | none => rfl
    | some other =>
        have seat := isProgress send.transfer other taken
        have sameKey : other.key = key := Option.some.inj (seat.symm.trans own)
        obtain ⟨⟨written, member, isKey, _⟩, _⟩ := writes.orderly.origin tracked taken
        have begun := agrees.begun written member (isKey.trans sameKey)
        rw [start] at begun
        exact absurd begun (Nat.lt_irrefl 0)
  have advanced : (Writes.ofSend key send (some send.offset)).advance progress =
      some (progress.place send.transfer ⟨key, send.payload, send.offset⟩) := by
    refine if_pos ?_
    by_cases start : send.offset = 0
    · rw [if_pos start]
      exact free start
    · rw [if_neg start]
      exact agrees.tracked progress tracked undone (Nat.pos_of_ne_zero start)
  have onward : ∀ seats : HashMap UInt32 Nat, (∀ progress, track packets = some progress →
        ∀ id inflight, progress.lookup id = some inflight → seats.lookup id = some inflight.key) →
      (send.stage = .ready → seats.lookup send.transfer = some key) →
      ∃ progress, track (packets ++ [Writes.ofSend key send (some send.offset)]) = some progress ∧
        ∀ id inflight, progress.lookup id = some inflight → seats.lookup id = some inflight.key := by
    intro seats here seat
    refine ⟨progress.place send.transfer ⟨key, send.payload, send.offset⟩, ?_,
      fun id inflight under => ?_⟩
    · rw [track_snoc, tracked]
      exact advanced
    · rw [Progress.lookup_place] at under
      split at under
      · rename_i same
        split at under
        · cases under
        · obtain rfl := Option.some.inj under
          rw [same]
          exact seat isReady
      · exact here progress tracked id inflight under
  have room : (Writes.ofSend key send (some send.offset)).part = some 0 → ∀ other,
      track packets = some other → size other < maxInFlight := by
    intro first other isTracked
    rw [tracked] at isTracked
    obtain rfl := Option.some.inj isTracked
    have start : send.offset = 0 := Option.some.inj first
    have smaller : size progress ≤ size (seats.erase send.transfer) := by
      refine size_le_size fun id inside => AList.mem_erase.mpr ⟨?_, ?_⟩
      · rintro rfl
        exact AList.lookup_eq_none.mp (free start) inside
      · obtain ⟨inflight, under⟩ := Option.isSome_iff_exists.mp (AList.lookup_isSome.mpr inside)
        exact AList.lookup_isSome.mp (by rw [isProgress id inflight under]; rfl)
    have less := size_erase_lt (AList.lookup_isSome.mp (by rw [own]; rfl) : send.transfer ∈ seats)
    omega
  have aliveOr : ∀ stage : Stage, stage ≠ .ready →
      channel.Alive ∨ (¬ channel.Alive ∧ (stage = .ready → send.stage = .ready)) := by
    intro stage notReady
    by_cases alive : channel.Alive
    · exact .inl alive
    · exact .inr ⟨alive, fun isReady => absurd isReady notReady⟩
  have only : ∀ written ∈ [Writes.ofSend key send (some send.offset)], written.key = key :=
    fun written member => by
      rw [List.mem_singleton.mp member]
      rfl
  unfold Channel.advance
  dsimp only
  split
  · rename_i completes
    have finished : Seated (channel.complete key
        { send with offset := send.offset + (slice send.payload send.offset).length })
        (packets ++ [Writes.ofSend key send (some send.offset)]) := by
      refine seated.move found notWaiting { send with
          offset := send.offset + (slice send.payload send.offset).length, stage := .done }
        rfl nofun (aliveOr .done nofun) (fun _ _ _ _ _ =>
          ⟨Writes.ofSend key send (some send.offset), by simp, rfl, .inr ?_⟩) only onward
        (seated.roomy_snoc room) rfl rfl rfl rfl id
      exact ⟨send.offset, rfl, completes⟩
    obtain ⟨pending, marked⟩ := Channel.markSent_eq send.frame (channel.complete key
      { send with offset := send.offset + (slice send.payload send.offset).length })
    rw [marked]
    exact finished.of_eq rfl rfl rfl rfl id
  · exact seated.move found notWaiting { send with
        offset := send.offset + (slice send.payload send.offset).length, stage := .reserved }
      rfl nofun (aliveOr .reserved nofun) (fun _ stage => nomatch stage) only onward
      (seated.roomy_snoc room) rfl rfl rfl rfl id

theorem write (writes : Writes codec channel packets) (seated : Seated channel packets)
    {result : Channel × Option Written} (wrote : channel.write key = some result) :
    Seated result.1 (packets ++ result.2.toList) := by
  unfold Channel.write at wrote
  split at wrote
  · rename_i send found
    split at wrote
    · cases wrote
    · rename_i ready
      have isReady : send.stage = .ready := not_not.mp ready
      split at wrote
      · rename_i shut
        obtain rfl := Option.some.inj wrote
        rw [Option.toList_none, List.append_nil]
        exact finish writes seated found isReady fun alive => absurd alive.2 shut
      · split at wrote
        · obtain rfl := Option.some.inj wrote
          dsimp only [Channel.abandonment]
          split
          · rename_i unbegun
            rw [Option.toList_none, List.append_nil]
            exact finish writes seated found isReady fun _ => unbegun
          · rename_i begun
            exact abandon writes seated found isReady begun
        · obtain rfl := Option.some.inj wrote
          exact advance writes seated found isReady
  · cases wrote

/-- The last act of a send gives its seat back; nothing of it is under way. -/
theorem settle (writes : Writes codec channel packets) (seated : Seated channel packets)
    (settled : channel.settle key = some next) : Seated next packets := by
  unfold Channel.settle at settled
  split at settled
  · rename_i send found
    split at settled
    · rename_i isDone
      obtain rfl := Option.some.inj settled
      have notWaiting : send.stage ≠ .waiting := fun waiting => nomatch waiting.symm.trans isDone
      obtain ⟨last, placed, done, ⟨seats, few, ⟨progress, tracked, isProgress⟩, ready, isSeated,
        owned, reserved⟩, roomy⟩ := seated
      have isPlaced : ∀ other entry, (channel.sends.erase key).lookup other = some entry →
          entry.transfer = transferAt other ∧ other < channel.history.length :=
        fun other entry isEntry => placed other entry (lookup_of_erase isEntry).2
      by_cases alive : channel.Alive
      · have own := isSeated alive key send found notWaiting
        have elsewhere : ∀ id other, seats.lookup id = some other → other ≠ key →
            id ≠ send.transfer := by
          rintro id other isOther different rfl
          exact different (Option.some.inj (isOther.symm.trans own))
        refine ⟨last, isPlaced, fun _ other entry isEntry =>
          done alive other entry (lookup_of_erase isEntry).2, ⟨seats.erase send.transfer, ?_,
          ⟨progress, tracked, fun id inflight under => ?_⟩, fun other entry isEntry stage => ?_,
          fun _ other entry isEntry stage => ?_, fun _ id other isOwned => ?_, fun _ id => ?_⟩, roomy⟩
        · exact Nat.le_trans (size_le_size fun id inside => (AList.mem_erase.mp inside).2) few
        · have here := isProgress id inflight under
          have different : inflight.key ≠ key := by
            intro same
            obtain ⟨⟨written, member, sameKey, _⟩, unended⟩ := writes.orderly.origin tracked under
            obtain ⟨ending, inside, isKey, ends⟩ :=
              done alive key send found isDone written member (sameKey.trans same)
            exact unended ending inside (isKey.trans same.symm) ends
          rw [lookup_erase, if_neg (elsewhere id _ here different)]
          exact here
        · obtain ⟨different, isEntry⟩ := lookup_of_erase isEntry
          have here := ready other entry isEntry stage
          rw [lookup_erase, if_neg (elsewhere _ other here different)]
          exact here
        · obtain ⟨different, isEntry⟩ := lookup_of_erase isEntry
          have here := isSeated alive other entry isEntry stage
          rw [lookup_erase, if_neg (elsewhere _ other here different)]
          exact here
        · obtain ⟨different, isOwned⟩ := lookup_of_erase isOwned
          obtain ⟨entry, isEntry, stage, sameTransfer⟩ := owned alive id other isOwned
          refine ⟨entry, ?_, stage, sameTransfer⟩
          dsimp only
          rw [lookup_erase, if_neg fun same => ?_]
          · exact isEntry
          · rw [same, found] at isEntry
            obtain rfl := Option.some.inj isEntry
            exact different sameTransfer.symm
        · dsimp only
          rw [AList.mem_erase, AList.mem_erase, reserved alive id]
      · exact ⟨last, isPlaced, fun isAlive => absurd isAlive alive, ⟨seats, few,
          ⟨progress, tracked, isProgress⟩,
          fun other entry isEntry => ready other entry (lookup_of_erase isEntry).2,
          fun isAlive => absurd isAlive alive, fun isAlive => absurd isAlive alive,
          fun isAlive => absurd isAlive alive⟩, roomy⟩
    · cases settled
  · cases settled

end Seated

/-! ### Requests and replies -/

namespace Seated

variable {channel next : Channel} {packets : List Written} {id : String}

theorem abandonRequest (seated : Seated channel packets) {pending : Pending}
    (recent : (channel.abandon codec id pending).Recent) :
    Seated (channel.abandon codec id pending) packets := by
  refine sendFrame ?_ _ recent
  split
  · exact seated.of_eq rfl rfl rfl rfl fun alive => alive
  · exact seated.of_eq rfl rfl rfl rfl fun alive => alive

theorem request (seated : Seated channel packets) {identity : Identity} {call : Call}
    {aborted : Bool} (requested : channel.request codec identity id call aborted = some next)
    (recent : next.Recent) : Seated next packets := by
  unfold Channel.request at requested
  split at requested
  · cases requested
  dsimp only at requested
  split at requested
  · obtain rfl := Option.some.inj requested
    exact seated.of_eq rfl rfl rfl rfl fun alive => alive
  split at requested
  · obtain rfl := Option.some.inj requested
    exact seated.of_eq rfl rfl rfl rfl fun alive => alive
  split at requested
  · obtain rfl := Option.some.inj requested
    exact seated.of_eq rfl rfl rfl rfl fun alive => alive
  split at requested
  · obtain rfl := Option.some.inj requested
    refine abandonRequest ?_ recent
    exact seated.of_eq rfl rfl rfl rfl fun alive => alive
  · obtain rfl := Option.some.inj requested
    refine sendFrame ?_ _ recent
    exact seated.of_eq rfl rfl rfl rfl fun alive => alive

theorem timeOut (seated : Seated channel packets) (fired : channel.timeOut codec id = some next)
    (recent : next.Recent) : Seated next packets := by
  unfold Channel.timeOut at fired
  split at fired
  · split at fired
    · cases fired
    · obtain rfl := Option.some.inj fired
      refine sendFrame ?_ _ recent
      exact seated.of_eq rfl rfl rfl rfl fun alive => alive
  · cases fired

theorem pull (seated : Seated channel packets) (pulled : channel.pull codec id = some next)
    (recent : next.Recent) : Seated next packets := by
  unfold Channel.pull at pulled
  split at pulled
  · split at pulled
    · cases pulled
    split at pulled
    · obtain rfl := Option.some.inj pulled
      exact seated
    · obtain rfl := Option.some.inj pulled
      refine sendFrame ?_ _ recent
      exact seated.of_eq rfl rfl rfl rfl fun alive => alive
  · cases pulled

theorem cancel (seated : Seated channel packets) (cancelled : channel.cancel codec id = some next)
    (recent : next.Recent) : Seated next packets := by
  unfold Channel.cancel at cancelled
  split at cancelled
  · split at cancelled
    · obtain rfl := Option.some.inj cancelled
      refine sendFrame ?_ _ recent
      exact seated.of_eq rfl rfl rfl rfl fun alive => alive
    · cases cancelled
  · cases cancelled

theorem replied (seated : Seated channel packets) (replied : channel.Replied next) :
    Seated next packets := by
  obtain ⟨pending, outcomes, closed, rfl, shut⟩ := replied
  exact seated.of_eq rfl rfl rfl rfl fun alive => ⟨fun isShut => alive.1 (shut isShut), alive.2⟩

end Seated

/-! ### The link -/

namespace Link

variable {link next : Link}

/-- The packets and sends of a connection have their seats. -/
def IsSeated (link : Link) : Prop := Seated link.channel link.packets

/-- Every block keeps the seats if no send is as old as a turn before or after it. -/
theorem IsSeated.step {identity : Identity} (seated : link.IsSeated) (sound : link.Sound codec)
    (action : Action) (before : link.channel.Recent)
    (stepped : step codec identity link action = some next) (after : next.channel.Recent) :
    next.IsSeated := by
  cases action with
  | request id call aborted =>
      obtain ⟨channel, requested, rfl⟩ := Option.map_eq_some_iff.mp stepped
      exact Seated.request seated requested after
  | abort id =>
      obtain ⟨channel, aborted, rfl⟩ := Option.map_eq_some_iff.mp stepped
      obtain ⟨pending, _, rfl⟩ := Option.map_eq_some_iff.mp aborted
      exact Seated.abandonRequest seated after
  | timeOut id =>
      obtain ⟨channel, fired, rfl⟩ := Option.map_eq_some_iff.mp stepped
      exact Seated.timeOut seated fired after
  | pull id =>
      obtain ⟨channel, pulled, rfl⟩ := Option.map_eq_some_iff.mp stepped
      exact Seated.pull seated pulled after
  | cancel id =>
      obtain ⟨channel, cancelled, rfl⟩ := Option.map_eq_some_iff.mp stepped
      exact Seated.cancel seated cancelled after
  | admitNext key =>
      obtain ⟨channel, admitted, rfl⟩ := Option.map_eq_some_iff.mp stepped
      exact Seated.admitNext seated before admitted
  | capacity key =>
      obtain ⟨channel, passed, rfl⟩ := Option.map_eq_some_iff.mp stepped
      exact Seated.capacity seated passed
  | write key =>
      obtain ⟨written, wrote, rfl⟩ := Option.map_eq_some_iff.mp stepped
      have grown : (link.withWritten written).packets = link.packets ++ written.2.toList :=
        (List.append_assoc _ _ _).symm
      unfold IsSeated
      rw [grown]
      exact Seated.write sound.writes seated wrote
  | settle key =>
      obtain ⟨channel, settled, rfl⟩ := Option.map_eq_some_iff.mp stepped
      exact Seated.settle sound.writes seated settled
  | close =>
      obtain rfl := Option.some.inj stepped
      exact Seated.replied seated (link.channel.close_replied link.channel.pending)
  | disconnect =>
      obtain rfl := Option.some.inj stepped
      exact Seated.of_eq seated rfl rfl rfl rfl fun alive => nomatch alive.2
  | receive =>
      unfold Link.step at stepped
      dsimp only at stepped
      split at stepped
      · cases stepped
      · obtain rfl := Option.some.inj stepped
        exact Seated.replied seated (link.channel.receive_replied _)
  | read readings reserved full =>
      have read : link.readNext codec readings reserved full = some next := stepped
      unfold Link.readNext at read
      split at read
      · rename_i written rest wire running
        obtain ⟨⟨⟨decoder, other⟩, answer⟩, _, isNext⟩ := Option.bind_eq_some_iff.mp read
        obtain rfl := Option.some.inj isNext
        have packets := handle_packets
          (show (link.gaveUp readings decoder).wire = written :: rest from wire) full answer
        have channel : ((link.gaveUp readings decoder).handle written rest full answer).channel =
            link.channel := handle_channel full answer
        unfold IsSeated at seated ⊢
        unfold gaveUp at packets channel
        rw [packets, channel]
        exact seated
      · cases read
  | tick readings reserved =>
      have ticked : link.tick readings reserved = some next := stepped
      unfold Link.tick at ticked
      split at ticked
      · obtain ⟨_, _, isNext⟩ := Option.bind_eq_some_iff.mp ticked
        obtain rfl := Option.some.inj isNext
        exact seated
      · cases ticked
  | reply reply =>
      obtain rfl := Option.some.inj stepped
      exact seated

/-- No send stays unfinished in a run while a whole turn of others starts. -/
def Unhurried (codec : Codec Frame) (identity : Identity) (budget : ReassemblyBudget)
    (actions : List Action) : Prop :=
  ∀ before after link, actions = before ++ after →
    run codec identity budget before = some link → link.channel.Recent

theorem run_seated (lawful : codec.Lawful) {identity : Identity} {budget : ReassemblyBudget}
    {actions : List Action} (unhurried : Unhurried codec identity budget actions)
    (ran : run codec identity budget actions = some link) : link.IsSeated := by
  have recent : Steps.Throughout (step codec identity) (fun link action => link.channel.Recent ∧
      ∀ next, step codec identity link action = some next → next.channel.Recent)
      (initial budget) actions := by
    refine Steps.throughout_iff.mpr fun before action after middle split reached => ?_
    refine ⟨unhurried before (action :: after) middle split reached, fun next stepped => ?_⟩
    have extended : run codec identity budget (before ++ [action]) = some next :=
      Steps.execute_append.mpr ⟨middle, reached, Steps.execute_cons.mpr ⟨next, stepped, rfl⟩⟩
    exact unhurried (before ++ [action]) after next (by rw [split, List.append_cons]) extended
  have kept : ∀ (state : Link) action next, state.Sound codec ∧ state.IsSeated →
      (state.channel.Recent ∧ ∀ next, step codec identity state action = some next →
        next.channel.Recent) → step codec identity state action = some next →
      next.Sound codec ∧ next.IsSeated := fun state action next both recent stepped =>
    ⟨both.1.step lawful identity action stepped,
      both.2.step both.1 action recent.1 stepped (recent.2 next stepped)⟩
  exact (Steps.execute_invariant_where kept ⟨Sound.initial codec budget, Seated.initial⟩ recent ran).2

end Link

end Cairn.Protocol.DirectChannel

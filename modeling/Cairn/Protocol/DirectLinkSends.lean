import Cairn.Protocol.DirectLinkOrder

/-!
Owns why the packets a client writes are in order: every unfinished send agrees with
what it has written, whichever block of the channel runs next. `Link.Sound` puts this
together with the records of the reader and holds in every run.
-/

set_option autoImplicit false

namespace Cairn.Protocol.DirectChannel

open Cairn.Library Cairn.Library.HashMaps DataChannel

variable {codec : Codec Frame}

/-! ### Unfinished sends -/

/-- An unfinished send is one of an encoded frame that was given to the channel. -/
structure Send.Valid (codec : Codec Frame) (history : List Frame) (key : Nat) (send : Send) :
    Prop where
  recorded : history[key]? = some send.frame
  serialized : codec.serialize send.frame = some send.payload
  sized : send.payload.length ≤ maxFrame
  nonzero : send.transfer ≠ 0
  waiting : send.stage = .waiting → send.offset = 0
  within : send.stage ≠ .done → send.offset < send.payload.length

/-- An unfinished send agrees with the packets it has written. -/
structure Send.Agrees (packets : List Written) (key : Nat) (send : Send) : Prop where
  same : ∀ written ∈ packets, written.key = key → written.transfer = send.transfer ∧
    written.payload = send.payload ∧ written.frame = send.frame
  begun : ∀ written ∈ packets, written.key = key → 0 < send.offset
  unended : ∀ written ∈ packets, written.key = key → written.Ends → send.stage = .done
  tracked : ∀ progress, track packets = some progress → send.stage ≠ .done → 0 < send.offset →
    progress.lookup send.transfer = some ⟨key, send.payload, send.offset⟩

/-- The sends of a channel and the packets written on it. -/
structure Writes (codec : Codec Frame) (channel : Channel) (packets : List Written) : Prop where
  valid : ∀ key send, channel.sends.lookup key = some send → send.Valid codec channel.history key
  agrees : ∀ key send, channel.sends.lookup key = some send → send.Agrees packets key
  recorded : ∀ written ∈ packets, channel.history[written.key]? = some written.frame
  orderly : Orderly codec packets

theorem nextTransfer_ne_zero (transfer : UInt32) : nextTransfer transfer ≠ 0 := by
  unfold nextTransfer
  split
  · decide
  · assumption

/-- `sent` changes the requests that are waited for and nothing else. -/
theorem Channel.markSent_eq (frame : Frame) (channel : Channel) :
    ∃ pending, channel.markSent frame = { channel with pending := pending } := by
  unfold Channel.markSent
  split
  · exact ⟨channel.pending, rfl⟩
  · split
    · exact ⟨channel.pending, rfl⟩
    · exact ⟨_, rfl⟩

namespace Writes

variable {channel next : Channel} {packets : List Written} {key : Nat} {send : Send}

theorem initial (codec : Codec Frame) : Writes codec Channel.initial [] where
  valid := fun key send found => by simp [Channel.initial] at found
  agrees := fun key send found => by simp [Channel.initial] at found
  recorded := fun written member => absurd member List.not_mem_nil
  orderly := .nil

/-- Only the sends and the frames given to them matter. -/
theorem of_eq (writes : Writes codec channel packets) (sends : next.sends = channel.sends)
    (history : next.history = channel.history) : Writes codec next packets := by
  obtain ⟨valid, agrees, recorded, orderly⟩ := writes
  rw [← sends, ← history] at valid
  rw [← sends] at agrees
  rw [← history] at recorded
  exact ⟨valid, agrees, recorded, orderly⟩

/-- A send that is dropped. -/
theorem erase (writes : Writes codec channel packets) (sends : next.sends = channel.sends.erase key)
    (history : next.history = channel.history) : Writes codec next packets := by
  have earlier : ∀ other found, next.sends.lookup other = some found →
      channel.sends.lookup other = some found := by
    intro other found isFound
    rw [sends, lookup_erase] at isFound
    split at isFound
    · cases isFound
    · exact isFound
  refine ⟨fun other found isFound => ?_, fun other found isFound =>
    writes.agrees other found (earlier other found isFound), ?_, writes.orderly⟩
  · rw [history]
    exact writes.valid other found (earlier other found isFound)
  · rw [history]
    exact writes.recorded

/-- A send that goes on to another stage; it is not done yet. -/
theorem stage (writes : Writes codec channel packets)
    (found : channel.sends.lookup key = some send) (unfinished : send.stage ≠ .done) (stage : Stage)
    (later : stage ≠ .waiting) (sends : next.sends = channel.sends.insert key { send with stage := stage })
    (history : next.history = channel.history) : Writes codec next packets := by
  have valid := writes.valid key send found
  have agrees := writes.agrees key send found
  refine ⟨fun other entry isEntry => ?_, fun other entry isEntry => ?_, ?_, writes.orderly⟩
  · rw [history]
    rw [sends, lookup_insert] at isEntry
    split at isEntry
    · rename_i same
      obtain rfl := Option.some.inj isEntry
      rw [same]
      exact ⟨valid.recorded, valid.serialized, valid.sized, valid.nonzero,
        fun waiting => absurd waiting later, fun _ => valid.within unfinished⟩
    · exact writes.valid other entry isEntry
  · rw [sends, lookup_insert] at isEntry
    split at isEntry
    · rename_i same
      obtain rfl := Option.some.inj isEntry
      rw [same]
      exact ⟨agrees.same, agrees.begun,
        fun written member sameKey ends =>
          absurd (agrees.unended written member sameKey ends) unfinished,
        fun progress tracked _ => agrees.tracked progress tracked unfinished⟩
    · exact writes.agrees other entry isEntry
  · rw [history]
    exact writes.recorded

/-- The first step of a send, and of one that is woken. -/
theorem reserve (writes : Writes codec channel packets)
    (found : channel.sends.lookup key = some send) (unfinished : send.stage ≠ .done) :
    Writes codec (channel.reserve key send) packets := by
  unfold Channel.reserve
  split
  · split
    · exact writes.erase rfl rfl
    · exact writes
  · exact writes.stage found unfinished .reserved (by decide) rfl rfl

/-- A send that starts. -/
theorem start (lawful : codec.Lawful) (writes : Writes codec channel packets) {frame : Frame}
    {payload : Bytes} (serialized : codec.serialize frame = some payload)
    (sized : payload.length ≤ maxFrame) {transfer : UInt32} (nonzero : transfer ≠ 0)
    (sends : next.sends = channel.sends.insert channel.history.length
      ⟨frame, transfer, payload, 0, .waiting⟩)
    (history : next.history = channel.history ++ [frame]) : Writes codec next packets := by
  have positive := List.length_pos_of_ne_nil (lawful.nonempty _ _ serialized)
  have earlier : ∀ written ∈ packets, written.key < channel.history.length := fun written member =>
    (List.getElem?_eq_some_iff.mp (writes.recorded written member)).1
  have extended : ∀ {key : Nat} {frame : Frame}, channel.history[key]? = some frame →
      next.history[key]? = some frame := by
    intro key frame found
    rw [history, List.getElem?_append_left (List.getElem?_eq_some_iff.mp found).1]
    exact found
  refine ⟨fun other entry isEntry => ?_, fun other entry isEntry => ?_,
    fun written member => extended (writes.recorded written member), writes.orderly⟩
  · rw [sends, lookup_insert] at isEntry
    split at isEntry
    · rename_i same
      obtain rfl := Option.some.inj isEntry
      refine ⟨?_, serialized, sized, nonzero, fun _ => rfl, fun _ => positive⟩
      rw [history, same]
      simp
    · have valid := writes.valid other entry isEntry
      exact ⟨extended valid.recorded, valid.serialized, valid.sized, valid.nonzero, valid.waiting,
        valid.within⟩
  · rw [sends, lookup_insert] at isEntry
    split at isEntry
    · rename_i same
      obtain rfl := Option.some.inj isEntry
      have unwritten : ∀ written ∈ packets, written.key ≠ other := fun written member =>
        Nat.ne_of_lt (same ▸ earlier written member)
      exact ⟨fun written member sameKey => absurd sameKey (unwritten written member),
        fun written member sameKey => absurd sameKey (unwritten written member),
        fun written member sameKey => absurd sameKey (unwritten written member),
        fun _ _ _ begun => absurd begun (Nat.lt_irrefl 0)⟩
    · exact writes.agrees other entry isEntry

theorem sendFrame (lawful : codec.Lawful) (writes : Writes codec channel packets) (frame : Frame) :
    Writes codec (channel.send codec frame) packets := by
  unfold Channel.send
  split
  · exact writes
  · rename_i payload serialized
    split
    · exact writes
    · rename_i sized
      refine reserve (writes.start lawful serialized (Nat.not_lt.mp sized)
        (nextTransfer_ne_zero channel.transfer) rfl rfl) (AList.lookup_insert _) ?_
      exact fun done => nomatch done

/-! ### Writing a packet -/

/-- The packet of a send, without its part. -/
def ofSend (key : Nat) (send : Send) (part : Option Nat) : Written :=
  ⟨key, send.frame, send.transfer, send.payload, part⟩

/-- A packet of an unfinished send fits: its next slice, or nothing once it has begun. -/
theorem fits (writes : Writes codec channel packets)
    (found : channel.sends.lookup key = some send) (unfinished : send.stage ≠ .done)
    {part : Option Nat}
    (isPart : part = some send.offset ∨ (part = none ∧ send.offset ≠ 0)) :
    Fits packets (ofSend key send part) := by
  have agrees := writes.agrees key send found
  refine ⟨agrees.same, fun earlier member same ended => ?_, fun first earlier member same => ?_,
    fun progress tracked => ?_⟩
  · exact unfinished (agrees.unended earlier member same ended)
  · have begun := agrees.begun earlier member same
    have start : part = some 0 := first
    rcases isPart with isOffset | ⟨isNone, _⟩
    · rw [start] at isOffset
      have zero := Option.some.inj isOffset
      omega
    · rw [isNone] at start
      cases start
  · by_cases start : send.offset = 0
    · have isPart := isPart.resolve_right fun abandoned => abandoned.2 start
      rw [start] at isPart
      cases taken : progress.lookup send.transfer with
      | some other => exact .inr ⟨isPart, other, taken⟩
      | none =>
          left
          subst isPart
          exact ⟨progress.place send.transfer ⟨key, send.payload, 0⟩, if_pos taken⟩
    · left
      have under := agrees.tracked progress tracked unfinished (Nat.pos_of_ne_zero start)
      rcases isPart with rfl | ⟨rfl, _⟩
      · refine ⟨progress.place send.transfer ⟨key, send.payload, send.offset⟩, if_pos ?_⟩
        rw [if_neg start]
        exact under
      · refine ⟨progress.erase send.transfer, if_pos ?_⟩
        show (progress.lookup send.transfer).map Inflight.key = some key
        rw [under]
        rfl

/-- A packet in order finds its transfer free or under way for its own send. -/
theorem own_or_free {written : Written} {progress after : Progress}
    (advanced : written.advance progress = some after) {inflight : Inflight}
    (found : progress.lookup written.transfer = some inflight) : inflight.key = written.key := by
  cases part : written.part with
  | none =>
      obtain ⟨⟨own, isOwn, same⟩, _⟩ := Written.advance_none part advanced
      obtain rfl := Option.some.inj (isOwn.symm.trans found)
      exact same
  | some offset =>
      obtain ⟨known, _⟩ := Written.advance_some part advanced
      rw [found] at known
      split at known
      · cases known
      · exact congrArg Inflight.key (Option.some.inj known)

/-- A packet is written and its send goes on or is done. -/
theorem append (writes : Writes codec channel packets)
    (found : channel.sends.lookup key = some send) (unfinished : send.stage ≠ .done)
    {part : Option Nat}
    (isPart : part = some send.offset ∨ (part = none ∧ send.offset ≠ 0))
    (offset : Nat) (stage : Stage) (begun : 0 < offset) (notWaiting : stage ≠ .waiting)
    (ended : (ofSend key send part).Ends → stage = .done)
    (within : stage ≠ .done → offset < send.payload.length)
    (tracked : ∀ progress after, (ofSend key send part).advance progress = some after →
      stage ≠ .done → after.lookup send.transfer = some ⟨key, send.payload, offset⟩)
    (sends : next.sends =
      channel.sends.insert key { send with offset := offset, stage := stage })
    (history : next.history = channel.history) :
    Writes codec next (packets ++ [ofSend key send part]) := by
  have valid := writes.valid key send found
  have agrees := writes.agrees key send found
  have fits := writes.fits found unfinished isPart
  have isWritten : (ofSend key send part).Valid codec := by
    refine ⟨valid.serialized, valid.sized, valid.nonzero, fun other isOther => ?_⟩
    rcases isPart with rfl | ⟨rfl, _⟩
    · obtain rfl := Option.some.inj isOther
      exact valid.within unfinished
    · cases isOther
  refine ⟨fun other entry isEntry => ?_, fun other entry isEntry => ?_, fun written member => ?_,
    .snoc writes.orderly isWritten fits⟩
  · rw [history]
    rw [sends, lookup_insert] at isEntry
    split at isEntry
    · rename_i same
      obtain rfl := Option.some.inj isEntry
      rw [same]
      exact ⟨valid.recorded, valid.serialized, valid.sized, valid.nonzero,
        fun waiting => absurd waiting notWaiting, within⟩
    · exact writes.valid other entry isEntry
  · rw [sends, lookup_insert] at isEntry
    split at isEntry
    · rename_i same
      obtain rfl := Option.some.inj isEntry
      rw [same]
      refine ⟨fun written member sameKey => ?_, fun _ _ _ => begun, fun written member sameKey ends => ?_,
        fun progress trackedAfter undone _ => ?_⟩
      · rcases List.mem_append.mp member with earlier | isLast
        · exact agrees.same written earlier sameKey
        · rw [List.mem_singleton.mp isLast]
          exact ⟨rfl, rfl, rfl⟩
      · rcases List.mem_append.mp member with earlier | isLast
        · exact absurd (agrees.unended written earlier sameKey ends) unfinished
        · rw [List.mem_singleton.mp isLast] at ends
          exact ended ends
      · obtain ⟨progress', _, advanced⟩ := track_snoc_eq_some trackedAfter
        exact tracked progress' progress advanced undone
    · rename_i different
      have others := writes.agrees other entry isEntry
      refine ⟨fun written member sameKey => ?_, fun written member sameKey => ?_,
        fun written member sameKey => ?_, fun progress trackedAfter undone otherBegun => ?_⟩
      · rcases List.mem_append.mp member with earlier | isLast
        · exact others.same written earlier sameKey
        · rw [List.mem_singleton.mp isLast] at sameKey
          exact absurd sameKey.symm different
      · rcases List.mem_append.mp member with earlier | isLast
        · exact others.begun written earlier sameKey
        · rw [List.mem_singleton.mp isLast] at sameKey
          exact absurd sameKey.symm different
      · rcases List.mem_append.mp member with earlier | isLast
        · exact others.unended written earlier sameKey
        · rw [List.mem_singleton.mp isLast] at sameKey
          exact absurd sameKey.symm different
      · obtain ⟨earlier, trackedBefore, advanced⟩ := track_snoc_eq_some trackedAfter
        have under := others.tracked earlier trackedBefore undone otherBegun
        have elsewhere : entry.transfer ≠ send.transfer := fun same => by
          rw [same] at under
          exact different (own_or_free advanced under)
        rw [Written.advance_elsewhere advanced elsewhere]
        exact under
  · rw [history]
    rcases List.mem_append.mp member with earlier | isLast
    · exact writes.recorded written earlier
    · rw [List.mem_singleton.mp isLast]
      exact valid.recorded

/-- A send whose transfer is abandoned. -/
theorem abandon (writes : Writes codec channel packets)
    (found : channel.sends.lookup key = some send) (unfinished : send.stage ≠ .done) :
    Writes codec (channel.complete key send)
      (packets ++ (Channel.abandonment key send).toList) := by
  unfold Channel.abandonment
  split
  · rw [Option.toList_none, List.append_nil]
    exact writes.stage found unfinished .done (by decide) rfl rfl
  · rename_i begun
    refine writes.append found unfinished (.inr ⟨rfl, begun⟩) send.offset .done
      (Nat.pos_of_ne_zero begun) (by decide) (fun _ => rfl)
      (fun undone => absurd rfl undone) (fun _ _ _ undone => absurd rfl undone) rfl rfl

/-- A send that writes its next slice. -/
theorem advance (writes : Writes codec channel packets)
    (found : channel.sends.lookup key = some send) (unfinished : send.stage ≠ .done) :
    Writes codec (channel.advance key send)
      (packets ++ [ofSend key send (some send.offset)]) := by
  have within := (writes.valid key send found).within unfinished
  have grows := slice_length_pos within
  have stays := slice_within (Nat.le_of_lt within)
  have whole : (ofSend key send (some send.offset)).Completes ↔
      DataChannel.Completes send.payload send.offset := Written.completes_iff rfl
  unfold Channel.advance
  dsimp only
  split
  · rename_i completes
    have done : Writes codec (channel.complete key
        { send with offset := send.offset + (slice send.payload send.offset).length })
        (packets ++ [ofSend key send (some send.offset)]) :=
      writes.append found unfinished (.inl rfl) _ .done (Nat.lt_add_left _ grows) (by decide)
        (fun _ => rfl) (fun undone => absurd rfl undone) (fun _ _ _ undone => absurd rfl undone)
        rfl rfl
    obtain ⟨pending, marked⟩ := Channel.markSent_eq send.frame (channel.complete key
      { send with offset := send.offset + (slice send.payload send.offset).length })
    rw [marked]
    exact done.of_eq rfl rfl
  · rename_i incomplete
    have below : send.offset + (slice send.payload send.offset).length < send.payload.length :=
      Nat.lt_of_le_of_ne stays incomplete
    refine writes.append found unfinished (.inl rfl) _ .reserved (Nat.lt_add_left _ grows)
      (by decide) ?_ (fun _ => below) (fun progress after advanced _ => ?_) rfl rfl
    · rintro (none | completes)
      · cases none
      · exact absurd (whole.mp completes) incomplete
    · have part : (ofSend key send (some send.offset)).part = some send.offset := rfl
      obtain ⟨_, rfl⟩ := Written.advance_some part advanced
      have own : (ofSend key send (some send.offset)).transfer = send.transfer := rfl
      rw [own, Progress.lookup_place, if_pos rfl]
      exact if_neg incomplete

theorem write (writes : Writes codec channel packets) {result : Channel × Option Written}
    (wrote : channel.write key = some result) :
    Writes codec result.1 (packets ++ result.2.toList) := by
  unfold Channel.write at wrote
  split at wrote
  · rename_i send found
    split at wrote
    · cases wrote
    · rename_i ready
      have unfinished : send.stage ≠ .done := fun done => by
        rw [done] at ready
        exact ready (by decide)
      split at wrote
      · obtain rfl := Option.some.inj wrote
        rw [Option.toList_none, List.append_nil]
        exact writes.stage found unfinished .done (by decide) rfl rfl
      · split at wrote
        · obtain rfl := Option.some.inj wrote
          exact writes.abandon found unfinished
        · obtain rfl := Option.some.inj wrote
          exact writes.advance found unfinished
  · cases wrote

/-! ### The other blocks -/

theorem admitNext (writes : Writes codec channel packets) (admitted : channel.admitNext key = some next) :
    Writes codec next packets := by
  unfold Channel.admitNext at admitted
  split at admitted
  · rename_i send found
    split at admitted
    · rename_i waiting
      obtain rfl := Option.some.inj admitted
      exact writes.reserve found fun done => nomatch done.symm.trans waiting
    · cases admitted
  · cases admitted

theorem capacity (writes : Writes codec channel packets)
    (passed : channel.capacity key = some next) : Writes codec next packets := by
  unfold Channel.capacity at passed
  split at passed
  · rename_i send found
    split at passed
    · rename_i reserved
      have unfinished : send.stage ≠ .done := fun done => nomatch done.symm.trans reserved
      split at passed
      · obtain rfl := Option.some.inj passed
        exact writes.stage found unfinished .done (by decide) rfl rfl
      · obtain rfl := Option.some.inj passed
        exact writes.stage found unfinished .ready (by decide) rfl rfl
    · cases passed
  · cases passed

theorem settle (writes : Writes codec channel packets) (settled : channel.settle key = some next) :
    Writes codec next packets := by
  unfold Channel.settle at settled
  split at settled
  · split at settled
    · obtain rfl := Option.some.inj settled
      exact writes.erase rfl rfl
    · cases settled
  · cases settled

theorem close (writes : Writes codec channel packets) : Writes codec channel.close packets := by
  unfold Channel.close
  split
  · exact writes
  · exact writes.of_eq rfl rfl

theorem abandonRequest (lawful : codec.Lawful) (writes : Writes codec channel packets) (id : String)
    (pending : Pending) : Writes codec (channel.abandon codec id pending) packets := by
  unfold Channel.abandon
  dsimp only
  split
  · refine sendFrame lawful ?_ _
    exact writes.of_eq rfl rfl
  · refine sendFrame lawful ?_ _
    exact writes.of_eq rfl rfl

theorem request (lawful : codec.Lawful) (writes : Writes codec channel packets)
    {identity : Identity} {id : String} {call : Call} {aborted : Bool}
    (requested : channel.request codec identity id call aborted = some next) :
    Writes codec next packets := by
  unfold Channel.request at requested
  split at requested
  · cases requested
  · dsimp only at requested
    split at requested
    · obtain rfl := Option.some.inj requested
      exact writes.of_eq rfl rfl
    split at requested
    · obtain rfl := Option.some.inj requested
      exact writes.of_eq rfl rfl
    split at requested
    · obtain rfl := Option.some.inj requested
      exact writes.of_eq rfl rfl
    split at requested
    · obtain rfl := Option.some.inj requested
      refine abandonRequest lawful ?_ _ _
      exact writes.of_eq rfl rfl
    · obtain rfl := Option.some.inj requested
      refine sendFrame lawful ?_ _
      exact writes.of_eq rfl rfl

theorem abort (lawful : codec.Lawful) (writes : Writes codec channel packets) {id : String}
    (aborted : channel.abort codec id = some next) : Writes codec next packets := by
  obtain ⟨pending, _, rfl⟩ := Option.map_eq_some_iff.mp aborted
  exact writes.abandonRequest lawful _ _

theorem timeOut (lawful : codec.Lawful) (writes : Writes codec channel packets) {id : String}
    (fired : channel.timeOut codec id = some next) : Writes codec next packets := by
  unfold Channel.timeOut at fired
  split at fired
  · split at fired
    · cases fired
    · obtain rfl := Option.some.inj fired
      refine sendFrame lawful ?_ _
      exact writes.of_eq rfl rfl
  · cases fired

theorem pull (lawful : codec.Lawful) (writes : Writes codec channel packets) {id : String}
    (pulled : channel.pull codec id = some next) : Writes codec next packets := by
  unfold Channel.pull at pulled
  split at pulled
  · split at pulled
    · cases pulled
    split at pulled
    · obtain rfl := Option.some.inj pulled
      exact writes
    · obtain rfl := Option.some.inj pulled
      refine sendFrame lawful ?_ _
      exact writes.of_eq rfl rfl
  · cases pulled

theorem cancel (lawful : codec.Lawful) (writes : Writes codec channel packets) {id : String}
    (cancelled : channel.cancel codec id = some next) : Writes codec next packets := by
  unfold Channel.cancel at cancelled
  split at cancelled
  · split at cancelled
    · obtain rfl := Option.some.inj cancelled
      refine sendFrame lawful ?_ _
      exact writes.of_eq rfl rfl
    · cases cancelled
  · cases cancelled

end Writes

/-! ### Replies -/

/-- A channel that differs in its requests and promises, and that may have closed. -/
def Channel.Replied (channel next : Channel) : Prop :=
  ∃ pending outcomes closed, next = { channel with
    pending := pending, outcomes := outcomes, closed := closed } ∧
      (channel.closed = true → closed = true)

theorem Channel.close_replied (pending : HashMap String Pending) (channel : Channel) :
    channel.Replied { channel with pending := pending }.close := by
  unfold Channel.close
  split
  · exact ⟨pending, channel.outcomes, channel.closed, rfl, fun shut => shut⟩
  · exact ⟨∅, _, true, rfl, fun _ => rfl⟩

/-- A reply touches only the requests that are waited for. -/
theorem Channel.receive_replied (reply : Reply) (channel : Channel) :
    channel.Replied (channel.receive reply) := by
  unfold Channel.receive
  cases dispatched : channel.dispatch reply with
  | none => exact channel.close_replied channel.pending
  | some next =>
      rw [Option.getD_some]
      unfold Channel.dispatch at dispatched
      cases reply with
      | response id status headers accepted =>
          dsimp only at dispatched
          split at dispatched
          · obtain rfl := Option.some.inj dispatched
            exact ⟨_, _, _, rfl, fun shut => shut⟩
          · split at dispatched
            · cases dispatched
            · split at dispatched <;>
              · obtain rfl := Option.some.inj dispatched
                exact ⟨_, _, _, rfl, fun shut => shut⟩
      | streamStart id status headers =>
          dsimp only at dispatched
          split at dispatched
          · obtain rfl := Option.some.inj dispatched
            exact ⟨_, _, _, rfl, fun shut => shut⟩
          · split at dispatched
            · cases dispatched
            · obtain rfl := Option.some.inj dispatched
              exact ⟨_, _, _, rfl, fun shut => shut⟩
      | streamChunk id accepted =>
          dsimp only at dispatched
          split at dispatched
          · obtain rfl := Option.some.inj dispatched
            exact ⟨_, _, _, rfl, fun shut => shut⟩
          · split at dispatched
            · cases dispatched
            · split at dispatched
              · obtain rfl := Option.some.inj dispatched
                exact ⟨_, _, _, rfl, fun shut => shut⟩
              · obtain rfl := Option.some.inj dispatched
                exact channel.close_replied _
      | streamEnd id failed =>
          dsimp only at dispatched
          split at dispatched
          · obtain rfl := Option.some.inj dispatched
            exact ⟨_, _, _, rfl, fun shut => shut⟩
          · split at dispatched
            · obtain rfl := Option.some.inj dispatched
              exact ⟨_, _, _, rfl, fun shut => shut⟩
            · cases dispatched

theorem Writes.replied {channel next : Channel} {packets : List Written}
    (writes : Writes codec channel packets) (replied : channel.Replied next) :
    Writes codec next packets := by
  obtain ⟨pending, outcomes, closed, rfl, _⟩ := replied
  exact writes.of_eq rfl rfl

/-! ### The link -/

namespace Link

/-- What every run of a connection keeps. -/
structure Sound (codec : Codec Frame) (link : Link) : Prop where
  writes : Writes codec link.channel link.packets
  recorded : link.Recorded
  following : link.Following

variable {link next : Link}

theorem Sound.initial (codec : Codec Frame) (budget : ReassemblyBudget) :
    (initial budget).Sound codec where
  writes := .initial codec
  recorded := by
    refine ⟨nofun, nofun, nofun, List.nodup_nil, fun key isLost => ?_, List.Sublist.refl _⟩
    rcases isLost with inside | inside <;> cases inside
  following := fun _ => ⟨∅, rfl, .initial _ budget⟩

/-- A block of the client that writes nothing. -/
theorem Sound.withChannel (sound : link.Sound codec) {channel : Channel}
    (writes : Writes codec channel link.packets) : (link.withChannel channel).Sound codec where
  writes := writes
  recorded := ⟨sound.recorded.complete, sound.recorded.origin, sound.recorded.kept,
    sound.recorded.once, sound.recorded.known, sound.recorded.handed⟩
  following := sound.following

/-- Replies are no concern of the packets. -/
theorem Sound.withReplies (sound : link.Sound codec) (replies : List Reply) :
    { link with replies := replies }.Sound codec where
  writes := sound.writes
  recorded := ⟨sound.recorded.complete, sound.recorded.origin, sound.recorded.kept,
    sound.recorded.once, sound.recorded.known, sound.recorded.handed⟩
  following := sound.following

theorem Sound.withWritten (sound : link.Sound codec) {written : Channel × Option Written}
    (writes : Writes codec written.1 (link.packets ++ written.2.toList)) :
    (link.withWritten written).Sound codec where
  writes := by
    unfold packets at writes
    rw [List.append_assoc] at writes
    exact writes
  recorded := ⟨sound.recorded.complete, sound.recorded.origin, sound.recorded.kept,
    sound.recorded.once, sound.recorded.known, sound.recorded.handed⟩
  following := sound.following

/-- The packets written so far, whatever the reader makes of the next one. -/
theorem handle_packets {written : Written} {rest : List Written} (wire : link.wire = written :: rest)
    (full : Bool) (answer : Except DecodeError (Option Frame)) :
    (link.handle written rest full answer).packets = link.packets := by
  have moved : link.read ++ [written] ++ rest = link.packets := by
    unfold packets
    rw [wire, ← List.append_cons]
  unfold handle
  split
  · exact moved
  · split <;> exact moved
  · rfl
  · exact moved
  · rfl

theorem handle_channel {written : Written} {rest : List Written} (full : Bool)
    (answer : Except DecodeError (Option Frame)) :
    (link.handle written rest full answer).channel = link.channel := by
  unfold handle
  split
  · rfl
  · split <;> rfl
  · rfl
  · rfl
  · rfl

theorem Sound.tick (sound : link.Sound codec) {readings : Readings} {reserved : Reservations}
    (ticked : link.tick readings reserved = some next) : next.Sound codec := by
  have orderly : Orderly codec link.read := sound.writes.orderly.of_append
  unfold Link.tick at ticked
  split at ticked
  · rename_i running
    obtain ⟨⟨decoder, after⟩, expired, isNext⟩ := Option.bind_eq_some_iff.mp ticked
    obtain rfl := Option.some.inj isNext
    obtain ⟨progress, tracked, follows⟩ := sound.following running
    refine ⟨sound.writes, sound.recorded.gaveUp readings orderly tracked decoder, fun _ => ?_⟩
    refine ⟨progress, tracked, ?_⟩
    have lost := lost_gaveUp readings tracked decoder
    have after := follows.expire (orderly.apart tracked) expired
    rw [← lost] at after
    exact after
  · cases ticked

/-- What the reader does with the next packet: the answer of its decoder and what follows. -/
theorem Sound.answered (lawful : codec.Lawful) (sound : link.Sound codec) {readings : Readings}
    {reserved : Reservations} {full : Bool}
    (read : link.readNext codec readings reserved full = some next) :
    ∃ written rest decoder answer progress, link.wire = written :: rest ∧
      Orderly codec (link.read ++ [written]) ∧ track link.read = some progress ∧
      Answered codec (link.gaveUp readings decoder).Lost progress written decoder answer ∧
      next = (link.gaveUp readings decoder).handle written rest full answer := by
  unfold Link.readNext at read
  split at read
  · rename_i written rest wire running
    obtain ⟨⟨⟨decoder, after⟩, answer⟩, pushed, isNext⟩ := Option.bind_eq_some_iff.mp read
    have whole : Orderly codec (link.read ++ [written]) := by
      have orderly := sound.writes.orderly
      unfold packets at orderly
      rw [wire] at orderly
      exact orderly.head
    obtain ⟨progress, tracked, follows⟩ := sound.following running
    have answered := pushed_answered lawful whole tracked follows sound.recorded.known pushed
    rw [← lost_gaveUp readings tracked decoder] at answered
    exact ⟨written, rest, decoder, answer, progress, wire, whole, tracked, answered,
      (Option.some.inj isNext).symm⟩
  · cases read

/-- The reader takes the next packet: its records stay true and it follows on. -/
theorem Sound.readNext (lawful : codec.Lawful) (sound : link.Sound codec) {readings : Readings}
    {reserved : Reservations} {full : Bool}
    (read : link.readNext codec readings reserved full = some next) : next.Sound codec := by
  obtain ⟨written, rest, decoder, answer, progress, wire, whole, tracked, answered, rfl⟩ :=
    sound.answered lawful read
  have recorded := sound.recorded.gaveUp readings whole.of_append tracked decoder
  have packetsKept : ((link.gaveUp readings decoder).handle written rest full answer).packets =
      link.packets :=
    handle_packets (show (link.gaveUp readings decoder).wire = written :: rest from wire) full answer
  have channelKept : ((link.gaveUp readings decoder).handle written rest full answer).channel =
      link.channel := handle_channel full answer
  refine ⟨?_, recorded.handle whole answered, handle_following tracked rfl answered⟩
  have writes := sound.writes
  rw [← packetsKept, ← channelKept] at writes
  exact writes

/-- Every block keeps a connection sound. -/
theorem Sound.step (lawful : codec.Lawful) (identity : Identity) (sound : link.Sound codec)
    (action : Action) (stepped : step codec identity link action = some next) :
    next.Sound codec := by
  cases action with
  | request id call aborted =>
      obtain ⟨channel, requested, rfl⟩ := Option.map_eq_some_iff.mp stepped
      exact sound.withChannel (sound.writes.request lawful requested)
  | abort id =>
      obtain ⟨channel, aborted, rfl⟩ := Option.map_eq_some_iff.mp stepped
      exact sound.withChannel (sound.writes.abort lawful aborted)
  | timeOut id =>
      obtain ⟨channel, fired, rfl⟩ := Option.map_eq_some_iff.mp stepped
      exact sound.withChannel (sound.writes.timeOut lawful fired)
  | pull id =>
      obtain ⟨channel, pulled, rfl⟩ := Option.map_eq_some_iff.mp stepped
      exact sound.withChannel (sound.writes.pull lawful pulled)
  | cancel id =>
      obtain ⟨channel, cancelled, rfl⟩ := Option.map_eq_some_iff.mp stepped
      exact sound.withChannel (sound.writes.cancel lawful cancelled)
  | admitNext key =>
      obtain ⟨channel, admitted, rfl⟩ := Option.map_eq_some_iff.mp stepped
      exact sound.withChannel (sound.writes.admitNext admitted)
  | capacity key =>
      obtain ⟨channel, passed, rfl⟩ := Option.map_eq_some_iff.mp stepped
      exact sound.withChannel (sound.writes.capacity passed)
  | write key =>
      obtain ⟨written, wrote, rfl⟩ := Option.map_eq_some_iff.mp stepped
      exact sound.withWritten (sound.writes.write wrote)
  | settle key =>
      obtain ⟨channel, settled, rfl⟩ := Option.map_eq_some_iff.mp stepped
      exact sound.withChannel (sound.writes.settle settled)
  | close =>
      obtain rfl := Option.some.inj stepped
      exact sound.withChannel sound.writes.close
  | disconnect =>
      obtain rfl := Option.some.inj stepped
      exact sound.withChannel (sound.writes.of_eq rfl rfl)
  | receive =>
      unfold Link.step at stepped
      dsimp only at stepped
      split at stepped
      · cases stepped
      · rename_i reply rest _
        obtain rfl := Option.some.inj stepped
        have replied := link.channel.receive_replied reply
        exact (sound.withChannel (sound.writes.replied replied)).withReplies rest
  | read readings reserved full => exact sound.readNext lawful stepped
  | tick readings reserved => exact sound.tick stepped
  | reply reply =>
      obtain rfl := Option.some.inj stepped
      exact sound.withReplies _

end Link

end Cairn.Protocol.DirectChannel

import Cairn.Library.Lists
import Cairn.Protocol.DirectLink
import Cairn.Protocol.Transfers
import Mathlib.Data.List.Induction

/-!
Owns the order of the packets on one direct connection and what the reader makes of
it: if every packet continues its own send, the decoder follows the transfers under
way, and each send that was written completely is emitted once or lost for good.
A first packet under an identifier that is still under way ends the reader; nothing
here excludes one.

Does not own why the client writes in this order.
-/

set_option autoImplicit false

namespace Cairn.Protocol.DirectChannel

open Cairn.Library.HashMaps Cairn.Library.Lists DataChannel

variable {codec : Codec Frame}

/-! ### Order -/

/-- A packet is one of a payload that was encoded. -/
structure Written.Valid (codec : Codec Frame) (written : Written) : Prop where
  serialized : codec.serialize written.frame = some written.payload
  sized : written.payload.length ≤ maxFrame
  nonzero : written.transfer ≠ 0
  within : ∀ offset, written.part = some offset → offset < written.payload.length

/-- A packet continues its send, or begins one under an identifier that is taken. -/
structure Fits (before : List Written) (written : Written) : Prop where
  same : ∀ earlier ∈ before, earlier.key = written.key →
    earlier.transfer = written.transfer ∧ earlier.payload = written.payload ∧
      earlier.frame = written.frame
  unended : ∀ earlier ∈ before, earlier.key = written.key → ¬ earlier.Ends
  begins : written.part = some 0 → ∀ earlier ∈ before, earlier.key ≠ written.key
  continues : ∀ progress, track before = some progress →
    (∃ next, written.advance progress = some next) ∨
      (written.part = some 0 ∧ ∃ other, progress.lookup written.transfer = some other)

/-- Every packet continues what was written before it. -/
inductive Orderly (codec : Codec Frame) : List Written → Prop
  | nil : Orderly codec []
  | snoc {before : List Written} {written : Written} (orderly : Orderly codec before)
      (valid : written.Valid codec) (fits : Fits before written) :
      Orderly codec (before ++ [written])

namespace Orderly

variable {before after packets : List Written} {written : Written}

theorem of_snoc (orderly : Orderly codec (before ++ [written])) :
    Orderly codec before ∧ written.Valid codec ∧ Fits before written := by
  generalize whole : before ++ [written] = packets at orderly
  cases orderly with
  | nil => simp at whole
  | snoc orderly valid fits =>
      obtain ⟨rfl, same⟩ := List.append_inj' whole rfl
      obtain rfl := (List.cons.inj same).1
      exact ⟨orderly, valid, fits⟩

theorem of_append (orderly : Orderly codec (before ++ after)) : Orderly codec before := by
  induction after using List.reverseRecOn with
  | nil => rwa [List.append_nil] at orderly
  | append_singleton rest last inductionHypothesis =>
      rw [← List.append_assoc] at orderly
      exact inductionHypothesis orderly.of_snoc.1

theorem head (orderly : Orderly codec (before ++ written :: after)) :
    Orderly codec (before ++ [written]) := by
  rw [List.append_cons] at orderly
  exact orderly.of_append

end Orderly

theorem track_snoc (before : List Written) (written : Written) :
    track (before ++ [written]) = (track before).bind written.advance := by
  simp [track, List.foldlM_append]

theorem track_snoc_eq_some {before : List Written} {written : Written} {progress : Progress}
    (tracked : track (before ++ [written]) = some progress) :
    ∃ earlier, track before = some earlier ∧ written.advance earlier = some progress := by
  rw [track_snoc] at tracked
  exact Option.bind_eq_some_iff.mp tracked

namespace Written

variable {written : Written} {progress next : Progress}

/-- A packet that abandons a transfer takes out its own. -/
theorem advance_none (part : written.part = none) (advanced : written.advance progress = some next) :
    (∃ inflight, progress.lookup written.transfer = some inflight ∧ inflight.key = written.key) ∧
      next = progress.erase written.transfer := by
  rw [advance, part] at advanced
  dsimp only at advanced
  split at advanced
  · rename_i known
    obtain ⟨inflight, found, same⟩ := Option.map_eq_some_iff.mp known
    exact ⟨⟨inflight, found, same⟩, (Option.some.inj advanced).symm⟩
  · cases advanced

/-- A packet with a slice moves its own transfer on. -/
theorem advance_some {offset : Nat} (part : written.part = some offset)
    (advanced : written.advance progress = some next) :
    (progress.lookup written.transfer =
        if offset = 0 then none else some (written.inflight offset)) ∧
      next = progress.place written.transfer (written.inflight offset) := by
  rw [advance, part] at advanced
  dsimp only at advanced
  by_cases known : progress.lookup written.transfer =
      if offset = 0 then none else some (written.inflight offset)
  · rw [if_pos known] at advanced
    exact ⟨known, (Option.some.inj advanced).symm⟩
  · rw [if_neg known] at advanced
    cases advanced

theorem advance_elsewhere (advanced : written.advance progress = some next) {id : UInt32}
    (different : id ≠ written.transfer) : next.lookup id = progress.lookup id := by
  cases part : written.part with
  | none =>
      obtain ⟨_, rfl⟩ := advance_none part advanced
      exact AList.lookup_erase_ne different
  | some offset =>
      obtain ⟨_, rfl⟩ := advance_some part advanced
      rw [Progress.lookup_place, if_neg different]

/-- What is under way at the transfer of a packet is its own send, unended. -/
theorem advance_own (advanced : written.advance progress = some next) {inflight : Inflight}
    (found : next.lookup written.transfer = some inflight) :
    ¬ written.Ends ∧ inflight.key = written.key ∧ inflight.payload = written.payload := by
  cases part : written.part with
  | none =>
      obtain ⟨_, rfl⟩ := advance_none part advanced
      rw [AList.lookup_erase] at found
      cases found
  | some offset =>
      obtain ⟨_, rfl⟩ := advance_some part advanced
      rw [Progress.lookup_place, if_pos rfl] at found
      split at found
      · cases found
      · rename_i incomplete
        obtain rfl := Option.some.inj found
        refine ⟨?_, rfl, rfl⟩
        rintro (none | ⟨other, isOther, completes⟩)
        · rw [part] at none
          cases none
        · rw [part] at isOther
          obtain rfl := Option.some.inj isOther
          exact incomplete completes

end Written

/-- A transfer under way is of a send that has written packets and none that ended it. -/
theorem Orderly.origin {packets : List Written} (orderly : Orderly codec packets)
    {progress : Progress} (tracked : track packets = some progress) {id : UInt32}
    {inflight : Inflight} (found : progress.lookup id = some inflight) :
    (∃ written ∈ packets, written.key = inflight.key ∧ written.transfer = id ∧
      written.payload = inflight.payload) ∧
    ∀ written ∈ packets, written.key = inflight.key → ¬ written.Ends := by
  induction orderly generalizing progress id inflight with
  | nil =>
      obtain rfl := Option.some.inj tracked
      rw [AList.lookup_empty] at found
      cases found
  | @snoc before last orderly valid fits inductionHypothesis =>
      obtain ⟨earlier, trackedBefore, advanced⟩ := track_snoc_eq_some tracked
      by_cases here : id = last.transfer
      · rw [here] at found
        obtain ⟨unended, sameKey, samePayload⟩ := last.advance_own advanced found
        refine ⟨⟨last, by simp, sameKey.symm, here.symm, samePayload.symm⟩, fun written member same => ?_⟩
        rw [sameKey] at same
        rcases List.mem_append.mp member with earlier | isLast
        · exact fits.unended written earlier same
        · rw [List.mem_singleton.mp isLast]
          exact unended
      · rw [last.advance_elsewhere advanced here] at found
        obtain ⟨⟨written, member, sameKey, sameTransfer, samePayload⟩, unended⟩ :=
          inductionHypothesis trackedBefore found
        refine ⟨⟨written, by simp [member], sameKey, sameTransfer, samePayload⟩,
          fun other inside same => ?_⟩
        rcases List.mem_append.mp inside with earlier | isLast
        · exact unended other earlier same
        · rw [List.mem_singleton.mp isLast] at same ⊢
          have moved := (fits.same written member (sameKey.trans same.symm)).1
          exact absurd (sameTransfer.symm.trans moved) here

/-- The transfers under way are of different sends. -/
theorem Orderly.apart {packets : List Written} (orderly : Orderly codec packets)
    {progress : Progress} (tracked : track packets = some progress) : progress.Apart := by
  induction orderly generalizing progress with
  | nil =>
      obtain rfl := Option.some.inj tracked
      intro first second left right found
      rw [AList.lookup_empty] at found
      cases found
  | @snoc before last orderly valid fits inductionHypothesis =>
      obtain ⟨earlier, trackedBefore, advanced⟩ := track_snoc_eq_some tracked
      -- a transfer elsewhere with the key of the packet would have begun where the packet is
      have foreign : ∀ id inflight, id ≠ last.transfer → earlier.lookup id = some inflight →
          inflight.key ≠ last.key := by
        intro id inflight different found same
        obtain ⟨⟨written, member, sameKey, sameTransfer, _⟩, _⟩ :=
          orderly.origin trackedBefore found
        have moved := (fits.same written member (sameKey.trans same)).1
        exact different (sameTransfer.symm.trans moved)
      intro first second left right foundFirst foundSecond same
      by_cases firstHere : first = last.transfer <;> by_cases secondHere : second = last.transfer
      · rw [firstHere, secondHere]
      · rw [firstHere] at foundFirst
        rw [last.advance_elsewhere advanced secondHere] at foundSecond
        have sameKey := (last.advance_own advanced foundFirst).2.1
        exact absurd (same.symm.trans sameKey) (foreign second right secondHere foundSecond)
      · rw [secondHere] at foundSecond
        rw [last.advance_elsewhere advanced firstHere] at foundFirst
        have sameKey := (last.advance_own advanced foundSecond).2.1
        exact absurd (same.trans sameKey) (foreign first left firstHere foundFirst)
      · rw [last.advance_elsewhere advanced firstHere] at foundFirst
        rw [last.advance_elsewhere advanced secondHere] at foundSecond
        exact inductionHypothesis trackedBefore first second left right foundFirst foundSecond same

/-! ### One packet -/

/-- The fragment a packet is read as. -/
def Written.fragment (written : Written) : Fragment :=
  match written.part with
  | none => ⟨written.transfer, 0, 0, []⟩
  | some offset => (written.inflight offset).fragment written.transfer

theorem Written.Valid.fragment_bytes {written : Written} (valid : written.Valid codec) :
    DataChannel.fragment written.bytes = .ok written.fragment := by
  unfold Written.bytes Written.fragment
  cases part : written.part with
  | none => exact EncodedFrame.fragment_abortPacket valid.nonzero
  | some offset =>
      have inside := valid.within offset part
      have sized := valid.sized
      refine EncodedFrame.fragment_packet valid.nonzero sized (by omega) ?_
      rw [slice_length]
      exact Nat.min_le_left _ _

/-- What the decoder may answer to the next packet, and what it then follows. -/
inductive Answered (codec : Codec Frame) (lost : Nat → Prop) (progress : Progress)
    (written : Written) (next : FrameDecoder) : Except DecodeError (Option Frame) → Prop
  | refused (message : String) (first : written.part = some 0)
      (reason : (∃ other, progress.lookup written.transfer = some other) ∨
        maxInFlight ≤ size progress) :
      Answered codec lost progress written next (.error (.invalid message))
  | busy (follows : Follows lost progress next) :
      Answered codec lost progress written next (.error .busy)
  | rejected (after : Progress) (advanced : written.advance progress = some after)
      (first : written.part = some 0)
      (follows : Follows (fun key => lost key ∨ key = written.key) after next) :
      Answered codec lost progress written next
        (.error (.rejected (codec.requestIdPrefix (slice written.payload 0))))
  | silent (after : Progress) (advanced : written.advance progress = some after)
      (follows : Follows lost after next) (quiet : written.Completes → lost written.key) :
      Answered codec lost progress written next (.ok none)
  | emitted (after : Progress) (advanced : written.advance progress = some after)
      (follows : Follows lost after next) (completes : written.Completes)
      (kept : ¬ lost written.key) :
      Answered codec lost progress written next (.ok (some written.frame))

section Packet

variable {lost : Nat → Prop} {progress : Progress} {decoder next : FrameDecoder}
  {written : Written} {readings : Readings} {reserved : Reservations}
  {answer : FrameDecoder.Answer Frame} {offset : Nat}

theorem Written.completes_iff (part : written.part = some offset) :
    written.Completes ↔ DataChannel.Completes written.payload offset := by
  constructor
  · rintro ⟨other, isOther, completes⟩
    rw [part] at isOther
    obtain rfl := Option.some.inj isOther
    exact completes
  · exact fun completes => ⟨offset, part, completes⟩

/-- The answer to a slice of an assembly that the decoder has kept. -/
theorem answered_progress (part : written.part = some offset) {after : Progress}
    (advanced : written.advance progress = some after) (follows : Follows lost after next)
    (kept : ¬ lost written.key) :
    Answered codec lost progress written next
      (progressAnswer written.frame (written.inflight offset)) := by
  unfold progressAnswer
  split
  · rename_i completes
    exact .emitted after advanced follows ((written.completes_iff part).mpr completes) kept
  · rename_i incomplete
    exact .silent after advanced follows fun completes =>
      absurd ((written.completes_iff part).mp completes) incomplete

/-- The packet that abandons a transfer. -/
theorem answered_abort (follows : Follows lost progress decoder)
    (part : written.part = none) {after : Progress}
    (advanced : written.advance progress = some after)
    (accepted : decoder.accept codec readings written.fragment reserved = some answer) :
    Answered codec lost progress written answer.1.1 answer.2 := by
  rw [Written.fragment, part] at accepted
  obtain ⟨answered, follows⟩ := follows.abort accepted
  obtain ⟨_, isAfter⟩ := Written.advance_none part advanced
  rw [answered]
  rw [← isAfter] at follows
  refine .silent after advanced follows ?_
  rintro ⟨other, isOther, _⟩
  rw [part] at isOther
  cases isOther

/-- A slice of a transfer that has begun. -/
theorem answered_later (lawful : codec.Lawful) (valid : written.Valid codec)
    (follows : Follows lost progress decoder) (part : written.part = some offset)
    (later : offset ≠ 0) {after : Progress} (advanced : written.advance progress = some after)
    (accepted : decoder.accept codec readings written.fragment reserved = some answer) :
    Answered codec lost progress written answer.1.1 answer.2 := by
  obtain ⟨found, isAfter⟩ := Written.advance_some part advanced
  rw [if_neg later] at found
  have parses := lawful.roundTrip _ _ valid.serialized
  rw [Written.fragment, part] at accepted
  by_cases isLost : lost written.key
  · obtain ⟨answered, follows⟩ := follows.drain found isLost accepted
    rw [answered]
    rw [← isAfter] at follows
    exact .silent after advanced follows fun _ => isLost
  · obtain ⟨answered, follows⟩ := follows.continues found isLost parses accepted
    rw [answered]
    rw [← isAfter] at follows
    exact answered_progress part advanced follows isLost

/-- The first slice of a transfer. -/
theorem answered_first (lawful : codec.Lawful) (valid : written.Valid codec)
    (follows : Follows lost progress decoder) (part : written.part = some 0)
    (kept : ¬ lost written.key)
    (fresh : ∀ id inflight, progress.lookup id = some inflight → inflight.key ≠ written.key)
    (accepted : decoder.accept codec readings written.fragment reserved = some answer) :
    Answered codec lost progress written answer.1.1 answer.2 := by
  have within := valid.within 0 part
  have parses := lawful.roundTrip _ _ valid.serialized
  rw [Written.fragment, part] at accepted
  cases found : progress.lookup written.transfer with
  | some other =>
      obtain ⟨message, refused⟩ := follows.begin_taken found rfl within accepted
      rw [refused]
      exact .refused message part (.inl ⟨other, found⟩)
  | none =>
      have advanced : written.advance progress =
          some (progress.place written.transfer (written.inflight 0)) := by
        rw [Written.advance, part]
        dsimp only
        rw [if_pos rfl, if_pos found]
      have begins := follows.begins found rfl within kept fresh parses accepted
      generalize answer.2 = result at begins ⊢
      cases begins with
      | tooMany message many => exact .refused message part (.inr many)
      | busy follows => exact .busy follows
      | rejected follows => exact .rejected _ advanced part follows
      | taken follows => exact answered_progress part advanced follows kept

/-- A packet in order is read as the next one of its transfer. -/
theorem pushed_answered (lawful : codec.Lawful) {before : List Written}
    (orderly : Orderly codec (before ++ [written])) (tracked : track before = some progress)
    (follows : Follows lost progress decoder)
    (known : ∀ key, lost key → ∃ earlier ∈ before, earlier.key = key)
    (pushed : decoder.push codec readings written.bytes reserved = some answer) :
    Answered codec (fun key => lost key ∨ GivenUp readings decoder progress key) progress written
      answer.1.1 answer.2 := by
  obtain ⟨orderly, valid, fits⟩ := orderly.of_snoc
  have apart := orderly.apart tracked
  unfold FrameDecoder.push at pushed
  obtain ⟨expired, isExpired, accepted⟩ := Option.bind_eq_some_iff.mp pushed
  have follows := follows.expire apart isExpired
  rw [valid.fragment_bytes] at accepted
  dsimp only at accepted
  cases part : written.part with
  | none =>
      rcases fits.continues progress tracked with ⟨after, advanced⟩ | ⟨first, _⟩
      · exact answered_abort follows part advanced accepted
      · rw [part] at first
        cases first
  | some offset =>
      by_cases start : offset = 0
      · subst start
        have new := fits.begins part
        have kept : ¬ (lost written.key ∨ GivenUp readings decoder progress written.key) := by
          rintro (isLost | ⟨entry, _, inflight, found, same⟩)
          · obtain ⟨earlier, member, same⟩ := known _ isLost
            exact new earlier member same
          · obtain ⟨⟨earlier, member, sameKey, _⟩, _⟩ := orderly.origin tracked found
            exact new earlier member (sameKey.trans same)
        refine answered_first lawful valid follows part kept (fun id inflight found same => ?_)
          accepted
        obtain ⟨⟨earlier, member, sameKey, _⟩, _⟩ := orderly.origin tracked found
        exact new earlier member (sameKey.trans same)
      · rcases fits.continues progress tracked with ⟨after, advanced⟩ | ⟨first, _⟩
        · exact answered_later lawful valid follows part start advanced accepted
        · rw [part] at first
          exact absurd (Option.some.inj first) start

end Packet

/-! ### The reader -/

namespace Link

/-- The reader has rejected the transfer of a send or given it up. -/
def Lost (link : Link) (key : Nat) : Prop := key ∈ link.rejected ∨ key ∈ link.expired

/-- What the records of a reader say about the packets it has read. -/
structure Recorded (link : Link) : Prop where
  complete : ∀ written ∈ link.read, written.Completes →
    written.key ∈ link.emitted.map Prod.fst ∨ link.Lost written.key
  origin : ∀ entry ∈ link.emitted, ∃ written ∈ link.read, written.key = entry.1 ∧
    written.Completes ∧ written.frame = entry.2
  kept : ∀ entry ∈ link.emitted, ¬ link.Lost entry.1
  once : (link.emitted.map Prod.fst).Nodup
  known : ∀ key, link.Lost key → ∃ written ∈ link.read, written.key = key
  handed : link.handed.Sublist (link.emitted.map Prod.snd)

/-- A reader that has not ended follows the transfers under way. -/
def Following (link : Link) : Prop :=
  link.ended = none → ∃ progress, track link.read = some progress ∧
    Follows link.Lost progress link.decoder

variable {link : Link} {progress : Progress} {readings : Readings} {written : Written}
  {rest : List Written} {full : Bool} {next : FrameDecoder}
  {answer : Except DecodeError (Option Frame)}

theorem mem_overdue (tracked : track link.read = some progress) {key : Nat} :
    key ∈ link.overdue readings ↔ GivenUp readings link.decoder progress key := by
  unfold overdue GivenUp
  rw [tracked, Option.getD_some, List.mem_filterMap]
  simp only [Option.map_eq_some_iff]

/-- The link after an expiry, with any decoder. -/
def gaveUp (readings : Readings) (decoder : FrameDecoder) (link : Link) : Link :=
  { link with decoder := decoder, expired := link.expired ++ link.overdue readings }

theorem lost_gaveUp (readings : Readings) (tracked : track link.read = some progress) (decoder : FrameDecoder) :
    (link.gaveUp readings decoder).Lost =
      fun key => link.Lost key ∨ GivenUp readings link.decoder progress key := by
  funext key
  unfold Lost gaveUp
  dsimp only
  rw [List.mem_append, mem_overdue tracked, or_assoc]

/-- An expiry gives up sends that have not ended, so none that was emitted. -/
theorem Recorded.gaveUp (recorded : link.Recorded) (readings : Readings) (orderly : Orderly codec link.read)
    (tracked : track link.read = some progress) (decoder : FrameDecoder) :
    (link.gaveUp readings decoder).Recorded := by
  have lost := lost_gaveUp readings tracked decoder
  refine ⟨fun written member completes => ?_, recorded.origin, fun entry member isLost => ?_,
    recorded.once, fun key isLost => ?_, recorded.handed⟩
  · rw [lost]
    exact (recorded.complete written member completes).imp id .inl
  · rw [lost] at isLost
    rcases isLost with wasLost | ⟨_, _, inflight, found, same⟩
    · exact recorded.kept entry member wasLost
    · obtain ⟨written, read, sameKey, completes, _⟩ := recorded.origin entry member
      exact (orderly.origin tracked found).2 written read (sameKey.trans same.symm) (.inr completes)
  · rw [lost] at isLost
    rcases isLost with wasLost | ⟨_, _, inflight, found, same⟩
    · exact recorded.known key wasLost
    · obtain ⟨⟨written, read, sameKey, _⟩, _⟩ := orderly.origin tracked found
      exact ⟨written, read, sameKey.trans same⟩

/-- A packet that is consumed without an emission. -/
theorem Recorded.consume (recorded : link.Recorded)
    (quiet : written.Completes → link.Lost written.key) : (link.consume written rest).Recorded := by
  refine ⟨fun other member completes => ?_, fun entry member => ?_, recorded.kept, recorded.once,
    fun key isLost => ?_, recorded.handed⟩
  · rcases List.mem_append.mp member with earlier | isLast
    · exact recorded.complete other earlier completes
    · rw [List.mem_singleton.mp isLast] at completes ⊢
      exact .inr (quiet completes)
  · obtain ⟨other, read, facts⟩ := recorded.origin entry member
    exact ⟨other, List.mem_append_left _ read, facts⟩
  · obtain ⟨other, read, same⟩ := recorded.known key isLost
    exact ⟨other, List.mem_append_left _ read, same⟩

/-- A rejected first packet; its send has written nothing else. -/
theorem Recorded.reject (recorded : link.Recorded) (fits : Fits link.read written)
    (first : written.part = some 0) (replies : List Reply) :
    { link.consume written rest with
      rejected := link.rejected ++ [written.key], replies := replies }.Recorded := by
  have lost : ∀ key, { link.consume written rest with
      rejected := link.rejected ++ [written.key], replies := replies }.Lost key ↔
        link.Lost key ∨ key = written.key := by
    intro key
    unfold Lost Link.consume
    dsimp only
    rw [List.mem_append, List.mem_singleton]
    exact or_right_comm
  refine ⟨fun other member completes => ?_, fun entry member => ?_, fun entry member isLost => ?_,
    recorded.once, fun key isLost => ?_, recorded.handed⟩
  · rcases List.mem_append.mp member with earlier | isLast
    · exact (recorded.complete other earlier completes).imp id fun isLost => (lost _).mpr (.inl isLost)
    · rw [List.mem_singleton.mp isLast]
      exact .inr ((lost _).mpr (.inr rfl))
  · obtain ⟨other, read, facts⟩ := recorded.origin entry member
    exact ⟨other, List.mem_append_left _ read, facts⟩
  · rcases (lost _).mp isLost with wasLost | same
    · exact recorded.kept entry member wasLost
    · obtain ⟨other, read, sameKey, _⟩ := recorded.origin entry member
      exact fits.begins first other read (sameKey.trans same)
  · rcases (lost _).mp isLost with wasLost | same
    · obtain ⟨other, read, sameKey⟩ := recorded.known key wasLost
      exact ⟨other, List.mem_append_left _ read, sameKey⟩
    · exact ⟨written, List.mem_append_right _ (List.mem_singleton_self _), same.symm⟩

/-- A frame that is emitted; whether it reaches the dispatcher depends on its queue. -/
theorem Recorded.emit (recorded : link.Recorded) (fits : Fits link.read written)
    (completes : written.Completes) (kept : ¬ link.Lost written.key) {handed : List Frame}
    (reaches : handed = link.handed ∨ handed = link.handed ++ [written.frame])
    (ended : Option String) :
    { link.consume written rest with
      emitted := link.emitted ++ [(written.key, written.frame)]
      handed := handed, ended := ended }.Recorded := by
  refine ⟨fun other member otherCompletes => ?_, fun entry member => ?_, fun entry member => ?_, ?_,
    fun key isLost => ?_, ?_⟩
  · rcases List.mem_append.mp member with earlier | isLast
    · refine (recorded.complete other earlier otherCompletes).imp (fun inside => ?_) id
      rw [List.map_append]
      exact List.mem_append_left _ inside
    · rw [List.mem_singleton.mp isLast]
      exact .inl (by simp)
  · rcases List.mem_append.mp member with earlier | isLast
    · obtain ⟨other, read, facts⟩ := recorded.origin entry earlier
      exact ⟨other, List.mem_append_left _ read, facts⟩
    · rw [List.mem_singleton.mp isLast]
      exact ⟨written, List.mem_append_right _ (List.mem_singleton_self _), rfl, completes, rfl⟩
  · rcases List.mem_append.mp member with earlier | isLast
    · exact recorded.kept entry earlier
    · rw [List.mem_singleton.mp isLast]
      exact kept
  · rw [List.map_append, List.nodup_append]
    refine ⟨recorded.once, List.nodup_singleton _, fun key inside other isLast => ?_⟩
    rw [List.map_singleton, List.mem_singleton] at isLast
    obtain ⟨entry, member, rfl⟩ := List.mem_map.mp inside
    obtain ⟨earlier, read, sameKey, ended, _⟩ := recorded.origin entry member
    rintro rfl
    exact fits.unended earlier read (sameKey.trans isLast) (.inr ended)
  · obtain ⟨other, read, same⟩ := recorded.known key isLost
    exact ⟨other, List.mem_append_left _ read, same⟩
  · rw [List.map_append]
    rcases reaches with rfl | rfl
    · exact recorded.handed.trans (List.sublist_append_left _ _)
    · exact recorded.handed.append (List.Sublist.refl _)

/-- What the reader does with an answer to the next packet keeps its records. -/
theorem Recorded.handle (recorded : link.Recorded)
    (orderly : Orderly codec (link.read ++ [written]))
    (answered : Answered codec link.Lost progress written next answer) :
    (link.handle written rest full answer).Recorded := by
  obtain ⟨_, _, fits⟩ := orderly.of_snoc
  cases answered with
  | refused message first reason =>
      exact ⟨recorded.complete, recorded.origin, recorded.kept, recorded.once, recorded.known,
        recorded.handed⟩
  | busy follows => exact recorded
  | rejected after advanced first follows => exact recorded.reject fits first _
  | silent after advanced follows quiet => exact recorded.consume quiet
  | emitted after advanced follows completes kept =>
      unfold Link.handle
      dsimp only
      split
      · exact recorded.emit fits completes kept (.inl rfl) _
      · exact recorded.emit fits completes kept (.inr rfl) _

/-- A reader that goes on after an answer follows what is then under way. -/
theorem handle_following (tracked : track link.read = some progress) (isDecoder : link.decoder = next)
    (answered : Answered codec link.Lost progress written next answer) :
    (link.handle written rest full answer).Following := by
  have moved : ∀ {after}, written.advance progress = some after →
      track (link.read ++ [written]) = some after := by
    intro after advanced
    rw [track_snoc, tracked]
    exact advanced
  subst isDecoder
  intro running
  cases answered with
  | refused message first reason => cases running
  | busy follows => exact ⟨progress, tracked, follows⟩
  | rejected after advanced first follows =>
      refine ⟨after, moved advanced, ?_⟩
      have lost : (link.handle written rest full (.error (.rejected
          (codec.requestIdPrefix (slice written.payload 0))))).Lost =
            fun key => link.Lost key ∨ key = written.key := by
        funext key
        unfold Lost Link.handle Link.consume
        dsimp only
        rw [List.mem_append, List.mem_singleton]
        exact propext or_right_comm
      rw [lost]
      exact follows
  | silent after advanced follows quiet => exact ⟨after, moved advanced, follows⟩
  | emitted after advanced follows completes kept =>
      unfold Link.handle at running ⊢
      dsimp only at running ⊢
      split at running
      · cases running
      · rename_i room
        rw [if_neg room]
        exact ⟨after, moved advanced, follows⟩

end Link

end Cairn.Protocol.DirectChannel

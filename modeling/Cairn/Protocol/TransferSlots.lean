import Cairn.Protocol.DecoderTracking

/-!
Owns what a decoder does to one transfer id, seen apart from all others: the slot
of the id, what an expiry and a packet do to it, and that every call of a decoder
does exactly that to the slot of its packet and leaves the slots of the other ids
as the expiry left them.
-/

set_option autoImplicit false

namespace Cairn.Protocol.DataChannel

open Cairn.Library.HashMaps

/-! ### One transfer -/

/-- What a decoder holds of a transfer id. -/
inductive Slot where
  | free
  | assembling (frame : Assembly)
  | draining (discarded : Discarded)
deriving DecidableEq, Repr

namespace Slot

/-- A transfer in a table has begun and has not ended. -/
def Underway : Slot → Prop
  | .free => True
  | .assembling frame => 0 < frame.bytes.length ∧ frame.bytes.length < frame.total
  | .draining discarded => 0 < discarded.received ∧ discarded.received < discarded.total

/-- What an expiry leaves of a transfer. -/
def expire (visited : Nat) : Slot → Slot
  | .assembling frame =>
      if visited - frame.lastProgress < requestTimeout then .assembling frame
      else .draining ⟨frame.total, frame.bytes.length⟩
  | slot => slot

variable {Frame : Type} (codec : Codec Frame)

/-- What a packet does to its transfer. A first fragment of a free id is not
described: whether it is admitted depends on the other transfers. -/
def take (readings : Readings) (fragment : Fragment) (slot : Slot) :
    Slot × Except DecodeError (Option Frame) :=
  if fragment.Aborts then (.free, .ok none)
  else if fragment.Exceeds then
    (slot, .error (.invalid "DataChannel reassembly limit exceeded"))
  else
    match slot with
    | .free => (.free, .error (.invalid "Unknown transfer"))
    | .draining discarded =>
        if discarded.total ≠ fragment.total ∨ discarded.received ≠ fragment.offset then
          (slot, .error (.invalid "Invalid discarded fragment sequence"))
        else if discarded.received + fragment.payload.length = fragment.total then (.free, .ok none)
        else (.draining ⟨discarded.total, discarded.received + fragment.payload.length⟩, .ok none)
    | .assembling frame =>
        if fragment.offset = 0 then
          (slot, .error (.invalid "Too many incomplete transfers"))
        else if frame.total ≠ fragment.total ∨ frame.bytes.length ≠ fragment.offset then
          (slot, .error (.invalid "Invalid fragment sequence"))
        else
          let grown := FrameDecoder.grown readings fragment frame
          if grown.bytes.length ≠ fragment.total then (.assembling grown, .ok none)
          else (.free, FrameDecoder.decoded codec grown.bytes)

/-- The packet asks for a new transfer. -/
def Opens (fragment : Fragment) (slot : Slot) : Prop :=
  slot = .free ∧ fragment.offset = 0 ∧ ¬ fragment.Exceeds

/-- What may become of a packet that asks for a new transfer. -/
inductive Opened (readings : Readings) (fragment : Fragment) :
    Slot → Except DecodeError (Option Frame) → Prop where
  | crowded : Opened readings fragment .free (.error (.invalid "Too many incomplete transfers"))
  | whole : fragment.payload.length = fragment.total →
      Opened readings fragment .free (FrameDecoder.decoded codec fragment.payload)
  | started : fragment.payload.length < fragment.total →
      Opened readings fragment
        (.assembling ⟨fragment.total, fragment.total, fragment.payload, readings.progressed⟩)
        (.ok none)
  | rejectedWhole (request : Option String) : fragment.payload.length = fragment.total →
      Opened readings fragment .free (.error (.rejected request))
  | rejected (request : Option String) : fragment.payload.length < fragment.total →
      Opened readings fragment (.draining ⟨fragment.total, fragment.payload.length⟩)
        (.error (.rejected request))
  | busy : Opened readings fragment .free (.error .busy)

end Slot

namespace FrameDecoder

/-- The slot of a transfer id. -/
def slot (decoder : FrameDecoder) (id : UInt32) : Slot :=
  match decoder.pending.lookup id with
  | some frame => .assembling frame
  | none =>
      match decoder.discarded.lookup id with
      | some discarded => .draining discarded
      | none => .free

theorem slot_congr {first second : FrameDecoder} {id : UInt32}
    (pending : first.pending.lookup id = second.pending.lookup id)
    (discarded : first.discarded.lookup id = second.discarded.lookup id) :
    first.slot id = second.slot id := by
  unfold slot
  rw [pending, discarded]

/-- What every decoder keeps of its two tables. -/
structure Orderly (decoder : FrameDecoder) : Prop where
  apart : ∀ id frame, decoder.pending.lookup id = some frame → decoder.discarded.lookup id = none
  room : size decoder.pending + size decoder.discarded ≤ maxInFlight
  underway : ∀ id, (decoder.slot id).Underway

variable {decoder : FrameDecoder} {id : UInt32}

theorem slot_of_pending {frame : Assembly} (found : decoder.pending.lookup id = some frame) :
    decoder.slot id = .assembling frame := by
  unfold slot
  rw [found]

theorem slot_of_discarded {discarded : Discarded} (absent : decoder.pending.lookup id = none)
    (found : decoder.discarded.lookup id = some discarded) :
    decoder.slot id = .draining discarded := by
  unfold slot
  rw [absent, found]

theorem slot_of_none (absent : decoder.pending.lookup id = none)
    (gone : decoder.discarded.lookup id = none) : decoder.slot id = .free := by
  unfold slot
  rw [absent, gone]

theorem pending_of_slot {frame : Assembly} (isSlot : decoder.slot id = .assembling frame) :
    decoder.pending.lookup id = some frame := by
  unfold slot at isSlot
  cases found : decoder.pending.lookup id with
  | some other =>
      rw [found] at isSlot
      injection isSlot with same
      rw [same]
  | none =>
      rw [found] at isSlot
      dsimp only at isSlot
      split at isSlot <;> cases isSlot

theorem discarded_of_slot {discarded : Discarded} (isSlot : decoder.slot id = .draining discarded) :
    decoder.pending.lookup id = none ∧ decoder.discarded.lookup id = some discarded := by
  unfold slot at isSlot
  cases found : decoder.pending.lookup id with
  | some other =>
      rw [found] at isSlot
      cases isSlot
  | none =>
      rw [found] at isSlot
      dsimp only at isSlot
      cases drained : decoder.discarded.lookup id with
      | some other =>
          rw [drained] at isSlot
          injection isSlot with same
          rw [same]
          exact ⟨rfl, rfl⟩
      | none =>
          rw [drained] at isSlot
          cases isSlot

theorem none_of_slot (isSlot : decoder.slot id = .free) :
    decoder.pending.lookup id = none ∧ decoder.discarded.lookup id = none := by
  unfold slot at isSlot
  cases found : decoder.pending.lookup id with
  | some other =>
      rw [found] at isSlot
      cases isSlot
  | none =>
      rw [found] at isSlot
      dsimp only at isSlot
      cases drained : decoder.discarded.lookup id with
      | some other =>
          rw [drained] at isSlot
          cases isSlot
      | none => exact ⟨rfl, rfl⟩

/-! ### Order kept by the changes of the tables -/

theorem Orderly.initial (budget : ReassemblyBudget) : (withBudget budget).Orderly where
  apart := fun id frame found => by simp [withBudget] at found
  room := Nat.zero_le _
  underway := fun _ => trivial

/-- The ids in the tables of a decoder. -/
def occupied (decoder : FrameDecoder) : List UInt32 :=
  decoder.pending.keys ++ decoder.discarded.keys

theorem occupied_length (decoder : FrameDecoder) :
    decoder.occupied.length = size decoder.pending + size decoder.discarded := by
  simp [occupied, size, AList.keys, List.keys]

theorem mem_occupied : id ∈ decoder.occupied ↔ decoder.slot id ≠ .free := by
  rw [occupied, List.mem_append, ← AList.mem_keys, ← AList.mem_keys, ← AList.lookup_isSome,
    ← AList.lookup_isSome]
  unfold slot
  cases decoder.pending.lookup id with
  | some frame => simp
  | none => cases decoder.discarded.lookup id <;> simp

/-- No id is in both tables. -/
def Apart (decoder : FrameDecoder) : Prop :=
  ∀ id frame, decoder.pending.lookup id = some frame → decoder.discarded.lookup id = none

theorem Apart.nodup (apart : decoder.Apart) : decoder.occupied.Nodup := by
  refine decoder.pending.keys_nodup.append decoder.discarded.keys_nodup ?_
  intro id inPending inDiscarded
  obtain ⟨frame, found⟩ := Option.isSome_iff_exists.mp (AList.lookup_isSome.mpr inPending)
  have drained := AList.lookup_isSome.mpr inDiscarded
  rw [apart id frame found] at drained
  cases drained

/-- A decoder whose ids are among those of another, and one more, holds at most one more. -/
theorem Apart.size_le (apart : decoder.Apart) (other : FrameDecoder) (more : List UInt32)
    (inside : ∀ id, decoder.slot id ≠ .free → id ∈ more ∨ other.slot id ≠ .free) :
    size decoder.pending + size decoder.discarded ≤
      more.length + (size other.pending + size other.discarded) := by
  have subset : decoder.occupied ⊆ more ++ other.occupied := fun id member => by
    rcases inside id (mem_occupied.mp member) with new | old
    · exact List.mem_append_left _ new
    · exact List.mem_append_right _ (mem_occupied.mpr old)
  have lengths := (List.subperm_of_subset apart.nodup subset).length_le
  rw [List.length_append, occupied_length, occupied_length] at lengths
  exact lengths

/-- One id changes: it stays in the tables, leaves them, or there was room for it. -/
theorem Orderly.update (orderly : decoder.Orderly) {next : FrameDecoder}
    (others : ∀ other, other ≠ id → next.pending.lookup other = decoder.pending.lookup other ∧
      next.discarded.lookup other = decoder.discarded.lookup other)
    (apart : next.pending.lookup id = none ∨ next.discarded.lookup id = none)
    (underway : (next.slot id).Underway)
    (room : decoder.slot id ≠ .free ∨ next.slot id = .free ∨
      size decoder.pending + size decoder.discarded < maxInFlight) : next.Orderly := by
  have same : ∀ other, other ≠ id → next.slot other = decoder.slot other := fun other different =>
    slot_congr (others other different).1 (others other different).2
  have apartNext : next.Apart := by
    intro other frame found
    by_cases here : other = id
    · subst here
      rcases apart with absent | absent
      · rw [absent] at found
        cases found
      · exact absent
    · obtain ⟨samePending, sameDiscarded⟩ := others other here
      rw [sameDiscarded]
      exact orderly.apart other frame (samePending ▸ found)
  refine ⟨apartNext, ?_, fun other => ?_⟩
  · have bounded := orderly.room
    by_cases opens : decoder.slot id = .free ∧ next.slot id ≠ .free
    · have free := (room.resolve_left (not_not.mpr opens.1)).resolve_left opens.2
      have larger := apartNext.size_le decoder [id] fun other taken => by
        by_cases here : other = id
        · exact Or.inl (by simp [here])
        · exact Or.inr (same other here ▸ taken)
      rw [List.length_singleton] at larger
      omega
    · have smaller := apartNext.size_le decoder [] fun other taken => by
        by_cases here : other = id
        · subst here
          exact Or.inr fun isFree => opens ⟨isFree, taken⟩
        · exact Or.inr (same other here ▸ taken)
      rw [List.length_nil, Nat.zero_add] at smaller
      omega
  · by_cases here : other = id
    · subst here
      exact underway
    · rw [same other here]
      exact orderly.underway other

/-! ### Expiry -/

variable {readings : Readings} {reserved : Reservations}

/-- An expiry does to every slot what it does to a transfer alone. -/
theorem slot_expire {final : FrameDecoder × Reservations}
    (expired : decoder.expire readings reserved = some final) (id : UInt32) :
    final.1.slot id = (decoder.slot id).expire (readings.visited id) := by
  obtain ⟨distinct, stored⟩ := visits_filter decoder fun entry =>
    decide ¬ readings.visited entry.1 - entry.2.lastProgress < requestTimeout
  obtain ⟨visited, others⟩ := discardAll_tables distinct expired
  have overdueIff : ∀ frame, decoder.pending.lookup id = some frame →
      ¬ readings.visited id - frame.lastProgress < requestTimeout →
        (⟨id, frame⟩ : (_ : UInt32) × Assembly) ∈ decoder.overdue readings := fun frame found late =>
    List.mem_filter.mpr ⟨AList.mem_lookup_iff.mp found, decide_eq_true late⟩
  by_cases inside : id ∈ (decoder.overdue readings).keys
  · obtain ⟨frame, member⟩ := List.exists_of_mem_keys inside
    have found := stored _ member
    have late := of_decide_eq_true (List.mem_filter.mp member).2
    obtain ⟨pending, discarded⟩ := visited _ member
    rw [slot_of_discarded pending discarded, slot_of_pending found]
    exact (if_neg late).symm
  · obtain ⟨samePending, sameDiscarded⟩ := others id inside
    rw [slot_congr samePending sameDiscarded]
    cases isSlot : decoder.slot id with
    | free => rfl
    | draining discarded => rfl
    | assembling frame =>
        refine (if_pos ?_).symm
        by_contra late
        exact inside (List.mem_keys_of_mem (overdueIff frame (pending_of_slot isSlot) late))

theorem underway_expire {slot : Slot} (underway : slot.Underway) (visited : Nat) :
    (slot.expire visited).Underway := by
  cases slot with
  | free => exact underway
  | draining discarded => exact underway
  | assembling frame =>
      unfold Slot.expire
      dsimp only
      split
      · exact underway
      · exact underway

theorem Orderly.expire (orderly : decoder.Orderly) {final : FrameDecoder × Reservations}
    (expired : decoder.expire readings reserved = some final) : final.1.Orderly := by
  have apart : final.1.Apart := by
    obtain ⟨distinct, stored⟩ := visits_filter decoder fun entry =>
      decide ¬ readings.visited entry.1 - entry.2.lastProgress < requestTimeout
    obtain ⟨visited, others⟩ := discardAll_tables distinct expired
    intro id frame found
    by_cases inside : id ∈ (decoder.overdue readings).keys
    · obtain ⟨frame, member⟩ := List.exists_of_mem_keys inside
      rw [(visited _ member).1] at found
      cases found
    · obtain ⟨samePending, sameDiscarded⟩ := others id inside
      rw [sameDiscarded]
      exact orderly.apart id frame (samePending ▸ found)
  refine ⟨apart, ?_, fun id => ?_⟩
  · have smaller := apart.size_le decoder [] fun id taken => by
      refine Or.inr fun isFree => taken ?_
      rw [slot_expire expired, isFree]
      rfl
    have bounded := orderly.room
    rw [List.length_nil, Nat.zero_add] at smaller
    omega
  · rw [slot_expire expired]
    exact underway_expire (orderly.underway id) _

/-! ### Packets -/

variable {Frame : Type} {codec : Codec Frame} {fragment : Fragment} {answer : Answer Frame}

/-- What a packet may change. -/
structure Handles (codec : Codec Frame) (readings : Readings) (fragment : Fragment)
    (decoder : FrameDecoder) (answer : Answer Frame) : Prop where
  others : ∀ other, other ≠ fragment.id →
    answer.1.1.pending.lookup other = decoder.pending.lookup other ∧
      answer.1.1.discarded.lookup other = decoder.discarded.lookup other
  orderly : answer.1.1.Orderly
  taken : ¬ Slot.Opens fragment (decoder.slot fragment.id) →
    (answer.1.1.slot fragment.id, answer.2) =
      (decoder.slot fragment.id).take codec readings fragment
  opened : Slot.Opens fragment (decoder.slot fragment.id) →
    Slot.Opened codec readings fragment (answer.1.1.slot fragment.id) answer.2

/-- An answer that leaves the decoder as it is. -/
theorem Handles.refused (orderly : decoder.Orderly)
    {result : Except DecodeError (Option Frame)}
    (taken : ¬ Slot.Opens fragment (decoder.slot fragment.id) →
      (decoder.slot fragment.id, result) =
        (decoder.slot fragment.id).take codec readings fragment)
    (opened : Slot.Opens fragment (decoder.slot fragment.id) →
      Slot.Opened codec readings fragment .free result) :
    Handles codec readings fragment decoder ((decoder, reserved), result) := by
  refine ⟨fun _ _ => ⟨rfl, rfl⟩, orderly, taken, fun opens => ?_⟩
  show Slot.Opened codec readings fragment (decoder.slot fragment.id) result
  rw [opens.1]
  exact opened opens

/-- An abort takes its transfer out of both tables. -/
theorem abort_tables (aborted : decoder.abort id reserved = some answer) :
    answer.2 = .ok none ∧ answer.1.1.pending = decoder.pending.erase id ∧
      answer.1.1.discarded = decoder.discarded.erase id := by
  unfold FrameDecoder.abort at aborted
  cases found : decoder.pending.lookup id with
  | none =>
      rw [found] at aborted
      obtain rfl := Option.some.inj aborted
      exact ⟨rfl, (erase_of_notMem (AList.lookup_eq_none.mp found)).symm, rfl⟩
  | some frame =>
      rw [found] at aborted
      obtain ⟨removed, isRemoved, answered⟩ := Option.bind_eq_some_iff.mp aborted
      obtain ⟨pending, discarded⟩ := remove_eq_some isRemoved
      obtain rfl := Option.some.inj answered
      exact ⟨rfl, pending, by rw [← discarded]⟩

theorem Orderly.abort (orderly : decoder.Orderly) (aborts : fragment.Aborts)
    (aborted : decoder.abort fragment.id reserved = some answer) :
    Handles codec readings fragment decoder answer := by
  obtain ⟨answered, pending, discarded⟩ := abort_tables aborted
  have others : ∀ other, other ≠ fragment.id →
      answer.1.1.pending.lookup other = decoder.pending.lookup other ∧
        answer.1.1.discarded.lookup other = decoder.discarded.lookup other := by
    intro other different
    rw [pending, discarded]
    exact ⟨AList.lookup_erase_ne different, AList.lookup_erase_ne different⟩
  have free : answer.1.1.slot fragment.id = .free := by
    refine slot_of_none ?_ ?_
    · rw [pending]
      exact AList.lookup_erase _ _
    · rw [discarded]
      exact AList.lookup_erase _ _
  refine ⟨others, orderly.update others (Or.inl ?_) ?_ (Or.inr (Or.inl free)), fun _ => ?_,
    fun opens => ?_⟩
  · rw [pending]
    exact AList.lookup_erase _ _
  · rw [free]
    trivial
  · rw [free, answered]
    exact (if_pos aborts).symm
  · exact absurd (Or.inl aborts.2.2) opens.2.2

/-- A transfer that is drained changes nothing but its own count. -/
theorem Orderly.drain (orderly : decoder.Orderly) {discarded : Discarded}
    (notAbort : ¬ fragment.Aborts) (fits : ¬ fragment.Exceeds)
    (found : decoder.discarded.lookup fragment.id = some discarded) :
    Handles codec readings fragment decoder (decoder.drain fragment discarded reserved) := by
  have absent : decoder.pending.lookup fragment.id = none := by
    cases stored : decoder.pending.lookup fragment.id with
    | none => rfl
    | some frame =>
        rw [orderly.apart _ _ stored] at found
        cases found
  have isSlot : decoder.slot fragment.id = .draining discarded := slot_of_discarded absent found
  have notOpens : ¬ Slot.Opens fragment (decoder.slot fragment.id) := fun opens => by
    rw [isSlot] at opens
    cases opens.1
  unfold FrameDecoder.drain
  by_cases mismatch : discarded.total ≠ fragment.total ∨ discarded.received ≠ fragment.offset
  · rw [if_pos mismatch]
    refine Handles.refused orderly (fun _ => ?_) fun opens => absurd opens notOpens
    rw [isSlot, Slot.take, if_neg notAbort, if_neg fits]
    exact (if_pos mismatch).symm
  rw [if_neg mismatch]
  have taken : (decoder.slot fragment.id).take codec readings fragment =
      if discarded.received + fragment.payload.length = fragment.total then (.free, .ok none)
      else (.draining ⟨discarded.total, discarded.received + fragment.payload.length⟩,
        .ok none) := by
    rw [isSlot, Slot.take, if_neg notAbort, if_neg fits]
    exact if_neg mismatch
  push Not at mismatch
  dsimp only
  by_cases ends : discarded.received + fragment.payload.length = fragment.total
  · simp only [if_pos ends] at taken ⊢
    have free : slot { decoder with discarded := decoder.discarded.erase fragment.id }
        fragment.id = .free := slot_of_none absent (AList.lookup_erase _ _)
    have others : ∀ other, other ≠ fragment.id →
        decoder.pending.lookup other = decoder.pending.lookup other ∧
          (decoder.discarded.erase fragment.id).lookup other = decoder.discarded.lookup other :=
      fun other different => ⟨rfl, AList.lookup_erase_ne different⟩
    refine ⟨others, orderly.update others (Or.inl absent) ?_ (Or.inr (Or.inl free)), fun _ => ?_,
      fun opens => absurd opens notOpens⟩
    · rw [free]
      trivial
    · rw [taken, free]
  · simp only [if_neg ends] at taken ⊢
    have further : slot
        { decoder with
          discarded := decoder.discarded.insert fragment.id
            ⟨discarded.total, discarded.received + fragment.payload.length⟩ } fragment.id =
          .draining ⟨discarded.total, discarded.received + fragment.payload.length⟩ :=
      slot_of_discarded absent (AList.lookup_insert _)
    have others : ∀ other, other ≠ fragment.id →
        decoder.pending.lookup other = decoder.pending.lookup other ∧
          (decoder.discarded.insert fragment.id
            ⟨discarded.total, discarded.received + fragment.payload.length⟩).lookup other =
              decoder.discarded.lookup other :=
      fun other different => ⟨rfl, AList.lookup_insert_ne different⟩
    refine ⟨others, orderly.update others (Or.inl absent) ?_ (Or.inl ?_), fun _ => ?_,
      fun opens => absurd opens notOpens⟩
    · rw [further]
      unfold Fragment.Exceeds at fits
      push Not at fits
      have bound := fits.2
      show 0 < discarded.received + _ ∧ discarded.received + _ < discarded.total
      have before := orderly.underway fragment.id
      rw [isSlot] at before
      have positive : 0 < discarded.received := before.1
      omega
    · rw [isSlot]
      nofun
    · rw [taken, further]

/-- The tables after a fragment joined its assembly. -/
theorem extend_tables {frame : Assembly}
    (extended : decoder.extend codec readings fragment reserved = some answer)
    (found : decoder.pending.lookup fragment.id = some frame)
    (undrained : decoder.discarded.lookup fragment.id = none)
    (sameTotal : frame.total = fragment.total) (sameOffset : frame.bytes.length = fragment.offset) :
    (∀ other, other ≠ fragment.id →
      answer.1.1.pending.lookup other = decoder.pending.lookup other ∧
        answer.1.1.discarded.lookup other = decoder.discarded.lookup other) ∧
    answer.1.1.discarded.lookup fragment.id = none ∧
    (answer.1.1.slot fragment.id, answer.2) =
      if (grown readings fragment frame).bytes.length ≠ fragment.total then
        (.assembling (grown readings fragment frame), .ok none)
      else (.free, decoded codec (grown readings fragment frame).bytes) := by
  obtain ⟨discarded, incomplete, complete⟩ :=
    extend_matching codec extended found sameTotal sameOffset
  have gone : answer.1.1.discarded.lookup fragment.id = none := discarded ▸ undrained
  by_cases continues : (grown readings fragment frame).bytes.length ≠ fragment.total
  · obtain ⟨answered, pending⟩ := incomplete continues
    refine ⟨fun other different => ⟨?_, by rw [discarded]⟩, gone, ?_⟩
    · rw [pending, AList.lookup_insert_ne different]
    · have stored : answer.1.1.pending.lookup fragment.id =
          some (grown readings fragment frame) := by
        rw [pending]
        exact AList.lookup_insert _
      rw [if_pos continues, slot_of_pending stored, answered]
  · obtain ⟨answered, pending⟩ := complete (not_not.mp continues)
    refine ⟨fun other different => ⟨?_, by rw [discarded]⟩, gone, ?_⟩
    · rw [pending, AList.lookup_erase_ne different, AList.lookup_insert_ne different]
    · have absent : answer.1.1.pending.lookup fragment.id = none := by
        rw [pending]
        exact AList.lookup_erase _ _
      rw [if_neg continues, slot_of_none absent gone, answered]

theorem Orderly.extend (orderly : decoder.Orderly) (notAbort : ¬ fragment.Aborts)
    (fits : ¬ fragment.Exceeds) (undrained : decoder.discarded.lookup fragment.id = none)
    (later : fragment.offset ≠ 0)
    (extended : decoder.extend codec readings fragment reserved = some answer) :
    Handles codec readings fragment decoder answer := by
  have notOpens : ¬ Slot.Opens fragment (decoder.slot fragment.id) := fun opens => later opens.2.1
  cases found : decoder.pending.lookup fragment.id with
  | none =>
      rw [FrameDecoder.extend, found] at extended
      obtain rfl := Option.some.inj extended
      refine Handles.refused orderly (fun _ => ?_) fun opens => absurd opens notOpens
      rw [slot_of_none found undrained, Slot.take, if_neg notAbort, if_neg fits]
  | some frame =>
      have isSlot := slot_of_pending found
      by_cases mismatch : frame.total ≠ fragment.total ∨ frame.bytes.length ≠ fragment.offset
      · rw [FrameDecoder.extend, found] at extended
        dsimp only at extended
        rw [if_pos mismatch] at extended
        obtain rfl := Option.some.inj extended
        refine Handles.refused orderly (fun _ => ?_) fun opens => absurd opens notOpens
        rw [isSlot, Slot.take, if_neg notAbort, if_neg fits]
        dsimp only
        rw [if_neg later, if_pos mismatch]
      · have matching := mismatch
        push Not at matching
        obtain ⟨others, gone, result⟩ :=
          extend_tables extended found undrained matching.1 matching.2
        refine ⟨others, orderly.update others (Or.inr gone) ?_ (Or.inl ?_), fun _ => ?_,
          fun opens => absurd opens notOpens⟩
        · have before := orderly.underway fragment.id
          rw [isSlot] at before
          unfold Fragment.Exceeds at fits
          have length : (grown readings fragment frame).bytes.length =
              frame.bytes.length + fragment.payload.length := List.length_append
          split at result
          · rename_i continues
            rw [(Prod.mk.inj result).1]
            show 0 < (grown readings fragment frame).bytes.length ∧
              (grown readings fragment frame).bytes.length < frame.total
            have positive : 0 < frame.bytes.length := before.1
            push Not at fits
            omega
          · rw [(Prod.mk.inj result).1]
            trivial
        · rw [isSlot]
          intro isFree
          cases isFree
        · rw [result, isSlot, Slot.take, if_neg notAbort, if_neg fits]
          dsimp only
          rw [if_neg later, if_neg mismatch]

theorem Orderly.admitFragment (orderly : decoder.Orderly) (notAbort : ¬ fragment.Aborts)
    (fits : ¬ fragment.Exceeds) (undrained : decoder.discarded.lookup fragment.id = none)
    (first : fragment.offset = 0)
    (admitted : decoder.admitFragment codec readings fragment reserved = some answer) :
    Handles codec readings fragment decoder answer := by
  have bound : fragment.payload.length ≤ fragment.total := by
    unfold Fragment.Exceeds at fits
    push Not at fits
    omega
  have positive : 0 < fragment.payload.length := by
    unfold Fragment.Exceeds at fits
    push Not at fits
    exact List.length_pos_of_ne_nil fits.1
  unfold FrameDecoder.admitFragment at admitted
  by_cases crowded : fragment.id ∈ decoder.pending ∨
      size decoder.pending + size decoder.discarded ≥ maxInFlight
  · rw [if_pos crowded] at admitted
    obtain rfl := Option.some.inj admitted
    refine Handles.refused orderly (fun notOpens => ?_) fun _ => .crowded
    cases isSlot : decoder.slot fragment.id with
    | free => exact absurd ⟨isSlot, first, fits⟩ notOpens
    | draining discarded =>
        rw [(discarded_of_slot isSlot).2] at undrained
        cases undrained
    | assembling frame =>
        rw [Slot.take, if_neg notAbort, if_neg fits]
        exact (if_pos first).symm
  rw [if_neg crowded] at admitted
  rw [not_or] at crowded
  have absent : decoder.pending.lookup fragment.id = none := AList.lookup_eq_none.mpr crowded.1
  have free := slot_of_none absent undrained
  have opens : Slot.Opens fragment (decoder.slot fragment.id) := ⟨free, first, fits⟩
  by_cases whole : decoder.budget.member = true ∧ fragment.payload.length = fragment.total
  · rw [if_pos whole] at admitted
    obtain rfl := Option.some.inj admitted
    exact Handles.refused orderly (fun notOpens => absurd opens notOpens) fun _ => .whole whole.2
  rw [if_neg whole] at admitted
  cases claimed : decoder.claim fragment.total reserved with
  | ok granted =>
      rw [claimed] at admitted
      dsimp only at admitted
      obtain ⟨others, gone, result⟩ :=
        extend_tables admitted (AList.lookup_insert _) undrained rfl first.symm
      have apartFrom : ∀ other, other ≠ fragment.id →
          answer.1.1.pending.lookup other = decoder.pending.lookup other ∧
            answer.1.1.discarded.lookup other = decoder.discarded.lookup other := by
        intro other different
        obtain ⟨pending, discarded⟩ := others other different
        exact ⟨pending.trans (AList.lookup_insert_ne different), discarded⟩
      have roomy : size decoder.pending + size decoder.discarded < maxInFlight := by
        have := crowded.2
        omega
      have grownBytes : (grown readings fragment
          (⟨fragment.total, fragment.total, [], readings.admitted⟩ : Assembly)).bytes =
            fragment.payload := List.nil_append _
      have grownFrame : grown readings fragment
          (⟨fragment.total, fragment.total, [], readings.admitted⟩ : Assembly) =
            ⟨fragment.total, fragment.total, fragment.payload, readings.progressed⟩ := rfl
      refine ⟨apartFrom, orderly.update apartFrom (Or.inr gone) ?_ (Or.inr (Or.inr roomy)),
        fun notOpens => absurd opens notOpens, fun _ => ?_⟩
      · rw [grownBytes] at result
        split at result
        · rename_i continues
          rw [(Prod.mk.inj result).1]
          show 0 < fragment.payload.length ∧ fragment.payload.length < fragment.total
          omega
        · rw [(Prod.mk.inj result).1]
          trivial
      · rw [grownBytes] at result
        split at result
        · rename_i continues
          rw [(Prod.mk.inj result).1, (Prod.mk.inj result).2, grownFrame]
          exact .started (by omega)
        · rename_i complete
          rw [(Prod.mk.inj result).1, (Prod.mk.inj result).2]
          exact .whole (not_not.mp complete)
  | error error =>
      rw [claimed] at admitted
      dsimp only at admitted
      have isBusy : error = .busy := claim_error claimed
      subst isBusy
      by_cases rejects : DecodeError.busy = .busy ∧
          (decoder.budget.member = true ∨ decoder.pending.entries ≠ [])
      · rw [if_pos rejects] at admitted
        by_cases partly : fragment.payload.length < fragment.total
        · simp only [if_pos partly] at admitted
          obtain rfl := Option.some.inj admitted
          have draining : slot ⟨decoder.pending, decoder.discarded.insert fragment.id
              ⟨fragment.total, fragment.payload.length⟩, decoder.buffered, decoder.budget⟩
                fragment.id = .draining ⟨fragment.total, fragment.payload.length⟩ :=
            slot_of_discarded absent (AList.lookup_insert _)
          have others : ∀ other, other ≠ fragment.id →
              decoder.pending.lookup other = decoder.pending.lookup other ∧
                (decoder.discarded.insert fragment.id
                  ⟨fragment.total, fragment.payload.length⟩).lookup other =
                    decoder.discarded.lookup other :=
            fun other different => ⟨rfl, AList.lookup_insert_ne different⟩
          have roomy : size decoder.pending + size decoder.discarded < maxInFlight := by
            have := crowded.2
            omega
          refine ⟨others, orderly.update others (Or.inl absent) ?_ (Or.inr (Or.inr roomy)),
            fun notOpens => absurd opens notOpens, fun _ => ?_⟩
          · rw [draining]
            exact ⟨positive, partly⟩
          · dsimp only
            rw [draining]
            exact .rejected _ partly
        · simp only [if_neg partly] at admitted
          obtain rfl := Option.some.inj admitted
          exact Handles.refused orderly (fun notOpens => absurd opens notOpens) fun _ =>
            .rejectedWhole _ (by omega)
      · rw [if_neg rejects] at admitted
        obtain rfl := Option.some.inj admitted
        exact Handles.refused orderly (fun notOpens => absurd opens notOpens) fun _ => .busy

/-- Every checked packet does to its own transfer what it would do to it alone. -/
theorem Orderly.accept (orderly : decoder.Orderly)
    (accepted : decoder.accept codec readings fragment reserved = some answer) :
    Handles codec readings fragment decoder answer := by
  unfold FrameDecoder.accept at accepted
  by_cases aborts : fragment.Aborts
  · rw [if_pos aborts] at accepted
    exact orderly.abort aborts accepted
  rw [if_neg aborts] at accepted
  by_cases exceeds : fragment.Exceeds
  · rw [if_pos exceeds] at accepted
    obtain rfl := Option.some.inj accepted
    refine Handles.refused orderly (fun _ => ?_) fun opens => absurd exceeds opens.2.2
    unfold Slot.take
    rw [if_neg aborts, if_pos exceeds]
  rw [if_neg exceeds] at accepted
  cases found : decoder.discarded.lookup fragment.id with
  | some discarded =>
      rw [found] at accepted
      obtain rfl := Option.some.inj accepted
      exact orderly.drain aborts exceeds found
  | none =>
      rw [found] at accepted
      dsimp only at accepted
      by_cases first : fragment.offset = 0
      · rw [if_pos first] at accepted
        exact orderly.admitFragment aborts exceeds found first accepted
      · rw [if_neg first] at accepted
        exact orderly.extend aborts exceeds found first accepted

end FrameDecoder

end Cairn.Protocol.DataChannel

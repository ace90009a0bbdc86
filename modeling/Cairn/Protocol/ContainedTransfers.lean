import Cairn.Protocol.TransferSlots

/-!
Owns what becomes of rejected and expired transfers over runs of all decoders of
an installation: what a peer's events are to one transfer, the answers its packets
get, and that these are determined by the transfer's own slot. `transfers_contained`
is the main result.
-/

set_option autoImplicit false

namespace Cairn.Protocol.DataChannel

open Cairn.Library.HashMaps

/-! ### Events as one transfer sees them -/

/-- The readings of an expiry, and the packet of the transfer that came with it. -/
abbrev Sight := Readings × Option Fragment

/-- What a packet is to a transfer. -/
def sighted (id : UInt32) (packet : Bytes) : Option Fragment :=
  match fragment packet with
  | .ok fragment => if fragment.id = id then some fragment else none
  | .error _ => none

namespace Installation

/-- What an event is to a transfer of a peer. -/
def Event.sight (peer : Nat) (id : UInt32) : Event → Option Sight
  | .push other readings packet =>
      if other = peer then some (readings, sighted id packet) else none
  | .expire other readings => if other = peer then some (readings, none) else none
  | .connect _ _ => none
  | .disconnect _ => none

variable {Frame : Type} (codec : Codec Frame)

/-- What an event answers to a packet of a transfer. -/
def reply (peer : Nat) (id : UInt32) (installation : Installation) (event : Event) :
    List (Except DecodeError (Option Frame)) :=
  match event with
  | .push other readings packet =>
      if other = peer ∧ (sighted id packet).isSome then
        match installation.decoders.lookup peer with
        | none => []
        | some decoder =>
            match decoder.push codec readings packet installation.reserved with
            | none => []
            | some answer => [answer.2]
      else []
  | _ => []

/-- The answers to the packets of a transfer over a run. -/
def replies (peer : Nat) (id : UInt32) :
    Installation → List Event → List (Except DecodeError (Option Frame))
  | _, [] => []
  | installation, event :: events =>
      installation.reply codec peer id event ++
        match installation.step codec event with
        | none => []
        | some next => replies peer id next events

end Installation

namespace Slot

variable {Frame : Type} (codec : Codec Frame)

/-- What the own packets and expiries of a transfer make of its slot, up to its end,
with the answers to these packets. -/
def watch (id : UInt32) : Slot → List Sight → Slot × List (Except DecodeError (Option Frame))
  | slot, [] => (slot, [])
  | slot, (readings, arrived) :: sights =>
      if slot = .free then (.free, [])
      else
        match arrived with
        | none => watch id (slot.expire (readings.visited id)) sights
        | some fragment =>
            let taken := (slot.expire (readings.visited id)).take codec readings fragment
            let rest := watch id taken.1 sights
            (rest.1, taken.2 :: rest.2)

/-- What one event may do to a slot and answer. -/
inductive Turns (id : UInt32) : Option Sight → Slot → List (Except DecodeError (Option Frame)) →
    Slot → Prop where
  | unseen (slot : Slot) : Turns id none slot [] slot
  | quiet (readings : Readings) (slot : Slot) :
      Turns id (some (readings, none)) slot [] (slot.expire (readings.visited id))
  | taken (readings : Readings) (fragment : Fragment) (slot : Slot) :
      ¬ Opens fragment (slot.expire (readings.visited id)) →
      Turns id (some (readings, some fragment)) slot
        [((slot.expire (readings.visited id)).take codec readings fragment).2]
        ((slot.expire (readings.visited id)).take codec readings fragment).1
  | opened (readings : Readings) (fragment : Fragment) (slot next : Slot)
      (answer : Except DecodeError (Option Frame)) :
      Opens fragment (slot.expire (readings.visited id)) →
      Opened codec readings fragment next answer →
      Turns id (some (readings, some fragment)) slot [answer] next

theorem watch_free (id : UInt32) (sights : List Sight) :
    watch codec id .free sights = (.free, []) := by
  cases sights with
  | nil => rfl
  | cons sight sights =>
      obtain ⟨readings, _ | fragment⟩ := sight <;> exact if_pos rfl

theorem take_not_rejected (readings : Readings) (fragment : Fragment) (slot : Slot)
    (request : Option String) :
    (take codec readings fragment slot).2 ≠ .error (.rejected request) := by
  unfold take
  split
  · nofun
  · split
    · nofun
    · split
      · nofun
      · split
        · nofun
        · split <;> nofun
      · split
        · nofun
        · split
          · nofun
          · dsimp only
            split
            · nofun
            · unfold FrameDecoder.decoded
              split <;> nofun

theorem expire_eq_free {slot : Slot} {visited : Nat} : slot.expire visited = .free ↔ slot = .free := by
  cases slot with
  | free => exact Iff.rfl
  | draining discarded => exact Iff.rfl
  | assembling frame =>
      unfold expire
      dsimp only
      split <;> exact ⟨nofun, nofun⟩

end Slot

namespace Slot

variable {Frame : Type} {codec : Codec Frame}

/-- The slot has no bytes to dispatch. -/
def Empty : Slot → Prop
  | .assembling _ => False
  | _ => True

theorem Empty.expire {slot : Slot} (empty : slot.Empty) (visited : Nat) :
    slot.expire visited = slot := by
  cases slot with
  | free => rfl
  | draining discarded => rfl
  | assembling frame => exact empty.elim

variable (codec) in
/-- A packet that does not ask for a new transfer leaves an empty slot empty and
dispatches nothing. -/
theorem Empty.take {slot : Slot} (empty : slot.Empty) (readings : Readings) (fragment : Fragment) :
    (slot.take codec readings fragment).1.Empty ∧
      ∀ frame, (slot.take codec readings fragment).2 ≠ .ok (some frame) := by
  unfold Slot.take
  by_cases aborts : fragment.Aborts
  · rw [if_pos aborts]
    exact ⟨trivial, nofun⟩
  rw [if_neg aborts]
  by_cases exceeds : fragment.Exceeds
  · rw [if_pos exceeds]
    exact ⟨empty, nofun⟩
  rw [if_neg exceeds]
  cases slot with
  | free => exact ⟨trivial, nofun⟩
  | assembling frame => exact empty.elim
  | draining discarded =>
      dsimp only
      split
      · exact ⟨trivial, nofun⟩
      · split
        · exact ⟨trivial, nofun⟩
        · exact ⟨trivial, nofun⟩

end Slot

/-! ### Draining -/

namespace Slot

variable {Frame : Type} {codec : Codec Frame} {id : UInt32}

/-- The fragment ends a transfer that is drained: an abort, or its last bytes. -/
def Ends (discarded : Discarded) (fragment : Fragment) : Prop :=
  fragment.Aborts ∨ (fragment.total = discarded.total ∧ discarded.received ≤ fragment.offset ∧
    fragment.offset + fragment.payload.length = discarded.total)

variable (codec) in
/-- A packet of a transfer that is drained dispatches nothing, and only its last one or
an abort frees the id. -/
theorem take_draining (readings : Readings) (discarded : Discarded) (fragment : Fragment) :
    (∀ frame, (take codec readings fragment (.draining discarded)).2 ≠ .ok (some frame)) ∧
    (((take codec readings fragment (.draining discarded)).1 = .free ∧
        Ends discarded fragment) ∨
      ∃ further, (take codec readings fragment (.draining discarded)).1 = .draining further ∧
        further.total = discarded.total ∧ discarded.received ≤ further.received) := by
  refine ⟨((show (Slot.draining discarded).Empty from trivial).take codec readings fragment).2, ?_⟩
  unfold take
  by_cases aborts : fragment.Aborts
  · rw [if_pos aborts]
    exact Or.inl ⟨rfl, Or.inl aborts⟩
  rw [if_neg aborts]
  by_cases exceeds : fragment.Exceeds
  · rw [if_pos exceeds]
    exact Or.inr ⟨discarded, rfl, rfl, Nat.le_refl _⟩
  rw [if_neg exceeds]
  dsimp only
  by_cases mismatch : discarded.total ≠ fragment.total ∨ discarded.received ≠ fragment.offset
  · rw [if_pos mismatch]
    exact Or.inr ⟨discarded, rfl, rfl, Nat.le_refl _⟩
  rw [if_neg mismatch]
  push Not at mismatch
  by_cases last : discarded.received + fragment.payload.length = fragment.total
  · rw [if_pos last]
    exact Or.inl ⟨rfl, Or.inr ⟨mismatch.1.symm, Nat.le_of_eq mismatch.2, by omega⟩⟩
  · rw [if_neg last]
    exact Or.inr ⟨_, rfl, rfl, Nat.le_add_right _ _⟩

variable (codec id) in
/-- A transfer that is drained dispatches nothing until it has ended. -/
theorem watch_draining (discarded : Discarded) (sights : List Sight) :
    (∀ answer ∈ (watch codec id (.draining discarded) sights).2, ∀ frame,
      answer ≠ .ok (some frame)) ∧
    (((watch codec id (.draining discarded) sights).1 = .free ∧
        ∃ sight ∈ sights, ∃ fragment, sight.2 = some fragment ∧ Ends discarded fragment) ∨
      ∃ further, (watch codec id (.draining discarded) sights).1 = .draining further ∧
        further.total = discarded.total ∧ discarded.received ≤ further.received) := by
  induction sights generalizing discarded with
  | nil => exact ⟨nofun, Or.inr ⟨discarded, rfl, rfl, Nat.le_refl _⟩⟩
  | cons sight sights inductionHypothesis =>
      obtain ⟨readings, arrived⟩ := sight
      cases arrived with
      | none =>
          rw [watch, if_neg nofun]
          obtain ⟨silent, ends⟩ := inductionHypothesis discarded
          refine ⟨silent, ends.imp_left fun freed => ⟨freed.1, ?_⟩⟩
          obtain ⟨sight, member, found⟩ := freed.2
          exact ⟨sight, List.mem_cons_of_mem _ member, found⟩
      | some fragment =>
          rw [watch, if_neg nofun]
          obtain ⟨silent, ends⟩ := take_draining codec readings discarded fragment
          dsimp only
          rcases ends with ⟨freed, ends⟩ | ⟨further, isFurther, total, received⟩
          · have freedHere : (take codec readings fragment
                (Slot.expire (readings.visited id) (.draining discarded))).1 = .free := freed
            rw [freedHere, watch_free]
            refine ⟨fun answer member => ?_, Or.inl ⟨rfl, (readings, some fragment), by simp,
              fragment, rfl, ends⟩⟩
            rw [List.mem_singleton.mp member]
            exact silent
          · have furtherHere : (take codec readings fragment
                (Slot.expire (readings.visited id) (.draining discarded))).1 =
                  .draining further := isFurther
            rw [furtherHere]
            obtain ⟨silentLater, endsLater⟩ := inductionHypothesis further
            refine ⟨fun answer member => ?_, ?_⟩
            · rcases List.mem_cons.mp member with now | later
              · rw [now]
                exact silent
              · exact silentLater answer later
            · rcases endsLater with ⟨freed, sight, member, last, isLast, ends⟩ | continues
              · refine Or.inl ⟨freed, sight, List.mem_cons_of_mem _ member, last, isLast, ?_⟩
                refine ends.imp_right fun ended => ?_
                rw [total] at ended
                exact ⟨ended.1, Nat.le_trans received ended.2.1, ended.2.2⟩
              · obtain ⟨final, isFinal, totalFinal, receivedFinal⟩ := continues
                exact Or.inr ⟨final, isFinal, totalFinal.trans total,
                  Nat.le_trans received receivedFinal⟩

/-- The fragments that a transfer still has to send, in order. -/
def Remaining (total : Nat) : Nat → List Fragment → Prop
  | _, [] => True
  | received, fragment :: fragments =>
      fragment.total = total ∧ fragment.offset = received ∧ ¬ fragment.Exceeds ∧
        Remaining total (received + fragment.payload.length) fragments

/-- The bytes of a list of fragments. -/
def bytesOf (fragments : List Fragment) : Nat :=
  (fragments.map fun fragment => fragment.payload.length).sum

theorem remaining_full {total : Nat} {fragments : List Fragment}
    (remaining : Remaining total total fragments) : fragments = [] := by
  cases fragments with
  | nil => rfl
  | cons fragment fragments =>
      obtain ⟨isTotal, offset, fits, _⟩ := remaining
      unfold Fragment.Exceeds at fits
      push Not at fits
      have positive := List.length_pos_of_ne_nil fits.1
      omega

/-- What a transfer that is drained still sends is consumed without an answer, and
the id is free when all of it has come. -/
theorem watch_remaining {total received : Nat} {sights : List Sight}
    (unended : received < total)
    (remaining : Remaining total received (sights.filterMap Prod.snd)) :
    watch codec id (.draining ⟨total, received⟩) sights =
      (if received + bytesOf (sights.filterMap Prod.snd) = total then .free
        else .draining ⟨total, received + bytesOf (sights.filterMap Prod.snd)⟩,
        (sights.filterMap Prod.snd).map fun _ => .ok none) := by
  induction sights generalizing received with
  | nil =>
      have partly : ¬ received + bytesOf ([] : List Fragment) = total := by
        show ¬ received + 0 = total
        omega
      show (_, _) = (if received + bytesOf [] = total then _ else _, _)
      rw [if_neg partly]
      rfl
  | cons sight sights inductionHypothesis =>
      obtain ⟨readings, arrived⟩ := sight
      cases arrived with
      | none =>
          rw [watch, if_neg nofun]
          exact inductionHypothesis unended remaining
      | some fragment =>
          obtain ⟨isTotal, offset, fits, remaining⟩ := remaining
          have notAbort : ¬ fragment.Aborts := fun aborts => fits (Or.inl aborts.2.2)
          have matching : ¬ ((⟨total, received⟩ : Discarded).total ≠ fragment.total ∨
              (⟨total, received⟩ : Discarded).received ≠ fragment.offset) := by
            rw [not_or, not_not, not_not]
            exact ⟨isTotal.symm, offset.symm⟩
          have taken : take codec readings fragment
              (Slot.expire (readings.visited id) (.draining ⟨total, received⟩)) =
              if received + fragment.payload.length = fragment.total then (.free, .ok none)
              else (.draining ⟨total, received + fragment.payload.length⟩, .ok none) := by
            show take codec readings fragment (.draining ⟨total, received⟩) = _
            rw [take, if_neg notAbort, if_neg fits]
            exact if_neg matching
          have bytes : bytesOf (fragment :: sights.filterMap Prod.snd) =
              fragment.payload.length + bytesOf (sights.filterMap Prod.snd) := by
            simp [bytesOf]
          have listed : ((readings, some fragment) :: sights).filterMap Prod.snd =
              fragment :: sights.filterMap Prod.snd := rfl
          rw [watch, if_neg nofun, listed, bytes, taken]
          by_cases last : received + fragment.payload.length = fragment.total
          · have nothing : sights.filterMap Prod.snd = [] := by
              rw [last, isTotal] at remaining
              exact remaining_full remaining
            simp only [if_pos last, watch_free, nothing, List.map_cons, List.map_nil]
            have whole : received + (fragment.payload.length + bytesOf []) = total := by
              show received + (fragment.payload.length + 0) = total
              omega
            rw [if_pos whole]
          · have further : received + fragment.payload.length < total := by
              unfold Fragment.Exceeds at fits
              push Not at fits
              omega
            simp only [if_neg last, inductionHypothesis further remaining, List.map_cons,
              Nat.add_assoc]

end Slot

/-! ### One event -/

namespace FrameDecoder

variable {Frame : Type} {codec : Codec Frame} {decoder : FrameDecoder} {readings : Readings}
  {reserved : Reservations} {packet : Bytes} {answer : Answer Frame}

/-- A call of a decoder after its expiry. -/
theorem push_eq_some (pushed : decoder.push codec readings packet reserved = some answer) :
    ∃ expired, decoder.expire readings reserved = some expired ∧
      match fragment packet with
      | .error error => answer = (expired, .error error)
      | .ok fragment => expired.1.accept codec readings fragment expired.2 = some answer := by
  obtain ⟨expired, isExpired, accepted⟩ := Option.bind_eq_some_iff.mp pushed
  refine ⟨expired, isExpired, ?_⟩
  cases isFragment : fragment packet with
  | error error =>
      rw [isFragment] at accepted
      exact (Option.some.inj accepted).symm
  | ok fragment =>
      rw [isFragment] at accepted
      exact accepted

theorem decoded_not_busy (bytes : Bytes) : decoded codec bytes ≠ .error .busy := by
  unfold decoded
  split <;> nofun

theorem extend_not_busy {fragment : Fragment}
    (extended : decoder.extend codec readings fragment reserved = some answer) :
    answer.2 ≠ .error .busy := by
  unfold extend at extended
  split at extended
  · obtain rfl := Option.some.inj extended
    nofun
  · dsimp only at extended
    split at extended
    · obtain rfl := Option.some.inj extended
      nofun
    · split at extended
      · obtain rfl := Option.some.inj extended
        nofun
      · obtain ⟨state, _, answered⟩ := Option.bind_eq_some_iff.mp extended
        obtain rfl := Option.some.inj answered
        exact decoded_not_busy _

/-- A busy answer changes nothing. -/
theorem admitFragment_busy {fragment : Fragment}
    (admitted : decoder.admitFragment codec readings fragment reserved = some answer)
    (busy : answer.2 = .error .busy) : answer.1 = (decoder, reserved) := by
  unfold admitFragment at admitted
  split at admitted
  · obtain rfl := Option.some.inj admitted
    cases busy
  · split at admitted
    · obtain rfl := Option.some.inj admitted
      exact absurd busy (decoded_not_busy _)
    · split at admitted
      · exact absurd busy (extend_not_busy admitted)
      · split at admitted
        · obtain rfl := Option.some.inj admitted
          cases busy
        · obtain rfl := Option.some.inj admitted
          rfl

theorem accept_busy {fragment : Fragment}
    (accepted : decoder.accept codec readings fragment reserved = some answer)
    (busy : answer.2 = .error .busy) : answer.1 = (decoder, reserved) := by
  unfold accept at accepted
  split at accepted
  · rw [(abort_tables accepted).1] at busy
    cases busy
  · split at accepted
    · obtain rfl := Option.some.inj accepted
      cases busy
    · split at accepted
      · obtain rfl := Option.some.inj accepted
        unfold drain at busy
        split at busy <;> cases busy
      · split at accepted
        · exact admitFragment_busy accepted busy
        · exact absurd busy (extend_not_busy accepted)

theorem Orderly.push (orderly : decoder.Orderly)
    (pushed : decoder.push codec readings packet reserved = some answer) :
    answer.1.1.Orderly := by
  obtain ⟨expired, isExpired, accepted⟩ := push_eq_some pushed
  have orderlyExpired := orderly.expire isExpired
  split at accepted
  · rw [accepted]
    exact orderlyExpired
  · exact (orderlyExpired.accept accepted).orderly

/-- A call leaves the slots of all other ids as its expiry left them. -/
theorem Orderly.push_others (orderly : decoder.Orderly)
    (pushed : decoder.push codec readings packet reserved = some answer) {id : UInt32}
    (unseen : sighted id packet = none) :
    answer.1.1.slot id = (decoder.slot id).expire (readings.visited id) := by
  obtain ⟨expired, isExpired, accepted⟩ := push_eq_some pushed
  rw [← slot_expire isExpired]
  unfold sighted at unseen
  split at accepted
  · rw [accepted]
  · rename_i fragment isFragment
    rw [isFragment] at unseen
    have different : id ≠ fragment.id := fun same => by
      dsimp only at unseen
      rw [if_pos same.symm] at unseen
      cases unseen
    obtain ⟨pending, discarded⟩ :=
      ((orderly.expire isExpired).accept accepted).others id different
    exact slot_congr pending discarded

/-- What a call does to the transfer of its packet. -/
theorem Orderly.push_own (orderly : decoder.Orderly)
    (pushed : decoder.push codec readings packet reserved = some answer) {id : UInt32}
    {own : Fragment} (seen : sighted id packet = some own) :
    Slot.Turns codec id (some (readings, some own)) (decoder.slot id) [answer.2]
      (answer.1.1.slot id) := by
  obtain ⟨expired, isExpired, accepted⟩ := push_eq_some pushed
  unfold sighted at seen
  cases isFragment : fragment packet with
  | error error =>
      rw [isFragment] at seen
      cases seen
  | ok fragment =>
      rw [isFragment] at seen accepted
      dsimp only at seen accepted
      split at seen
      · rename_i same
        obtain rfl := Option.some.inj seen
        subst same
        have handles := (orderly.expire isExpired).accept accepted
        have before := slot_expire isExpired fragment.id
        by_cases opens : Slot.Opens fragment (expired.1.slot fragment.id)
        · exact .opened _ _ _ _ _ (before ▸ opens) (handles.opened opens)
        · have taken := handles.taken opens
          have turns := @Slot.Turns.taken _ codec _ readings fragment
            (decoder.slot fragment.id) (before ▸ opens)
          rw [← before, ← taken] at turns
          exact turns
      · cases seen

end FrameDecoder

namespace Installation

variable {Frame : Type} {codec : Codec Frame} {installation next : Installation} {peer : Nat}
  {decoder : FrameDecoder}

/-- Every decoder of the installation has its tables in order. -/
def Orderly (installation : Installation) : Prop :=
  ∀ peer decoder, installation.decoders.lookup peer = some decoder → decoder.Orderly

theorem Orderly.initial : initial.Orderly := fun peer decoder found => by
  simp [Installation.initial] at found

theorem Orderly.update (orderly : installation.Orderly) {state : FrameDecoder × Reservations}
    (stateOrderly : state.1.Orderly) : (installation.update peer state).Orderly := by
  intro other decoder found
  simp only [Installation.update, lookup_insert] at found
  split at found
  · exact Option.some.inj found ▸ stateOrderly
  · exact orderly other decoder found

theorem Orderly.step (orderly : installation.Orderly) {event : Event}
    (stepped : installation.step codec event = some next) : next.Orderly := by
  cases event with
  | connect peer budget =>
      simp only [Installation.step] at stepped
      split at stepped
      · exact Option.some.inj stepped ▸ orderly
      · obtain rfl := Option.some.inj stepped
        exact @Orderly.update _ _ orderly (FrameDecoder.withBudget budget, installation.reserved)
          (FrameDecoder.Orderly.initial budget)
  | push peer readings packet =>
      simp only [Installation.step] at stepped
      split at stepped
      · exact Option.some.inj stepped ▸ orderly
      · rename_i decoder found
        obtain ⟨answer, pushed, updated⟩ := Option.bind_eq_some_iff.mp stepped
        obtain rfl := Option.some.inj updated
        exact orderly.update ((orderly peer decoder found).push pushed)
  | expire peer readings =>
      simp only [Installation.step] at stepped
      split at stepped
      · exact Option.some.inj stepped ▸ orderly
      · rename_i decoder found
        obtain ⟨state, expired, updated⟩ := Option.bind_eq_some_iff.mp stepped
        obtain rfl := Option.some.inj updated
        exact orderly.update ((orderly peer decoder found).expire expired)
  | disconnect peer =>
      simp only [Installation.step] at stepped
      split at stepped
      · exact Option.some.inj stepped ▸ orderly
      · obtain ⟨reserved, _, erased⟩ := Option.bind_eq_some_iff.mp stepped
        obtain rfl := Option.some.inj erased
        intro other decoder found
        exact orderly other decoder (lookup_of_erase found).2

/-- While its channel stays open, an event turns the slot of a transfer as its own
packets and expiries do. -/
theorem Orderly.turns (orderly : installation.Orderly)
    (found : installation.decoders.lookup peer = some decoder) {event : Event}
    (open' : event ≠ .disconnect peer) (stepped : installation.step codec event = some next)
    (id : UInt32) :
    ∃ after, next.decoders.lookup peer = some after ∧
      Slot.Turns codec id (event.sight peer id) (decoder.slot id)
        (installation.reply codec peer id event) (after.slot id) := by
  cases event with
  | connect other budget =>
      refine ⟨decoder, ?_, .unseen _⟩
      simp only [Installation.step] at stepped
      split at stepped
      · exact Option.some.inj stepped ▸ found
      · rename_i absent
        obtain rfl := Option.some.inj stepped
        have different : peer ≠ other := fun same => by
          subst same
          rw [AList.lookup_eq_none.mpr absent] at found
          cases found
        exact (AList.lookup_insert_ne different).trans found
  | push other readings packet =>
      simp only [Installation.step] at stepped
      by_cases same : other = peer
      · subst same
        rw [found] at stepped
        obtain ⟨answer, pushed, updated⟩ := Option.bind_eq_some_iff.mp stepped
        obtain rfl := Option.some.inj updated
        refine ⟨answer.1.1, AList.lookup_insert _, ?_⟩
        dsimp only [Event.sight, reply]
        rw [if_pos rfl, found]
        cases seen : sighted id packet with
        | none =>
            rw [(orderly other decoder found).push_others pushed seen, if_neg (by simp)]
            exact .quiet _ _
        | some own =>
            dsimp only
            rw [pushed, if_pos ⟨rfl, rfl⟩]
            exact (orderly other decoder found).push_own pushed seen
      · refine ⟨decoder, ?_, ?_⟩
        · split at stepped
          · exact Option.some.inj stepped ▸ found
          · obtain ⟨answer, _, updated⟩ := Option.bind_eq_some_iff.mp stepped
            obtain rfl := Option.some.inj updated
            exact (AList.lookup_insert_ne (Ne.symm same)).trans found
        · dsimp only [Event.sight, reply]
          rw [if_neg same, if_neg fun both => same both.1]
          exact .unseen _
  | expire other readings =>
      simp only [Installation.step] at stepped
      by_cases same : other = peer
      · subst same
        rw [found] at stepped
        obtain ⟨state, expired, updated⟩ := Option.bind_eq_some_iff.mp stepped
        obtain rfl := Option.some.inj updated
        refine ⟨state.1, AList.lookup_insert _, ?_⟩
        dsimp only [Event.sight, reply]
        rw [if_pos rfl, FrameDecoder.slot_expire expired]
        exact .quiet _ _
      · refine ⟨decoder, ?_, ?_⟩
        · split at stepped
          · exact Option.some.inj stepped ▸ found
          · obtain ⟨state, _, updated⟩ := Option.bind_eq_some_iff.mp stepped
            obtain rfl := Option.some.inj updated
            exact (AList.lookup_insert_ne (Ne.symm same)).trans found
        · dsimp only [Event.sight, reply]
          rw [if_neg same]
          exact .unseen _
  | disconnect other =>
      refine ⟨decoder, ?_, .unseen _⟩
      have different : peer ≠ other := fun same => open' (same ▸ rfl)
      simp only [Installation.step] at stepped
      split at stepped
      · exact Option.some.inj stepped ▸ found
      · obtain ⟨reserved, _, erased⟩ := Option.bind_eq_some_iff.mp stepped
        obtain rfl := Option.some.inj erased
        exact (AList.lookup_erase_ne different).trans found

/-! ### Runs -/

/-- A sequence of turns of one slot, with the answers to its packets. -/
inductive Turned (codec : Codec Frame) (id : UInt32) :
    Slot → List Sight → List (Except DecodeError (Option Frame)) → Slot → Prop where
  | stays (slot : Slot) : Turned codec id slot [] [] slot
  | turns {slot middle final : Slot} {sight : Sight} {sights : List Sight}
      {replies rest : List (Except DecodeError (Option Frame))} :
      Slot.Turns codec id (some sight) slot replies middle →
      Turned codec id middle sights rest final →
      Turned codec id slot (sight :: sights) (replies ++ rest) final

/-- A run turns the slot of a transfer at each event that it sees. -/
theorem Orderly.turned (orderly : installation.Orderly)
    (found : installation.decoders.lookup peer = some decoder) {later : List Event}
    (open' : ∀ event ∈ later, event ≠ .disconnect peer)
    (ran : run codec installation later = some next) (id : UInt32) :
    ∃ after, next.decoders.lookup peer = some after ∧
      Turned codec id (decoder.slot id) (later.filterMap (Event.sight peer id))
        (installation.replies codec peer id later) (after.slot id) := by
  induction later generalizing installation decoder with
  | nil =>
      obtain rfl := Option.some.inj ran
      exact ⟨decoder, found, .stays _⟩
  | cons event later inductionHypothesis =>
      rw [run, List.foldlM_cons] at ran
      obtain ⟨middle, stepped, ran⟩ := Option.bind_eq_some_iff.mp ran
      obtain ⟨between, foundBetween, turns⟩ :=
        orderly.turns found (open' event (by simp)) stepped id
      obtain ⟨after, foundAfter, turned⟩ := inductionHypothesis (orderly.step stepped) foundBetween
        (fun event member => open' event (by simp [member])) ran
      refine ⟨after, foundAfter, ?_⟩
      rw [replies, stepped]
      cases isSight : event.sight peer id with
      | none =>
          rw [isSight] at turns
          rw [List.filterMap_cons_none isSight]
          generalize installation.reply codec peer id event = answered at turns
          generalize decoder.slot id = before at turns
          generalize isBetween : between.slot id = afterwards at turns
          cases turns
          exact isBetween ▸ turned
      | some sight =>
          rw [isSight] at turns
          rw [List.filterMap_cons_some isSight]
          exact .turns turns turned

/-! ### What a sequence of turns can do -/

variable {id : UInt32} {slot final : Slot} {sights : List Sight}
  {answers : List (Except DecodeError (Option Frame))}

/-- Up to its end, a transfer gets what its own packets and expiries determine. -/
theorem Turned.watched (turned : Turned codec id slot sights answers final) :
    (Slot.watch codec id slot sights).2 <+: answers ∧
      ((Slot.watch codec id slot sights).1 ≠ .free →
        final = (Slot.watch codec id slot sights).1 ∧
          answers = (Slot.watch codec id slot sights).2) := by
  induction turned with
  | stays slot => exact ⟨List.nil_prefix, fun _ => ⟨rfl, rfl⟩⟩
  | @turns slot middle final sight sights replies rest turn turned inductionHypothesis =>
      obtain ⟨readings, arrived⟩ := sight
      by_cases isFree : slot = .free
      · subst isFree
        rw [Slot.watch_free]
        exact ⟨List.nil_prefix, fun busy => absurd rfl busy⟩
      cases turn with
      | quiet =>
          rw [Slot.watch, if_neg isFree]
          exact inductionHypothesis
      | taken _ fragment _ notOpens =>
          obtain ⟨begins, follows⟩ := inductionHypothesis
          rw [Slot.watch, if_neg isFree]
          refine ⟨List.cons_prefix_cons.mpr ⟨rfl, begins⟩, fun busy => ?_⟩
          obtain ⟨ends, same⟩ := follows busy
          exact ⟨ends, congrArg (List.cons _) same⟩
      | opened _ fragment _ _ answer opens _ =>
          exact absurd (Slot.expire_eq_free.mp opens.1) isFree

/-- Of a transfer that has no bytes here, no packet after the first dispatches anything. -/
theorem Turned.silent (turned : Turned codec id slot sights answers final) (empty : slot.Empty)
    (rest : ∀ sight ∈ sights, ∀ fragment, sight.2 = some fragment →
      fragment.offset ≠ 0 ∨ fragment.Aborts) :
    ∀ answer ∈ answers, ∀ frame, answer ≠ .ok (some frame) := by
  induction turned with
  | stays slot => nofun
  | @turns slot middle final sight sights replies others turn turned inductionHypothesis =>
      obtain ⟨readings, arrived⟩ := sight
      have restLater : ∀ sight ∈ sights, ∀ fragment, sight.2 = some fragment →
          fragment.offset ≠ 0 ∨ fragment.Aborts := fun sight member => rest sight (by simp [member])
      cases turn with
      | quiet =>
          refine inductionHypothesis ?_ restLater
          rw [empty.expire]
          exact empty
      | taken _ fragment _ _ =>
          rw [empty.expire] at inductionHypothesis ⊢
          obtain ⟨stillEmpty, silent⟩ := empty.take codec readings fragment
          intro answer member
          rcases List.mem_append.mp member with now | later
          · rw [List.mem_singleton.mp now]
            exact silent
          · exact inductionHypothesis stillEmpty restLater answer later
      | opened _ fragment _ _ answer opens _ =>
          obtain ⟨_, first, fits⟩ := opens
          rcases rest (readings, some fragment) (by simp) fragment rfl with later | aborts
          · exact absurd first later
          · exact absurd (Or.inl aborts.2.2) fits

/-! ### Containment -/

/-- What holds of a connected decoder whatever comes next on its channel. -/
structure Contained (codec : Codec Frame) (installation : Installation) (peer : Nat)
    (decoder : FrameDecoder) : Prop where
  /-- The counter is the sum of the buffers. -/
  buffered : decoder.buffered = sum (fun frame => frame.bytes.length) decoder.pending
  /-- No id is counted twice, and there are never too many. -/
  room : size decoder.pending + size decoder.discarded ≤ maxInFlight ∧
    ∀ id, id ∈ decoder.pending → id ∉ decoder.discarded
  /-- A busy packet does what an expiry does, and nothing else: whatever comes later
  finds the state it would have found. -/
  busy : ∀ readings packet answer,
    decoder.push codec readings packet installation.reserved = some answer →
      answer.2 = .error .busy →
        decoder.expire readings installation.reserved = some answer.1 ∧
        installation.step codec (.push peer readings packet) =
          installation.step codec (.expire peer readings)
  /-- A rejected transfer is drained from its first fragment on. -/
  rejected : ∀ readings packet answer request,
    decoder.push codec readings packet installation.reserved = some answer →
      answer.2 = .error (.rejected request) → ∃ first, fragment packet = .ok first ∧
        answer.1.1.slot first.id =
          if first.payload.length < first.total then
            .draining ⟨first.total, first.payload.length⟩
          else .free
  /-- An expiry drains the overdue transfers from where they are. -/
  expired : ∀ readings state, decoder.expire readings installation.reserved = some state →
    ∀ id, state.1.slot id = (decoder.slot id).expire (readings.visited id)
  /-- A packet leaves the other transfers as its expiry leaves them. -/
  others : ∀ readings packet answer,
    decoder.push codec readings packet installation.reserved = some answer →
      ∀ id, sighted id packet = none →
        answer.1.1.slot id = (decoder.slot id).expire (readings.visited id)
  /-- Over any run, a transfer gets up to its end what its own packets and expiries
  determine. -/
  unchanged : ∀ later next, (∀ event ∈ later, event ≠ .disconnect peer) →
    run codec installation later = some next → ∀ id,
      let watched := Slot.watch codec id (decoder.slot id)
        (later.filterMap (Event.sight peer id))
      watched.2 <+: installation.replies codec peer id later ∧
        (watched.1 ≠ .free →
          installation.replies codec peer id later = watched.2 ∧
          ∃ after, next.decoders.lookup peer = some after ∧ after.slot id = watched.1)
  /-- A transfer that is drained dispatches nothing, whatever its id receives, until an
  abort or its last bytes. -/
  drained : ∀ id discarded, decoder.slot id = .draining discarded → ∀ sights : List Sight,
    (∀ answer ∈ (Slot.watch codec id (.draining discarded) sights).2, ∀ frame,
      answer ≠ .ok (some frame)) ∧
    ((Slot.watch codec id (.draining discarded) sights).1 = .free →
      ∃ sight ∈ sights, ∃ fragment, sight.2 = some fragment ∧ Slot.Ends discarded fragment)
  /-- Its remaining fragments are consumed without an answer, and then its id is free. -/
  consumed : ∀ id discarded, decoder.slot id = .draining discarded → ∀ sights : List Sight,
    Slot.Remaining discarded.total discarded.received (sights.filterMap Prod.snd) →
      Slot.watch codec id (.draining discarded) sights =
        (if discarded.received + Slot.bytesOf (sights.filterMap Prod.snd) = discarded.total then
          .free
        else .draining ⟨discarded.total,
          discarded.received + Slot.bytesOf (sights.filterMap Prod.snd)⟩,
        (sights.filterMap Prod.snd).map fun _ => .ok none)
  /-- Nothing after the first fragment of a transfer that has no bytes here is ever
  dispatched, in any order and after any abort. -/
  suffix : ∀ id, (∀ frame, decoder.slot id ≠ .assembling frame) → ∀ later next,
    (∀ event ∈ later, event ≠ .disconnect peer) → run codec installation later = some next →
      (∀ sight ∈ later.filterMap (Event.sight peer id), ∀ fragment, sight.2 = some fragment →
        fragment.offset ≠ 0 ∨ fragment.Aborts) →
      ∀ answer ∈ installation.replies codec peer id later, ∀ frame, answer ≠ .ok (some frame)

/-- A busy answer leaves the decoder as the expiry left it. -/
theorem busy_eq_expire {readings : Readings} {packet : Bytes} {reserved : Reservations}
    {answer : FrameDecoder.Answer Frame}
    (pushed : decoder.push codec readings packet reserved = some answer)
    (busy : answer.2 = .error .busy) : decoder.expire readings reserved = some answer.1 := by
  obtain ⟨expired, isExpired, accepted⟩ := FrameDecoder.push_eq_some pushed
  split at accepted
  · rename_i error _
    rw [accepted, isExpired]
  · rw [isExpired, FrameDecoder.accept_busy accepted busy]

/-- A rejection is an answer to a first fragment, and leaves its id drained. -/
theorem slot_of_rejected {readings : Readings} {packet : Bytes} {reserved : Reservations}
    {answer : FrameDecoder.Answer Frame} {request : Option String} (orderly : decoder.Orderly)
    (pushed : decoder.push codec readings packet reserved = some answer)
    (isRejected : answer.2 = .error (.rejected request)) :
    ∃ first, fragment packet = .ok first ∧ answer.1.1.slot first.id =
      if first.payload.length < first.total then
        .draining ⟨first.total, first.payload.length⟩
      else .free := by
  obtain ⟨expired, isExpired, accepted⟩ := FrameDecoder.push_eq_some pushed
  split at accepted
  · rename_i error isError
    rw [accepted] at isRejected
    have isRejection : error = .rejected request := Except.error.inj isRejected
    rw [isRejection] at isError
    unfold fragment at isError
    split at isError
    · cases isError
    · dsimp only at isError
      split at isError <;> cases isError
  · rename_i first isFirst
    refine ⟨first, isFirst, ?_⟩
    have handles := (orderly.expire isExpired).accept accepted
    by_cases opens : Slot.Opens first (expired.1.slot first.id)
    · have opened := handles.opened opens
      rw [isRejected] at opened
      generalize answer.1.1.slot first.id = after at opened
      generalize isAnswer : (Except.error (.rejected request) :
        Except DecodeError (Option Frame)) = result at opened
      cases opened with
      | crowded => cases isAnswer
      | whole ends =>
          unfold FrameDecoder.decoded at isAnswer
          split at isAnswer <;> cases isAnswer
      | started continues => cases isAnswer
      | rejectedWhole _ ends => rw [if_neg (by omega)]
      | rejected _ continues => rw [if_pos continues]
      | busy => cases isAnswer
    · have taken := congrArg Prod.snd (handles.taken opens)
      dsimp only at taken
      rw [isRejected] at taken
      exact absurd taken.symm (Slot.take_not_rejected _ _ _ _ _)

theorem Orderly.contained (orderly : installation.Orderly) (sound : installation.Sound)
    (found : installation.decoders.lookup peer = some decoder) :
    Contained codec installation peer decoder where
  buffered := (sound.decoders peer decoder found).buffered
  room := by
    refine ⟨(orderly peer decoder found).room, fun id inPending inDiscarded => ?_⟩
    obtain ⟨frame, stored⟩ := Option.isSome_iff_exists.mp (AList.lookup_isSome.mpr inPending)
    have drained := AList.lookup_isSome.mpr inDiscarded
    rw [(orderly peer decoder found).apart id frame stored] at drained
    cases drained
  busy := fun readings packet answer pushed busy => by
    have expired := busy_eq_expire pushed busy
    refine ⟨expired, ?_⟩
    simp only [Installation.step, found, pushed, expired, Option.bind_eq_bind, Option.bind_some]
  rejected := fun readings packet answer request pushed isRejected =>
    slot_of_rejected (orderly peer decoder found) pushed isRejected
  expired := fun readings state expired id => FrameDecoder.slot_expire expired id
  others := fun readings packet answer pushed id unseen =>
    (orderly peer decoder found).push_others pushed unseen
  unchanged := fun later next open' ran id => by
    obtain ⟨after, foundAfter, turned⟩ := orderly.turned found open' ran id
    obtain ⟨begins, follows⟩ := turned.watched
    refine ⟨begins, fun busy => ?_⟩
    obtain ⟨ends, same⟩ := follows busy
    exact ⟨same, after, foundAfter, ends⟩
  drained := fun id discarded _ sights => by
    obtain ⟨silent, ends⟩ := Slot.watch_draining codec id discarded sights
    refine ⟨silent, fun freed => ?_⟩
    rcases ends with ended | ⟨further, isFurther, _⟩
    · exact ended.2
    · rw [freed] at isFurther
      cases isFurther
  consumed := fun id discarded isSlot sights remaining => by
    have underway := (orderly peer decoder found).underway id
    rw [isSlot] at underway
    exact Slot.watch_remaining underway.2 remaining
  suffix := fun id absent later next open' ran rest => by
    obtain ⟨after, foundAfter, turned⟩ := orderly.turned found open' ran id
    refine turned.silent ?_ rest
    cases isSlot : decoder.slot id with
    | free => trivial
    | draining discarded => trivial
    | assembling frame => exact absurd isSlot (absent frame)

end Installation

end Cairn.Protocol.DataChannel

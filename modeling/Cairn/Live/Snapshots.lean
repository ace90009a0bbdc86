import Mathlib.Data.List.Induction
import Cairn.Live.TextDeltas

/-!
Owns what a sequence of stored events says about its messages: which snapshot of a message is
the latest of its turn, and which text of it was last written.

Does not own how a stream sends or a client keeps them.
-/

set_option autoImplicit false

namespace Cairn.Live

variable {events : List Event} {event earlier later : Event} {message : String}

/-- Stored events in the order of their ids. -/
def Ordered (events : List Event) : Prop := events.Pairwise fun first second => first.id < second.id

/-- A later snapshot of the same message in the same turn. -/
structure Supersedes (events : List Event) (earlier later : Event) : Prop where
  stored : later ∈ events
  message : earlier.message?.isSome
  same : later.message? = earlier.message?
  after : earlier.id < later.id
  turn : ∀ marker ∈ events, marker.startsTurn → earlier.id < marker.id → later.id < marker.id

/-- An event that no later snapshot of its message supersedes. -/
structure Latest (events : List Event) (event : Event) : Prop where
  stored : event ∈ events
  unsuperseded : ∀ later, ¬ Supersedes events event later

/-- A turn marker is no snapshot of a message. -/
def Event.Marked (event : Event) : Prop := event.startsTurn → event.message? = none

/-! ### The current snapshots -/

def track (message : String) (held : Option Event) (event : Event) : Option Event :=
  if event.message? = some message then some event
  else if event.startsTurn then none else held

/-- The latest snapshot of a message in the last turn. -/
def lastSnapshot (events : List Event) (message : String) : Option Event :=
  events.foldl (track message) none

def hold (message : String) (held : Option Text) (event : Event) : Option Text :=
  let held := if event.startsTurn then none else held
  match event.snapshot? with
  | none => held
  | some item => if item.id = message then item.text <|> held else held

/-- The text last written for a message in the last turn. -/
def lastText (events : List Event) (message : String) : Option Text :=
  events.foldl (hold message) none

@[simp] theorem lastSnapshot_nil : lastSnapshot [] message = none := rfl

@[simp] theorem lastText_nil : lastText [] message = none := rfl

@[simp] theorem lastSnapshot_concat :
    lastSnapshot (events ++ [event]) message = track message (lastSnapshot events message) event := by
  simp [lastSnapshot]

@[simp] theorem lastText_concat :
    lastText (events ++ [event]) message = hold message (lastText events message) event := by
  simp [lastText]

theorem message_of_snapshot {item : Item} (snapshot : event.snapshot? = some item) :
    event.message? = some item.id := by
  simp [Event.message?, snapshot]

theorem message_eq_none : event.message? = none ↔ event.snapshot? = none := by
  simp [Event.message?]

/-- A held text belongs to a message that has a snapshot in the turn. -/
theorem hold_isSome {text : Option Text} {held : Option Event}
    (known : text.isSome → held.isSome) (written : (hold message text event).isSome) :
    (track message held event).isSome := by
  unfold track
  by_cases same : event.message? = some message
  · rw [if_pos same]
    rfl
  rw [if_neg same]
  have kept : (if event.startsTurn then none else text).isSome := by
    unfold hold at written
    cases snapshot : event.snapshot? with
    | none => simpa [snapshot] using written
    | some item =>
        have other : item.id ≠ message := fun equal =>
          same (equal ▸ message_of_snapshot snapshot)
        simpa [snapshot, other] using written
  split
  · rename_i starts
    simp [starts] at kept
  · rename_i goes
    exact known (by simpa [goes] using kept)

theorem foldl_hold_isSome {text : Option Text} {held : Option Event}
    (known : text.isSome → held.isSome)
    (written : (events.foldl (hold message) text).isSome) :
    (events.foldl (track message) held).isSome := by
  induction events generalizing text held with
  | nil => exact known written
  | cons head tail inductionHypothesis =>
      exact inductionHypothesis (hold_isSome known) written

theorem lastSnapshot_of_lastText {before sent : List Event} {text : Text}
    (written : lastText sent message = some text) :
    ∃ event, lastSnapshot (before ++ sent) message = some event := by
  refine Option.isSome_iff_exists.mp ?_
  rw [lastSnapshot, List.foldl_append]
  have nothing : (none : Option Text).isSome → (before.foldl (track message) none).isSome := by simp
  exact foldl_hold_isSome nothing (by rw [← lastText, written]; rfl)

/-- The current snapshot of a message is the one that nothing of its message and no turn
marker follows. -/
theorem lastSnapshot_eq_some (ordered : Ordered events) :
    lastSnapshot events message = some event ↔
      event ∈ events ∧ event.message? = some message ∧
        ∀ later ∈ events, event.id < later.id →
          later.message? ≠ some message ∧ later.startsTurn = false := by
  induction events using List.reverseRecOn generalizing event with
  | nil => simp
  | append_singleton events last inductionHypothesis =>
      obtain ⟨orderedBefore, -, fresh⟩ := List.pairwise_append.mp ordered
      have newest : ∀ earlier ∈ events, earlier.id < last.id := fun earlier member =>
        fresh earlier member last (List.mem_singleton_self last)
      have current := @inductionHypothesis event orderedBefore
      rw [lastSnapshot_concat, track]
      by_cases same : last.message? = some message
      · rw [if_pos same]
        constructor
        · intro found
          obtain rfl := Option.some.inj found
          refine ⟨by simp, same, fun later member after => ?_⟩
          rcases List.mem_append.mp member with old | new
          · exact absurd after (Nat.lt_asymm (newest later old))
          · rw [List.mem_singleton.mp new] at after
            exact absurd after (Nat.lt_irrefl _)
        · rintro ⟨member, -, unfollowed⟩
          rcases List.mem_append.mp member with old | new
          · exact absurd same (unfollowed last (by simp) (newest event old)).1
          · rw [List.mem_singleton.mp new]
      · rw [if_neg same]
        by_cases starts : last.startsTurn = true
        · rw [if_pos starts]
          refine ⟨fun found => (nomatch found), ?_⟩
          rintro ⟨member, own, unfollowed⟩
          rcases List.mem_append.mp member with old | new
          · rw [(unfollowed last (by simp) (newest event old)).2] at starts
            exact absurd starts (by simp)
          · rw [List.mem_singleton.mp new] at own
            exact absurd own same
        · rw [if_neg starts, current]
          constructor
          · rintro ⟨member, own, unfollowed⟩
            refine ⟨List.mem_append_left _ member, own, fun later laterMember after => ?_⟩
            rcases List.mem_append.mp laterMember with old | new
            · exact unfollowed later old after
            · rw [List.mem_singleton.mp new]
              exact ⟨same, by simpa using starts⟩
          · rintro ⟨member, own, unfollowed⟩
            rcases List.mem_append.mp member with old | new
            · exact ⟨old, own, fun later laterMember =>
                unfollowed later (List.mem_append_left _ laterMember)⟩
            · rw [List.mem_singleton.mp new] at own
              exact absurd own same

/-! ### The latest snapshots -/

theorem Ordered.eq_of_id {first second : Event} (ordered : Ordered events)
    (firstMember : first ∈ events) (secondMember : second ∈ events) (same : first.id = second.id) :
    first = second := by
  induction events with
  | nil => exact nomatch firstMember
  | cons head tail inductionHypothesis =>
      obtain ⟨headFirst, orderedTail⟩ := List.pairwise_cons.mp ordered
      rcases List.mem_cons.mp firstMember with rfl | firstTail <;>
        rcases List.mem_cons.mp secondMember with rfl | secondTail
      · rfl
      · exact absurd same (headFirst second secondTail).ne
      · exact absurd same.symm (headFirst first firstTail).ne
      · exact inductionHypothesis orderedTail firstTail secondTail

theorem Ordered.concat (ordered : Ordered events) (fresh : ∀ old ∈ events, old.id < event.id) :
    Ordered (events ++ [event]) := by
  refine List.pairwise_append.mpr ⟨ordered, List.pairwise_singleton _ _, fun old member new new' => ?_⟩
  rw [List.mem_singleton.mp new']
  exact fresh old member

/-- The current snapshot of a message is a latest one. -/
theorem latest_of_lastSnapshot (ordered : Ordered events)
    (current : lastSnapshot events message = some event) : Latest events event := by
  obtain ⟨member, own, unfollowed⟩ := (lastSnapshot_eq_some ordered).mp current
  refine ⟨member, fun later supersedes => ?_⟩
  exact (unfollowed later supersedes.stored supersedes.after).1 (supersedes.same.trans own)

/-- A latest snapshot that no turn marker follows is the current one. -/
theorem lastSnapshot_of_latest (ordered : Ordered events) (latest : Latest events event)
    (own : event.message? = some message)
    (unmarked : ∀ marker ∈ events, event.id < marker.id → marker.startsTurn = false) :
    lastSnapshot events message = some event := by
  refine (lastSnapshot_eq_some ordered).mpr ⟨latest.stored, own, fun later member after => ?_⟩
  refine ⟨fun same => latest.unsuperseded later ⟨member, by simp [own], same.trans own.symm, after, ?_⟩,
    unmarked later member after⟩
  intro marker markerMember starts markerAfter
  rw [unmarked marker markerMember markerAfter] at starts
  exact absurd starts (by simp)

/-- What a new event supersedes is the current snapshot of its message. -/
theorem latest_concat (ordered : Ordered events) (fresh : ∀ old ∈ events, old.id < event.id)
    (marked : event.Marked) {other : Event} :
    Latest (events ++ [event]) other ↔
      other = event ∨ (Latest events other ∧
        ∀ message, event.message? = some message → lastSnapshot events message ≠ some other) := by
  constructor
  · intro latest
    rcases List.mem_append.mp latest.stored with old | new
    · refine .inr ⟨⟨old, fun later supersedes => latest.unsuperseded later ?_⟩,
        fun message own current => latest.unsuperseded event ?_⟩
      · refine ⟨List.mem_append_left _ supersedes.stored, supersedes.message, supersedes.same,
          supersedes.after, fun marker member starts markerAfter => ?_⟩
        rcases List.mem_append.mp member with oldMarker | newMarker
        · exact supersedes.turn marker oldMarker starts markerAfter
        · rw [List.mem_singleton.mp newMarker]
          exact fresh later supersedes.stored
      · obtain ⟨-, same, unfollowed⟩ := (lastSnapshot_eq_some ordered).mp current
        refine ⟨by simp, by simp [same], own.trans same.symm, fresh other old,
          fun marker member starts markerAfter => ?_⟩
        rcases List.mem_append.mp member with oldMarker | newMarker
        · rw [(unfollowed marker oldMarker markerAfter).2] at starts
          exact absurd starts (by simp)
        · rw [List.mem_singleton.mp newMarker] at starts
          rw [marked starts] at own
          exact nomatch own
    · exact .inl (List.mem_singleton.mp new)
  · rintro (rfl | ⟨latest, kept⟩)
    · refine ⟨by simp, fun later supersedes => ?_⟩
      rcases List.mem_append.mp supersedes.stored with old | new
      · exact Nat.lt_asymm supersedes.after (fresh later old)
      · have after := supersedes.after
        rw [List.mem_singleton.mp new] at after
        exact Nat.lt_irrefl _ after
    · refine ⟨List.mem_append_left _ latest.stored, fun later supersedes => ?_⟩
      rcases List.mem_append.mp supersedes.stored with old | new
      · exact latest.unsuperseded later ⟨old, supersedes.message, supersedes.same, supersedes.after,
          fun marker member => supersedes.turn marker (List.mem_append_left _ member)⟩
      · rw [List.mem_singleton.mp new] at supersedes
        obtain ⟨message, own⟩ := Option.isSome_iff_exists.mp supersedes.message
        refine kept message (supersedes.same.trans own)
          (lastSnapshot_of_latest ordered latest own fun marker member after => ?_)
        refine Bool.eq_false_iff.mpr fun starts => ?_
        exact Nat.lt_asymm (fresh marker member)
          (supersedes.turn marker (List.mem_append_left _ member) starts after)

/-- The events from an id on are as late among themselves as among all. -/
theorem latest_filter (oldest : Nat) :
    Latest (events.filter fun event => oldest ≤ event.id) event ↔
      oldest ≤ event.id ∧ Latest events event := by
  constructor
  · intro latest
    obtain ⟨member, recent⟩ := List.mem_filter.mp latest.stored
    have recent : oldest ≤ event.id := by simpa using recent
    refine ⟨recent, member, fun later supersedes => latest.unsuperseded later ?_⟩
    have laterRecent : oldest ≤ later.id := le_trans recent supersedes.after.le
    refine ⟨List.mem_filter.mpr ⟨supersedes.stored, by simpa using laterRecent⟩,
      supersedes.message, supersedes.same, supersedes.after, fun marker markerMember => ?_⟩
    exact supersedes.turn marker (List.mem_filter.mp markerMember).1
  · rintro ⟨recent, latest⟩
    refine ⟨List.mem_filter.mpr ⟨latest.stored, by simpa using recent⟩, fun later supersedes =>
      latest.unsuperseded later ⟨(List.mem_filter.mp supersedes.stored).1, supersedes.message,
        supersedes.same, supersedes.after, fun marker member starts after => ?_⟩⟩
    exact supersedes.turn marker
      (List.mem_filter.mpr ⟨member, by simpa using le_trans recent after.le⟩) starts after

end Cairn.Live

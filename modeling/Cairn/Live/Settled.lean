import Cairn.Live.Reconstruction

/-!
Owns the logs whose displays depend on no delivery: every snapshot of a message that its turn
already shows directly follows the previous one and keeps its text; and what holds of the
snapshots of such a log, and of a part of it.

Does not own pages, caches or the order of a client's rows.
-/

set_option autoImplicit false

namespace Cairn.Live

variable {log before after events received sent : List Event} {event earlier later last : Event}
  {message : String}

/-- A log as the store keeps it. -/
structure Stored (log : List Event) : Prop where
  ordered : Ordered log
  positive : ∀ event ∈ log, 0 < event.id
  marked : ∀ event ∈ log, event.Marked

/-- Nothing was recorded since the message of an event was last shown in this turn. -/
def Follows (before : List Event) (event : Event) : Prop :=
  ∀ message, event.message? = some message → ∀ held, lastSnapshot before message = some held →
    ∀ old ∈ before, old.id ≤ held.id

/-- A stored item carries no delta. -/
def Event.Plain (event : Event) : Prop := event.snapshot?.bind Item.delta = none

/-- An event that any client shows in the same place, with the same text. -/
structure Settles (before : List Event) (event : Event) : Prop where
  plain : event.Plain
  faithful : Faithful before before event
  follows : Follows before event

def Settled (log : List Event) : Prop :=
  ∀ before event after, log = before ++ event :: after → Settles before event

/-! ### What a test evaluates -/

theorem follows_iff : Follows before event ↔
    ∀ held ∈ event.message?.bind (lastSnapshot before), ∀ old ∈ before, old.id ≤ held.id := by
  unfold Follows
  cases event.message? with
  | none => simp
  | some message => simp

instance (before : List Event) (event : Event) : Decidable (Follows before event) :=
  decidable_of_iff _ follows_iff.symm

instance (event : Event) : Decidable event.Plain := inferInstanceAs (Decidable (_ = _))

instance (before : List Event) (event : Event) : Decidable (Settles before event) :=
  decidable_of_iff (event.Plain ∧ Faithful before before event ∧ Follows before event)
    ⟨fun ⟨plain, faithful, follows⟩ => ⟨plain, faithful, follows⟩,
      fun settles => ⟨settles.plain, settles.faithful, settles.follows⟩⟩

/-! ### Parts of a log -/

theorem Stored.of_start (stored : Stored log) (part : events <+: log) : Stored events :=
  ⟨stored.ordered.sublist part.sublist, fun event member => stored.positive event (part.subset member),
    fun event member => stored.marked event (part.subset member)⟩

theorem Settled.of_start (settled : Settled log) (part : events <+: log) : Settled events := by
  obtain ⟨rest, rfl⟩ := part
  intro before event after split
  exact settled before event (after ++ rest) (by rw [split, List.append_assoc, List.cons_append])

theorem Settled.plain (settled : Settled log) (member : event ∈ log) : event.Plain := by
  obtain ⟨before, after, split⟩ := List.append_of_mem member
  exact (settled before event after split).plain

theorem Settled.nil : Settled [] := fun before _ _ split => by
  cases before <;> cases split

theorem settled_concat : Settled (log ++ [event]) ↔ Settled log ∧ Settles log event := by
  constructor
  · intro settled
    exact ⟨settled.of_start (List.prefix_append log [event]), settled log event [] rfl⟩
  · rintro ⟨settled, settles⟩ before other after split
    rcases List.eq_nil_or_concat after with rfl | ⟨rest, last, rfl⟩
    · obtain ⟨rfl, same⟩ := List.append_inj' split rfl
      obtain rfl := (List.cons.inj same).1
      exact settles
    · have shorter : log ++ [event] = (before ++ other :: rest) ++ [last] := by
        rw [split, List.concat_eq_append, List.append_assoc, List.cons_append]
      exact settled before other rest (List.append_inj' shorter rfl).1

/-- The events before one of the log, and those after it, by their ids. -/
theorem Ordered.split (ordered : Ordered (before ++ event :: after)) :
    (∀ old ∈ before, old.id < event.id) ∧ ∀ new ∈ after, event.id < new.id := by
  obtain ⟨-, behind, below⟩ := List.pairwise_append.mp ordered
  exact ⟨fun old member => below old member event List.mem_cons_self,
    fun new member => (List.pairwise_cons.mp behind).1 new member⟩

theorem Ordered.mem_before (ordered : Ordered (before ++ event :: after))
    (member : earlier ∈ before ++ event :: after) (less : earlier.id < event.id) :
    earlier ∈ before := by
  rcases List.mem_append.mp member with old | rest
  · exact old
  · rcases List.mem_cons.mp rest with rfl | new
    · exact absurd less (Nat.lt_irrefl _)
    · exact absurd (ordered.split.2 earlier new) (Nat.lt_asymm less)

/-- A later part of a log hides nothing in an earlier one. -/
theorem Supersedes.of_start (ordered : Ordered log) (part : events <+: log)
    (supersedes : Supersedes events earlier later) : Supersedes log earlier later := by
  obtain ⟨rest, rfl⟩ := part
  refine ⟨List.mem_append_left _ supersedes.stored, supersedes.message, supersedes.same,
    supersedes.after, fun marker member starts behind => ?_⟩
  rcases List.mem_append.mp member with old | new
  · exact supersedes.turn marker old starts behind
  · exact (List.pairwise_append.mp ordered).2.2 later supersedes.stored marker new

theorem Supersedes.to_start (part : events <+: log) (supersedes : Supersedes log earlier later)
    (member : later ∈ events) : Supersedes events earlier later :=
  ⟨member, supersedes.message, supersedes.same, supersedes.after, fun marker held =>
    supersedes.turn marker (part.subset held)⟩

theorem Latest.to_start (ordered : Ordered log) (part : events <+: log) (latest : Latest log event)
    (member : event ∈ events) : Latest events event :=
  ⟨member, fun later supersedes =>
    latest.unsuperseded later (supersedes.of_start ordered part)⟩

theorem Supersedes.trans (first : Supersedes log earlier event) (second : Supersedes log event later) :
    Supersedes log earlier later :=
  ⟨second.stored, first.message, second.same.trans first.same, first.after.trans second.after,
    fun marker member starts behind =>
      second.turn marker member starts (first.turn marker member starts behind)⟩

/-- A turn marker is no snapshot, so nothing supersedes it. -/
theorem latest_of_marker (member : event ∈ log) (marked : event.Marked) (starts : event.startsTurn) :
    Latest log event := by
  refine ⟨member, fun later supersedes => ?_⟩
  have named := supersedes.message
  rw [marked starts] at named
  cases named

/-- Every snapshot is the latest, or one that supersedes it is. -/
theorem exists_latest (member : event ∈ log) :
    ∃ final, Latest log final ∧ (final = event ∨ Supersedes log event final) := by
  obtain ⟨bound, bounded⟩ : ∃ bound, ∀ old ∈ log, old.id ≤ bound :=
    ⟨(log.map Event.id).sum, fun old held => List.le_sum_of_mem (List.mem_map_of_mem held)⟩
  induction remaining : bound - event.id using Nat.strongRecOn generalizing event with
  | ind remaining inductionHypothesis =>
      by_cases latest : Latest log event
      · exact ⟨event, latest, .inl rfl⟩
      · obtain ⟨later, supersedes⟩ : ∃ later, Supersedes log event later := by
          by_contra none
          exact latest ⟨member, fun later supersedes => none ⟨later, supersedes⟩⟩
        have atMost := bounded later supersedes.stored
        have after := supersedes.after
        obtain ⟨final, isLatest, reached⟩ :=
          inductionHypothesis (bound - later.id) (by omega) supersedes.stored rfl
        refine ⟨final, isLatest, .inr ?_⟩
        rcases reached with rfl | further
        · exact supersedes
        · exact supersedes.trans further

/-- The current snapshot of a message that was shown in this turn. -/
theorem exists_lastSnapshot (ordered : Ordered log) (member : event ∈ log)
    (own : event.message? = some message)
    (unmarked : ∀ marker ∈ log, event.id < marker.id → marker.startsTurn = false) :
    ∃ held, lastSnapshot log message = some held ∧ (held = event ∨ Supersedes log event held) := by
  obtain ⟨held, latest, reached⟩ := exists_latest member
  have atLeast : event.id ≤ held.id := by
    rcases reached with rfl | supersedes
    · exact Nat.le_refl _
    · exact supersedes.after.le
  have named : held.message? = some message := by
    rcases reached with rfl | supersedes
    · exact own
    · exact supersedes.same.trans own
  exact ⟨held, lastSnapshot_of_latest ordered latest named fun marker markerMember behind =>
    unmarked marker markerMember (lt_of_le_of_lt atLeast behind), reached⟩

/-- Between two snapshots of a message in a turn there is nothing else. -/
theorem Settled.between (settled : Settled log) (ordered : Ordered log)
    (supersedes : Supersedes log earlier later) {other : Event} (member : other ∈ log)
    (above : earlier.id < other.id) (below : other.id < later.id) (first : earlier ∈ log) :
    other.message? = earlier.message? := by
  induction height : later.id using Nat.strongRecOn generalizing later with
  | ind height inductionHypothesis =>
      obtain ⟨message, own⟩ := Option.isSome_iff_exists.mp supersedes.message
      obtain ⟨before, after, rfl⟩ := List.append_of_mem supersedes.stored
      have prior : before <+: before ++ later :: after := List.prefix_append _ _
      have firstBefore := ordered.mem_before first supersedes.after
      have otherBefore := ordered.mem_before member below
      obtain ⟨held, current, reached⟩ := exists_lastSnapshot (ordered.sublist prior.sublist)
        firstBefore own fun marker markerMember behind => Bool.eq_false_iff.mpr fun starts =>
          Nat.lt_asymm (ordered.split.1 marker markerMember)
            (supersedes.turn marker (List.mem_append_left _ markerMember) starts behind)
      have newest := (settled before later after rfl).follows message (supersedes.same.trans own)
        held current other otherBefore
      rcases reached with rfl | further
      · exact absurd above (not_lt.mpr newest)
      · rcases Nat.lt_or_eq_of_le newest with less | same
        · exact inductionHypothesis held.id (height ▸ ordered.split.1 held further.stored)
            (further.of_start ordered prior) less rfl
        · rw [ordered.eq_of_id member (List.mem_append_left _ further.stored) same]
          exact further.same

/-! ### The last text of a message -/

/-- The text of a snapshot of a message. -/
def Event.textOf (event : Event) (message : String) : Option Text :=
  event.snapshot?.bind fun item => if item.id = message then item.text else none

theorem hold_eq (message : String) (held : Option Text) (event : Event) :
    hold message held event = (event.textOf message <|> if event.startsTurn then none else held) := by
  unfold hold Event.textOf
  cases event.snapshot? with
  | none => rfl
  | some item =>
      dsimp only [Option.bind_some]
      split <;> rfl

theorem message_of_textOf {text : Text} (written : event.textOf message = some text) :
    event.message? = some message := by
  obtain ⟨item, snapshot, named⟩ := Option.bind_eq_some_iff.mp written
  split at named
  · rename_i same
    exact same ▸ message_of_snapshot snapshot
  · cases named

/-- The text last written for a message is that of a snapshot that no other text of the message
and no turn marker follows. -/
theorem lastText_eq_some (ordered : Ordered events) {text : Text} :
    lastText events message = some text ↔
      ∃ event ∈ events, event.textOf message = some text ∧
        ∀ later ∈ events, event.id < later.id →
          later.textOf message = none ∧ later.startsTurn = false := by
  induction events using List.reverseRecOn with
  | nil => simp
  | append_singleton events last inductionHypothesis =>
      obtain ⟨orderedBefore, -, fresh⟩ := List.pairwise_append.mp ordered
      have newest : ∀ earlier ∈ events, earlier.id < last.id := fun earlier member =>
        fresh earlier member last (List.mem_singleton_self last)
      rw [lastText_concat, hold_eq]
      cases written : last.textOf message with
      | some own =>
          constructor
          · intro same
            obtain rfl := Option.some.inj same
            refine ⟨last, by simp, written, fun later member after => ?_⟩
            rcases List.mem_append.mp member with old | new
            · exact absurd after (Nat.lt_asymm (newest later old))
            · rw [List.mem_singleton.mp new] at after
              exact absurd after (Nat.lt_irrefl _)
          · rintro ⟨event, member, textual, unfollowed⟩
            rcases List.mem_append.mp member with old | new
            · have silent := (unfollowed last (by simp) (newest event old)).1
              rw [written] at silent
              cases silent
            · rw [List.mem_singleton.mp new, written] at textual
              exact textual
      | none =>
          cases starts : last.startsTurn with
          | true =>
              refine ⟨fun found => (by cases found), ?_⟩
              rintro ⟨event, member, textual, unfollowed⟩
              rcases List.mem_append.mp member with old | new
              · have goes := (unfollowed last (by simp) (newest event old)).2
                rw [starts] at goes
                cases goes
              · rw [List.mem_singleton.mp new, written] at textual
                cases textual
          | false =>
              rw [show ((none : Option Text) <|> if false = true then none else lastText events message) =
                lastText events message from rfl, inductionHypothesis orderedBefore]
              constructor
              · rintro ⟨event, member, textual, unfollowed⟩
                refine ⟨event, List.mem_append_left _ member, textual, fun later held after => ?_⟩
                rcases List.mem_append.mp held with old | new
                · exact unfollowed later old after
                · rw [List.mem_singleton.mp new]
                  exact ⟨written, starts⟩
              · rintro ⟨event, member, textual, unfollowed⟩
                rcases List.mem_append.mp member with old | new
                · exact ⟨event, old, textual, fun later held =>
                    unfollowed later (List.mem_append_left _ held)⟩
                · rw [List.mem_singleton.mp new, written] at textual
                  cases textual

/-! ### What a client received -/

/-- A part of the log that hides no turn marker and no newer snapshot of what it holds. -/
structure Closed (log received : List Event) : Prop where
  stored : ∀ event ∈ received, event ∈ log
  markers : ∀ event ∈ received, ∀ marker ∈ log, marker.startsTurn → event.id < marker.id →
    marker ∈ received
  newer : ∀ event ∈ received, ∀ later, Supersedes log event later → later ∈ received

namespace Closed

variable (closed : Closed log received) (ordered : Ordered log) (orderedReceived : Ordered received)

include closed

/-- After an event that no marker follows, any snapshot of its message supersedes it. -/
theorem supersedes {held : Event} (member : held ∈ received)
    (own : held.message? = some message)
    (unmarked : ∀ marker ∈ received, held.id < marker.id → marker.startsTurn = false)
    (laterMember : later ∈ log) (same : later.message? = some message) (after : held.id < later.id) :
    Supersedes log held later :=
  ⟨laterMember, by rw [own]; rfl, same.trans own.symm, after, fun marker markerMember starts behind => by
    have received' := closed.markers held member marker markerMember starts behind
    rw [unmarked marker received' behind] at starts
    cases starts⟩

include ordered orderedReceived

theorem lastSnapshot {held : Event} (current : Live.lastSnapshot received message = some held) :
    Live.lastSnapshot log message = some held := by
  obtain ⟨member, own, unfollowed⟩ := (lastSnapshot_eq_some orderedReceived).mp current
  refine (lastSnapshot_eq_some ordered).mpr ⟨closed.stored held member, own,
    fun later laterMember after => ⟨fun same => ?_, ?_⟩⟩
  · have supersedes := closed.supersedes member own
      (fun marker markerMember behind => (unfollowed marker markerMember behind).2) laterMember same after
    exact (unfollowed later (closed.newer held member later supersedes) after).1 same
  · refine Bool.eq_false_iff.mpr fun starts => ?_
    have received' := closed.markers held member later laterMember starts after
    rw [(unfollowed later received' after).2] at starts
    cases starts

theorem lastText {text : Text} (written : Live.lastText received message = some text) :
    Live.lastText log message = some text := by
  obtain ⟨event, member, textual, unfollowed⟩ := (lastText_eq_some orderedReceived).mp written
  refine (lastText_eq_some ordered).mpr ⟨event, closed.stored event member, textual,
    fun later laterMember after => ⟨?_, ?_⟩⟩
  · refine Option.eq_none_iff_forall_not_mem.mpr fun other isText => ?_
    have supersedes := closed.supersedes member (message_of_textOf textual)
      (fun marker markerMember behind => (unfollowed marker markerMember behind).2) laterMember
      (message_of_textOf isText) after
    rw [(unfollowed later (closed.newer event member later supersedes) after).1] at isText
    cases isText
  · refine Bool.eq_false_iff.mpr fun starts => ?_
    have received' := closed.markers event member later laterMember starts after
    rw [(unfollowed later received' after).2] at starts
    cases starts

omit ordered in
/-- What was received last is as closed. -/
theorem of_suffix (ending : sent <:+ received) : Closed log sent := by
  obtain ⟨prior, rfl⟩ := ending
  have behind : ∀ event ∈ sent, ∀ later ∈ prior ++ sent, event.id < later.id → later ∈ sent := by
    intro event member later held after
    rcases List.mem_append.mp held with old | new
    · have less := (List.pairwise_append.mp orderedReceived).2.2 later old event member
      exact absurd after (Nat.lt_asymm less)
    · exact new
  refine ⟨fun event member => closed.stored event (List.mem_append_right _ member),
    fun event member marker markerMember starts after => ?_, fun event member later supersedes => ?_⟩
  · exact behind event member marker
      (closed.markers event (List.mem_append_right _ member) marker markerMember starts after) after
  · exact behind event member later
      (closed.newer event (List.mem_append_right _ member) later supersedes) supersedes.after

/-- A settled event is shown in place, with its text, whatever part of the log was received. -/
theorem settles (settles : Settles log event) (ending : sent <:+ received) :
    Faithful sent received event ∧ Follows received event := by
  constructor
  · unfold Faithful
    cases extended : baseline sent event with
    | none =>
        dsimp only
        intro delta isDelta
        rw [settles.plain] at isDelta
        cases isDelta
    | some previous =>
        dsimp only
        have parts := extended
        simp only [baseline, Option.bind_eq_bind, Option.bind_eq_some_iff] at parts
        obtain ⟨item, snapshot, content, textual, known, written, extends'⟩ := parts
        have orderedSent : Ordered sent := orderedReceived.sublist ending.sublist
        have whole := (closed.of_suffix orderedReceived ending).lastText ordered orderedSent written
        have based : baseline log event = some previous := by
          split at extends'
          · rename_i isPrefix
            obtain rfl := Option.some.inj extends'
            simpa [baseline, snapshot, textual, whole] using List.isPrefixOf_iff_prefix.mp isPrefix
          · cases extends'
        have faithful := settles.faithful
        rw [Live.Faithful, based] at faithful
        dsimp only at faithful
        obtain ⟨prior, rfl⟩ := ending
        obtain ⟨held, current⟩ : ∃ held, Live.lastSnapshot (prior ++ sent) item.id = some held :=
          lastSnapshot_of_lastText written
        have same := closed.lastSnapshot ordered orderedReceived current
        rw [lastShown, message_of_snapshot snapshot, Option.bind_some, same] at faithful
        rw [lastShown, message_of_snapshot snapshot, Option.bind_some, current]
        exact faithful
  · intro message own held current old member
    exact settles.follows message own held (closed.lastSnapshot ordered orderedReceived current) old
      (closed.stored old member)

end Closed

end Cairn.Live

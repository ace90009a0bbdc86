import Mathlib.Data.List.Sort
import Cairn.Live.Settled
import Cairn.Live.Viewers

/-!
Owns the order of a client's rows: what a batch and the merge of an older page do to rows
that are in the order of their ids.

Does not own when a batch or a page is read.
-/

set_option autoImplicit false

namespace Cairn.Live

open Cairn.Library.HashMaps

variable {session next : Session} {live : LiveEvents} {rows events page received log : List Event}
  {event row wire old : Event} {display saved : Event → Text} {deltas : TextDeltas}
  {sent before after : List Event} {index : Nat} {message : String}

/-! ### One event -/

/-- A rebuilt snapshot has its full text. -/
theorem rebuild_plain {item : Item} {place : Option Nat} {whole : Event}
    (snapshot : wire.snapshot? = some item)
    (built : LiveEvents.rebuild rows wire item place = .ok whole) :
    whole.id = wire.id ∧ whole.Plain := by
  unfold LiveEvents.rebuild at built
  cases appends : item.delta with
  | none =>
      rw [appends] at built
      obtain rfl := Except.ok.inj built
      exact ⟨rfl, by rw [Event.Plain, snapshot]; exact appends⟩
  | some delta =>
      rw [appends] at built
      cases place with
      | none => cases built
      | some index =>
          dsimp only at built
          cases previous : LiveEvents.rowAt rows index with
          | error failure => rw [previous] at built; cases built
          | ok old =>
              rw [previous] at built
              obtain rfl := Except.ok.inj built
              obtain ⟨-, type, named⟩ := snapshot_eq_some.mp snapshot
              refine ⟨rfl, ?_⟩
              have kept := @snapshot_eq_some { wire with
                text := old.shown ++ delta
                item := some { item with delta := none, text := some (old.shown ++ delta) } }
                { item with delta := none, text := some (old.shown ++ delta) }
              rw [Event.Plain, kept.mpr ⟨rfl, type, named⟩]
              rfl

/-- A new row is last, another one stays where its message is. -/
theorem appendEvent_rows {result : LiveEvents × List Event}
    (appended : live.appendEvent rows wire = .ok result) (newer : live.cursor < wire.id) :
    ∃ row, row.id = wire.id ∧ row.Plain ∧
      ((result.2 = rows ++ [row] ∧ ∀ message, wire.message? = some message →
          wire.startsTurn = false → live.messages.lookup message = none) ∨
        ∃ message index, wire.message? = some message ∧
          live.messages.lookup message = some index ∧ result.2 = rows.set index row) := by
  unfold LiveEvents.appendEvent at appended
  rw [if_neg (not_le.mpr newer)] at appended
  dsimp only at appended
  cases snapshot : wire.snapshot? with
  | none =>
      rw [snapshot] at appended
      obtain rfl := Except.ok.inj appended
      refine ⟨wire, rfl, by rw [Event.Plain, snapshot]; rfl, .inl ⟨rfl, fun message own _ => ?_⟩⟩
      rw [message_eq_none.mpr snapshot] at own
      cases own
  | some item =>
      rw [snapshot] at appended
      dsimp only at appended
      -- a place that the fold finds was known before the event
      have known : ∀ index, (if wire.startsTurn then ∅ else live.messages).lookup item.id = some index →
          live.messages.lookup item.id = some index := by
        intro index found
        cases starts : wire.startsTurn with
        | false => simpa [starts] using found
        | true => simp [starts] at found
      have unknown : (if wire.startsTurn then ∅ else live.messages).lookup item.id = none →
          wire.startsTurn = false → live.messages.lookup item.id = none := by
        intro absent goes
        simpa [goes] using absent
      generalize (if wire.startsTurn then ∅ else live.messages) = messages at appended known unknown
      cases built : LiveEvents.rebuild rows wire item (messages.lookup item.id) with
      | error failure => rw [built] at appended; cases appended
      | ok whole =>
          rw [built] at appended
          obtain ⟨id, plain⟩ := rebuild_plain snapshot built
          have placed : LiveEvents.place messages rows whole item.id (messages.lookup item.id) =
            .ok result := appended
          unfold LiveEvents.place at placed
          cases found : messages.lookup item.id with
          | none =>
              rw [found] at placed
              obtain rfl := Except.ok.inj placed
              refine ⟨whole, id, plain, .inl ⟨rfl, fun message own goes => ?_⟩⟩
              obtain rfl := Option.some.inj ((message_of_snapshot snapshot).symm.trans own)
              exact unknown found goes
          | some index =>
              rw [found] at placed
              dsimp only at placed
              cases previous : LiveEvents.rowAt rows index with
              | error failure => rw [previous] at placed; cases placed
              | ok old =>
                  rw [previous] at placed
                  obtain rfl := Except.ok.inj placed
                  exact ⟨{ whole with createdAt := old.createdAt }, id, plain,
                    .inr ⟨item.id, index, message_of_snapshot snapshot, known index found, rfl⟩⟩

/-- What is sent keeps the id, the type and the message. -/
theorem encodeEvent_names (encoder : ∀ message, deltas.lookup message = lastText sent message)
    (marked : event.Marked) : (deltas.encodeEvent event).2.id = event.id ∧
      (deltas.encodeEvent event).2.type = event.type ∧
      (deltas.encodeEvent event).2.message? = event.message? := by
  cases snapshot : event.snapshot? with
  | none =>
      rcases encodeEvent_sent encoder marked with ⟨-, same⟩ | ⟨item, -, -, found, -⟩
      · rw [same]
        exact ⟨rfl, rfl, rfl⟩
      · rw [snapshot] at found
        cases found
  | some item =>
      obtain ⟨wire, kept, same, id, type, sentItem, sameMessage, -⟩ :=
        encodeEvent_snapshot encoder marked snapshot
      rw [same, message_of_snapshot snapshot, message_of_snapshot sentItem, sameMessage]
      exact ⟨id, type, rfl⟩

/-- The last row may be replaced by a newer one. -/
theorem Ordered.set (ordered : Ordered rows) (at' : rows[index]? = some old)
    (newest : ∀ other ∈ rows, other.id ≤ old.id) (newer : old.id < row.id) :
    Ordered (rows.set index row) := by
  obtain ⟨inside, rfl⟩ := List.getElem?_eq_some_iff.mp at'
  refine List.pairwise_iff_getElem.mpr fun first second firstAt secondAt less => ?_
  have firstInside : first < rows.length := by simpa using firstAt
  have secondInside : second < rows.length := by simpa using secondAt
  have sorted := List.pairwise_iff_getElem.mp ordered first second firstInside secondInside less
  simp only [List.getElem_set]
  by_cases firstHere : index = first
  · -- no row follows the newest one
    subst firstHere
    exact absurd (newest rows[second] (List.getElem_mem secondInside)) (not_le.mpr sorted)
  · rw [if_neg firstHere]
    by_cases secondHere : index = second
    · rw [if_pos secondHere]
      exact lt_of_le_of_lt (newest rows[first] (List.getElem_mem firstInside)) newer
    · rw [if_neg secondHere]
      exact sorted

namespace Session

@[simp] theorem deliver_received (session : Session) (events : List Event) :
    (session.deliver events false).received = session.received ++ events := by
  unfold deliver
  dsimp only
  split <;> rfl

@[simp] theorem deliver_sent (session : Session) (events : List Event) :
    (session.deliver events false).sent = session.sent ++ events := by
  unfold deliver
  dsimp only
  split <;> rfl

@[simp] theorem deliver_cursor (session : Session) (events : List Event) :
    (session.deliver events false).cursor = (events.getLast?.map Event.id).getD session.cursor := by
  unfold deliver
  dsimp only
  split <;> rfl

@[simp] theorem deliver_cached (session : Session) (events : List Event) (reset : Bool) :
    (session.deliver events reset).cached = session.cached := by
  unfold deliver
  dsimp only
  split <;> cases reset <;> rfl

namespace Tracks

/-- Where the row of an event is after it was folded. -/
theorem deliver_rows (tracks : session.Tracks display saved)
    (admitted : session.Admits (.event event))
    (unbroken : (session.deliver [event] false).broken = false) :
    ∃ row, row.id = event.id ∧ row.Plain ∧
      (((session.deliver [event] false).rows = session.rows ++ [row] ∧
          ∀ message, event.message? = some message → lastSnapshot session.received message = none) ∨
        ∃ message held index old, event.message? = some message ∧
          lastSnapshot session.received message = some held ∧ session.rows[index]? = some old ∧
          old.id = held.id ∧ (session.deliver [event] false).rows = session.rows.set index row) := by
  obtain ⟨id, type, named⟩ := encodeEvent_names tracks.encoder admitted.2
  have newer : session.accumulator.cursor < (session.deltas.encodeEvent event).2.id := by
    rw [tracks.cursor, id]
    exact admitted.1
  cases appended : session.accumulator.appendEvent session.rows (session.deltas.encodeEvent event).2 with
  | error failure =>
      rw [Session.deliver_error rfl appended] at unbroken
      cases unbroken
  | ok result =>
      rw [Session.deliver_ok rfl appended]
      obtain ⟨row, rowId, plain, placed⟩ := appendEvent_rows appended newer
      refine ⟨row, rowId.trans id, plain, ?_⟩
      rcases placed with ⟨last, absent⟩ | ⟨message, index, own, found, replaced⟩
      · refine .inl ⟨last, fun message isMessage => ?_⟩
        have goes : (session.deltas.encodeEvent event).2.startsTurn = false := by
          rw [Event.startsTurn, type]
          refine Bool.eq_false_iff.mpr fun starts => ?_
          rw [admitted.2 starts] at isMessage
          cases isMessage
        rcases tracks.indexed message with ⟨-, none⟩ | ⟨place, held, old, at', -⟩
        · exact none
        · rw [absent message (named ▸ isMessage) goes] at at'
          cases at'
      · rcases tracks.indexed message with ⟨absent, -⟩ | ⟨place, held, old, at', current, placed, same⟩
        · rw [absent] at found
          cases found
        · obtain rfl := Option.some.inj (at'.symm.trans found)
          exact .inr ⟨message, held, place, old, named ▸ own, current, placed, same, replaced⟩

/-- An event that nothing separates from its message keeps the rows in order. -/
theorem deliver_ordered (tracks : session.Tracks display saved)
    (admitted : session.Admits (.event event))
    (unbroken : (session.deliver [event] false).broken = false)
    (ordered : Ordered session.rows) (plain : ∀ row ∈ session.rows, row.Plain)
    (follows : Follows session.received event) :
    Ordered (session.deliver [event] false).rows ∧
      ∀ row ∈ (session.deliver [event] false).rows, row.Plain := by
  have older : ∀ row ∈ session.rows, row.id < event.id := fun row member =>
    tracks.shows.old (tracks.recorded admitted) member
  obtain ⟨row, id, plainRow, placed⟩ := tracks.deliver_rows admitted unbroken
  rcases placed with ⟨last, -⟩ | ⟨message, held, index, old, own, current, at', same, replaced⟩
  · rw [last]
    refine ⟨ordered.concat fun other member => id ▸ older other member, fun other member => ?_⟩
    rcases List.mem_append.mp member with kept | new
    · exact plain other kept
    · rw [List.mem_singleton.mp new]
      exact plainRow
  · rw [replaced]
    refine ⟨ordered.set at' (fun other member => ?_) (id ▸ older old (List.mem_of_getElem? at')),
      fun other member => ?_⟩
    · obtain ⟨origin, latest, displays⟩ := tracks.shows.sound other member
      rw [displays.id, same]
      exact follows message own held current origin latest.stored
    · rcases List.mem_or_eq_of_mem_set member with kept | new
      · exact plain other kept
      · rw [new]
        exact plainRow

end Tracks

end Session

/-! ### A batch -/

/-- What a session is after more events. -/
structure Extends (session next : Session) (events : List Event) : Prop where
  tracks : next.Tracks Event.shown Event.shown
  received : next.received = session.received ++ events
  sent : next.sent = session.sent ++ events
  cursor : next.cursor = (events.getLast?.map Event.id).getD session.cursor
  cached : next.cached = session.cached
  ordered : Ordered next.rows
  plain : ∀ row ∈ next.rows, row.Plain

/-- Events newer than a cursor, as the store recorded them. -/
structure Newer (cursor : Nat) (events : List Event) : Prop where
  ordered : Ordered events
  fresh : ∀ event ∈ events, cursor < event.id
  marked : ∀ event ∈ events, event.Marked

theorem Newer.tail {cursor : Nat} (newer : Newer cursor (event :: events)) :
    Newer event.id events :=
  ⟨newer.ordered.tail, (List.pairwise_cons.mp newer.ordered).1, fun later member =>
    newer.marked later (List.mem_cons_of_mem _ member)⟩

section Batch

variable (tracks : session.Tracks Event.shown Event.shown) (ordered : Ordered session.rows)
  (plain : ∀ row ∈ session.rows, row.Plain)

include tracks ordered plain

theorem extends_event (admitted : session.Admits (.event event))
    (faithful : Faithful session.sent session.received event)
    (follows : Follows session.received event) :
    Extends session (session.deliver [event] false) [event] := by
  have after := tracks.faithful admitted faithful
  obtain ⟨sorted, plainRows⟩ := tracks.deliver_ordered admitted after.unbroken ordered plain follows
  exact ⟨after, session.deliver_received _, session.deliver_sent _, session.deliver_cursor _,
    session.deliver_cached _ _, sorted, plainRows⟩

/-- A batch of events that every client shows in place keeps the rows in order. -/
theorem extends_batch (newer : Newer session.cursor events)
    (steady : ∀ before event after, events = before ++ event :: after →
      Faithful (session.sent ++ before) (session.received ++ before) event ∧
        Follows (session.received ++ before) event) :
    Extends session (session.deliver events false) events := by
  induction events generalizing session with
  | nil =>
      have same : session.deliver [] false = session := by
        simp [Session.deliver, TextDeltas.encode, TextDeltas.encodeEvents, LiveEvents.append, pure,
          Except.pure]
      rw [same]
      exact ⟨tracks, (List.append_nil _).symm, (List.append_nil _).symm, rfl, rfl, ordered, plain⟩
  | cons head tail inductionHypothesis =>
      have admitted : session.Admits (.event head) :=
        ⟨newer.fresh head List.mem_cons_self, newer.marked head List.mem_cons_self⟩
      obtain ⟨faithful, follows⟩ := steady [] head tail rfl
      simp only [List.append_nil] at faithful follows
      have first := extends_event tracks ordered plain admitted faithful follows
      have rest := inductionHypothesis first.tracks first.ordered first.plain
        (by rw [first.cursor]; exact newer.tail) fun before event after split => by
          have later := steady (head :: before) event after (by rw [split, List.cons_append])
          rw [first.sent, first.received]
          simpa only [List.append_assoc, List.singleton_append] using later
      have same : session.deliver (head :: tail) false =
          (session.deliver [head] false).deliver tail false := by
        rcases Session.deliver_cons session head tail with equal | ⟨-, broken⟩
        · exact equal
        · rw [rest.tracks.unbroken] at broken
          cases broken
      rw [same]
      refine ⟨rest.tracks, ?_, ?_, ?_, ?_, rest.ordered, rest.plain⟩
      · rw [rest.received, first.received, List.append_assoc, List.singleton_append]
      · rw [rest.sent, first.sent, List.append_assoc, List.singleton_append]
      · have newest : (head :: tail).getLast? = some (tail.getLast?.getD head) := List.getLast?_cons
        rw [rest.cursor, first.cursor, newest]
        cases tail.getLast? <;> rfl
      · rw [rest.cached, first.cached]

/-- The fold of whole events, as the merge of a page makes it. -/
theorem append_whole (newer : Newer session.cursor events) (whole : ∀ event ∈ events, event.Plain)
    (follows : ∀ before event after, events = before ++ event :: after →
      Follows (session.received ++ before) event) :
    ∃ next : Session, session.accumulator.append session.rows events =
        .ok (next.accumulator, next.rows) ∧ next.Tracks Event.shown Event.shown ∧
      next.received = session.received ++ events ∧ Ordered next.rows ∧
      ∀ row ∈ next.rows, row.Plain := by
  induction events generalizing session with
  | nil => exact ⟨session, rfl, tracks, (List.append_nil _).symm, ordered, plain⟩
  | cons head tail inductionHypothesis =>
      -- a new connection would send the event whole
      have fresh := tracks.reconnect
      have admitted : session.reconnect.Admits (.event head) :=
        ⟨newer.fresh head List.mem_cons_self, newer.marked head List.mem_cons_self⟩
      have unextended : baseline [] head = none := by
        cases snapshot : head.snapshot? with
        | none => simp [baseline, snapshot]
        | some item => simp [baseline, snapshot]
      have faithful : Faithful [] session.reconnect.received head := by
        unfold Faithful
        rw [unextended]
        dsimp only
        intro delta isDelta
        rw [show head.snapshot?.bind Item.delta = none from whole head List.mem_cons_self] at isDelta
        cases isDelta
      have first := extends_event fresh ordered plain admitted faithful (by
        have here := follows [] head tail rfl
        rwa [List.append_nil] at here)
      have unchanged : (session.reconnect.deltas.encodeEvent head).2 = head := by
        rcases encodeEvent_sent fresh.encoder admitted.2 with ⟨-, same⟩ | ⟨_, _, _, _, extended, _⟩
        · exact same
        · rw [show session.reconnect.sent = [] from rfl, unextended] at extended
          cases extended
      have encoded : session.reconnect.deltas.encodeEvent head =
          ((session.reconnect.deltas.encodeEvent head).1, head) := Prod.ext rfl unchanged
      obtain ⟨result, appended, accumulator, rows⟩ : ∃ result,
          session.accumulator.appendEvent session.rows head = .ok result ∧
          (session.reconnect.deliver [head] false).accumulator = result.1 ∧
          (session.reconnect.deliver [head] false).rows = result.2 := by
        cases appended : session.accumulator.appendEvent session.rows head with
        | error failure =>
            have broken : (session.reconnect.deliver [head] false).broken = true :=
              Session.deliver_error encoded appended
            rw [first.tracks.unbroken] at broken
            cases broken
        | ok result =>
            have delivered := @Session.deliver_ok session.reconnect _ _ _ _ _ encoded appended
            exact ⟨result, rfl, by rw [delivered]; rfl, by rw [delivered]; rfl⟩
      obtain ⟨next, rest, nextTracks, received, sorted, plainRows⟩ :=
        inductionHypothesis first.tracks first.ordered first.plain
          (by rw [first.cursor]; exact newer.tail)
          (fun event member => whole event (List.mem_cons_of_mem _ member))
          fun before event after split => by
            have later := follows (head :: before) event after (by rw [split, List.cons_append])
            rw [first.received]
            simpa only [Session.reconnect, List.append_assoc, List.singleton_append] using later
      refine ⟨next, ?_, nextTracks, ?_, sorted, plainRows⟩
      · rw [← rest, accumulator, rows]
        simp only [LiveEvents.append, List.foldlM_cons, appended, Prod.mk.eta]
        rfl
      · rw [received, first.received]
        simp [Session.reconnect]

end Batch

/-! ### The merge of a page -/

theorem foldl_put (distinct : ((rows ++ events).map Event.id).Nodup) :
    events.foldl Viewer.put rows = rows ++ events := by
  induction events generalizing rows with
  | nil => rw [List.foldl_nil, List.append_nil]
  | cons head tail inductionHypothesis =>
      have absent : rows.any (fun old => old.id == head.id) = false := by
        rw [List.map_append, List.map_cons, List.nodup_append] at distinct
        refine Bool.eq_false_iff.mpr fun present => ?_
        obtain ⟨old, member, same⟩ := List.any_eq_true.mp present
        exact distinct.2.2 old.id (List.mem_map_of_mem member) head.id List.mem_cons_self
          (by simpa using same)
      rw [List.foldl_cons, Viewer.put, absent, if_neg Bool.false_ne_true, inductionHypothesis,
        List.append_assoc, List.singleton_append]
      rwa [List.append_assoc, List.singleton_append]

theorem Ordered.distinct (ordered : Ordered events) : (events.map Event.id).Nodup :=
  List.pairwise_map.mpr (ordered.imp fun less => less.ne)

theorem sorted_eq (ordered : Ordered events) : Viewer.sorted events = events :=
  List.Pairwise.insertionSort_eq (ordered.imp fun less => less.le)

/-- An older page and what was received after it. -/
structure Behind (page received rows : List Event) : Prop where
  older : Newer 0 page
  recent : Newer 0 received
  shows : Shows Event.shown received rows
  ordered : Ordered rows
  below : ∀ older ∈ page, ∀ event ∈ received, older.id < event.id

namespace Behind

variable (behind : Behind page received rows)

include behind

/-- A row stands for an event received. -/
theorem origin (member : row ∈ rows) : ∃ event, Latest received event ∧ row.id = event.id ∧
    row.message? = event.message? ∧ row.startsTurn = event.startsTurn := by
  obtain ⟨event, latest, displays⟩ := behind.shows.sound row member
  exact ⟨event, latest, displays.id, displays.message, displays.startsTurn⟩

/-- Every turn marker received has a row. -/
theorem marker (member : event ∈ received) (starts : event.startsTurn) :
    ∃ row ∈ rows, row.id = event.id ∧ row.startsTurn := by
  obtain ⟨row, rowMember, displays⟩ := behind.shows.complete event
    (latest_of_marker member (behind.recent.marked event member) starts)
  exact ⟨row, rowMember, displays.id, displays.startsTurn.trans starts⟩

theorem ordered_received : Ordered (page ++ received) :=
  List.pairwise_append.mpr ⟨behind.older.ordered, behind.recent.ordered, behind.below⟩

theorem newer : Newer 0 (page ++ rows) where
  ordered := List.pairwise_append.mpr ⟨behind.older.ordered, behind.ordered, fun older member row held => by
    obtain ⟨event, latest, id, -⟩ := behind.origin held
    rw [id]
    exact behind.below older member event latest.stored⟩
  fresh := fun event member => by
    rcases List.mem_append.mp member with older | shown
    · exact behind.older.fresh event older
    · obtain ⟨origin, latest, id, -⟩ := behind.origin shown
      rw [id]
      exact behind.recent.fresh origin latest.stored
  marked := fun event member => by
    rcases List.mem_append.mp member with older | shown
    · exact behind.older.marked event older
    · obtain ⟨origin, latest, -, named, starts⟩ := behind.origin shown
      intro isMarker
      rw [named]
      exact behind.recent.marked origin latest.stored (starts ▸ isMarker)

/-- An older page changes nothing about the events received after it. -/
theorem latest_received (member : event ∈ received) :
    Latest (page ++ received) event ↔ Latest received event := by
  constructor
  · refine fun latest => ⟨member, fun later supersedes => latest.unsuperseded later ?_⟩
    refine ⟨List.mem_append_right _ supersedes.stored, supersedes.message, supersedes.same,
      supersedes.after, fun marker held starts after => ?_⟩
    rcases List.mem_append.mp held with older | new
    · exact absurd after (Nat.lt_asymm (behind.below marker older event member))
    · exact supersedes.turn marker new starts after
  · refine fun latest => ⟨List.mem_append_right _ member, fun later supersedes => ?_⟩
    rcases List.mem_append.mp supersedes.stored with older | new
    · exact absurd supersedes.after (Nat.lt_asymm (behind.below later older event member))
    · exact latest.unsuperseded later ⟨new, supersedes.message, supersedes.same, supersedes.after,
        fun marker held => supersedes.turn marker (List.mem_append_right _ held)⟩

/-- Rows are as late among themselves as the events that they stand for. -/
theorem latest_row (member : row ∈ rows) : Latest (page ++ rows) row := by
  obtain ⟨event, latest, id, named, -⟩ := behind.origin member
  refine ⟨List.mem_append_right _ member, fun later supersedes => ?_⟩
  rcases List.mem_append.mp supersedes.stored with older | shown
  · have less := behind.below later older event latest.stored
    rw [← id] at less
    exact absurd supersedes.after (Nat.lt_asymm less)
  · obtain ⟨origin, laterLatest, laterId, laterNamed, -⟩ := behind.origin shown
    refine latest.unsuperseded origin ⟨laterLatest.stored, named ▸ supersedes.message, ?_, ?_,
      fun marker held starts after => ?_⟩
    · rw [← named, ← laterNamed]
      exact supersedes.same
    · rw [← id, ← laterId]
      exact supersedes.after
    · obtain ⟨markerRow, markerMember, markerId, markerStarts⟩ := behind.marker held starts
      have turn := supersedes.turn markerRow (List.mem_append_right _ markerMember) markerStarts
      rw [markerId, id, laterId] at turn
      exact turn after

/-- An event of the page is hidden by the rows exactly if it is by what they stand for. -/
theorem latest_page (member : event ∈ page) :
    Latest (page ++ rows) event ↔ Latest (page ++ received) event := by
  constructor
  · refine fun latest => ⟨List.mem_append_left _ member, fun later supersedes => ?_⟩
    rcases List.mem_append.mp supersedes.stored with older | new
    · refine latest.unsuperseded later ⟨List.mem_append_left _ older, supersedes.message,
        supersedes.same, supersedes.after, fun marker held starts after => ?_⟩
      rcases List.mem_append.mp held with olderMarker | shown
      · exact supersedes.turn marker (List.mem_append_left _ olderMarker) starts after
      · obtain ⟨origin, markerLatest, id, -⟩ := behind.origin shown
        rw [id]
        exact behind.below later older origin markerLatest.stored
    · -- the row of the message stands for a snapshot that is at least as late
      obtain ⟨final, finalLatest, reached⟩ := exists_latest new
      have whole : Supersedes (page ++ received) event final := by
        rcases reached with rfl | further
        · exact supersedes
        · refine supersedes.trans ⟨List.mem_append_right _ further.stored, further.message, further.same,
            further.after, fun marker held starts after => ?_⟩
          rcases List.mem_append.mp held with olderMarker | newMarker
          · exact absurd after (Nat.lt_asymm (behind.below marker olderMarker later new))
          · exact further.turn marker newMarker starts after
      obtain ⟨row, rowMember, displays⟩ := behind.shows.complete final finalLatest
      refine latest.unsuperseded row ⟨List.mem_append_right _ rowMember, whole.message, ?_, ?_,
        fun marker held starts after => ?_⟩
      · rw [displays.message]
        exact whole.same
      · rw [displays.id]
        exact whole.after
      · rw [displays.id]
        rcases List.mem_append.mp held with olderMarker | shown
        · exact whole.turn marker (List.mem_append_left _ olderMarker) starts after
        · obtain ⟨origin, markerLatest, id, -, isMarker⟩ := behind.origin shown
          rw [id] at after ⊢
          exact whole.turn origin (List.mem_append_right _ markerLatest.stored) (isMarker ▸ starts) after
  · refine fun latest => ⟨List.mem_append_left _ member, fun later supersedes => ?_⟩
    have turn : ∀ marker ∈ page ++ received, marker.startsTurn → event.id < marker.id →
        later.id < marker.id := by
      intro marker held starts after
      rcases List.mem_append.mp held with olderMarker | newMarker
      · exact supersedes.turn marker (List.mem_append_left _ olderMarker) starts after
      · obtain ⟨markerRow, markerMember, id, isMarker⟩ := behind.marker newMarker starts
        rw [← id] at after ⊢
        exact supersedes.turn markerRow (List.mem_append_right _ markerMember) isMarker after
    rcases List.mem_append.mp supersedes.stored with older | shown
    · exact latest.unsuperseded later ⟨List.mem_append_left _ older, supersedes.message,
        supersedes.same, supersedes.after, turn⟩
    · obtain ⟨origin, originLatest, id, named, -⟩ := behind.origin shown
      rw [id] at turn
      refine latest.unsuperseded origin ⟨List.mem_append_right _ originLatest.stored,
        supersedes.message, named ▸ supersedes.same, id ▸ supersedes.after, turn⟩

/-- The rows of the page and of what was received show both. -/
theorem flatten {merged : List Event} (shows' : Shows Event.shown (page ++ rows) merged) :
    Shows Event.shown (page ++ received) merged := by
  refine ⟨fun row member => ?_, fun event latest => ?_, shows'.distinct, shows'.turns⟩
  · obtain ⟨shown, latest, displays⟩ := shows'.sound row member
    rcases List.mem_append.mp latest.stored with older | held
    · exact ⟨shown, (behind.latest_page older).mp latest, displays⟩
    · obtain ⟨event, isLatest, displays'⟩ := behind.shows.sound shown held
      exact ⟨event, (behind.latest_received isLatest.stored).mpr isLatest,
        displays.id.trans displays'.id, displays.type.trans displays'.type,
        displays.message.trans displays'.message, displays.shown.trans displays'.shown⟩
  · rcases List.mem_append.mp latest.stored with older | new
    · exact shows'.complete event ((behind.latest_page older).mpr latest)
    · obtain ⟨shown, held, displays⟩ :=
        behind.shows.complete event ((behind.latest_received new).mp latest)
      obtain ⟨row, member, displays'⟩ := shows'.complete shown (behind.latest_row held)
      exact ⟨row, member, displays'.id.trans displays.id, displays'.type.trans displays.type,
        displays'.message.trans displays.message, displays'.shown.trans displays.shown⟩

/-- The merge shows the page and what was received, in the order of their ids. -/
theorem merged_shows (plainPage : ∀ event ∈ page, event.Plain) (plainRows : ∀ row ∈ rows, row.Plain)
    (follows : ∀ before event after, page ++ rows = before ++ event :: after →
      Follows before event) :
    ∃ live merged, Viewer.merged page rows = .ok (live, merged) ∧
      Shows Event.shown (page ++ received) merged ∧ Ordered merged ∧ ∀ row ∈ merged, row.Plain := by
  have newer := behind.newer
  have start : Session.start.Tracks Event.shown Event.shown := Session.Tracks.start
  obtain ⟨next, appended, tracks, receives, ordered, plain⟩ :=
    append_whole start .nil (fun _ member => absurd member List.not_mem_nil) newer
      (fun event member => (List.mem_append.mp member).elim (plainPage event) (plainRows event))
      fun before event after split => follows before event after split
  refine ⟨next.accumulator, next.rows, ?_, behind.flatten ?_, ordered, plain⟩
  · rw [Viewer.merged, foldl_put (by rw [List.nil_append]; exact newer.ordered.distinct),
      List.nil_append, sorted_eq newer.ordered]
    exact appended
  · have shows' := tracks.shows
    rwa [receives] at shows'

end Behind

end Cairn.Live

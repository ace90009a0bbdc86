import Cairn.Live.Rows
import Cairn.Live.Session

/-!
Owns when the client rebuilds every message exactly: what one event of the stream does to a
session, and from it what a whole feed does, however it is divided into batches.

Does not own the older pages of history.
-/

set_option autoImplicit false

namespace Cairn.Live

open Cairn.Library.HashMaps
open Cairn.Library.Steps

variable {session : Session} {sent received : List Event} {event : Event} {deltas : TextDeltas}
  {message : String}

/-- The client holds the full text of the latest snapshot of every message, and every other
event; its fold never threw. -/
structure Session.Exact (session : Session) : Prop where
  unbroken : session.broken = false
  held : ∀ event, Latest session.received event →
    ∃ row ∈ session.rows, row.id = event.id ∧ row.shown = event.shown
  latest : ∀ row ∈ session.rows,
    ∃ event, Latest session.received event ∧ row.id = event.id ∧ row.shown = event.shown

/-- The text that an event's own text extends, if the connection sends only the rest. -/
def baseline (sent : List Event) (event : Event) : Option Text := do
  let item ← event.snapshot?
  let content ← item.text
  let previous ← lastText sent item.id
  if previous.isPrefixOf content then some previous else none

/-- What the message of an event last showed in this turn. -/
def lastShown (received : List Event) (event : Event) : Option Text :=
  (event.message?.bind (lastSnapshot received)).map Event.shown

/-- The delta that an event is sent with: what its text appends, or one that was stored. -/
def wireDelta (sent : List Event) (event : Event) : Option Text := do
  let item ← event.snapshot?
  match baseline sent event with
  | some previous => item.text.map fun content => content.drop previous.length
  | none => item.delta

/-- A text that is sent as what it appends extends what its message last showed; and a `delta`
of the stored item itself is what the text appends to it. -/
def Faithful (sent received : List Event) (event : Event) : Prop :=
  match baseline sent event with
  | some previous => lastShown received event = some previous
  | none => ∀ delta ∈ event.snapshot?.bind Item.delta,
      (lastShown received event).map (· ++ delta) = some event.shown

instance (sent received : List Event) (event : Event) :
    Decidable (Faithful sent received event) := by
  unfold Faithful
  split <;> infer_instance

/-- What the store may record next. -/
def Session.Admits (session : Session) : Feed → Prop
  | .event event => session.cursor < event.id ∧ event.Marked
  | _ => True

instance (session : Session) (part : Feed) : Decidable (session.Admits part) := by
  unfold Session.Admits Event.Marked
  split <;> infer_instance

def feed (session : Session) (part : Feed) : Option Session :=
  if session.Admits part then some (session.step part.step) else none

def Session.Faithful (session : Session) : Feed → Prop
  | .event event => Live.Faithful session.sent session.received event
  | _ => True

instance (session : Session) (part : Feed) : Decidable (session.Faithful part) := by
  unfold Session.Faithful
  split <;> infer_instance

/-! ### The encoder -/

/-- The delta that an event is sent as. -/
def compressed (event : Event) (item : Item) (suffix : Text) : Event :=
  { event with text := [], item := some { item with text := none, delta := some suffix } }

theorem dropPrefix?_eq_some {content previous suffix : Text} :
    content.dropPrefix? previous = some suffix ↔ content = previous ++ suffix := by
  rw [List.dropPrefix?_eq_some_iff]
  constructor
  · rintro ⟨start, whole, equal⟩
    rwa [eq_of_beq equal] at whole
  · exact fun whole => ⟨previous, whole, beq_self_eq_true previous⟩

theorem isPrefixOf_of_dropPrefix? {content previous : Text} :
    previous.isPrefixOf content = (content.dropPrefix? previous).isSome := by
  rw [Bool.eq_iff_iff, List.isPrefixOf_iff_prefix, Option.isSome_iff_exists]
  simp only [dropPrefix?_eq_some]
  exact ⟨fun ⟨suffix, whole⟩ => ⟨suffix, whole.symm⟩, fun ⟨suffix, whole⟩ => ⟨suffix, whole.symm⟩⟩

theorem snapshot_eq_some {item : Item} : event.snapshot? = some item ↔
    event.item = some item ∧ item.type = "agent_message" ∧ item.id ≠ "" := by
  simp [Event.snapshot?, Option.filter_eq_some_iff]

theorem suffix_of_snapshot {item : Item} (snapshot : event.snapshot? = some item) :
    deltas.suffix event.item = match item.text with
      | none => (deltas, none)
      | some content => (deltas.insert item.id content,
          (deltas.lookup item.id).bind fun previous => content.dropPrefix? previous) := by
  obtain ⟨stored, type, named⟩ := snapshot_eq_some.mp snapshot
  have kept : (item.text.filter fun _ => item.id != "") = item.text := by
    cases item.text <;> simp [Option.filter, named]
  cases written : item.text <;>
    simp [TextDeltas.suffix, stored, type, named, written, Option.filter]

theorem suffix_of_other (other : event.snapshot? = none) :
    deltas.suffix event.item = (deltas, none) := by
  unfold TextDeltas.suffix
  cases stored : event.item with
  | none => rfl
  | some item =>
      have unnamed : item.type = "agent_message" → item.id = "" := by
        simpa [Event.snapshot?, stored, Option.filter_eq_none_iff] using other
      by_cases type : item.type = "agent_message"
      · simp [type, unnamed type]
      · simp [type]

theorem suffix_lookup (deltas : TextDeltas) (event : Event) (message : String) :
    (deltas.suffix event.item).1.lookup message =
      match event.snapshot? with
      | none => deltas.lookup message
      | some item => if item.id = message then item.text <|> deltas.lookup message
          else deltas.lookup message := by
  cases snapshot : event.snapshot? with
  | none => rw [suffix_of_other snapshot]
  | some item =>
      rw [suffix_of_snapshot snapshot]
      cases written : item.text with
      | none => simp [written]
      | some content =>
          simp only [lookup_insert]
          by_cases same : message = item.id
          · simp [same, written]
          · simp [same, Ne.symm same]

/-- The encoder remembers the text last sent of each message. -/
theorem encodeEvent_lookup (encoder : ∀ message, deltas.lookup message = lastText sent message)
    (event : Event) (message : String) :
    (deltas.encodeEvent event).1.lookup message = lastText (sent ++ [event]) message := by
  have remembered : (deltas.encodeEvent event).1 =
      ((if event.startsTurn then ∅ else deltas).suffix event.item).1 := by
    unfold TextDeltas.encodeEvent
    dsimp only
    split <;> simp_all
  rw [remembered, suffix_lookup, lastText_concat, hold, ← encoder]
  cases event.startsTurn <;> rfl

/-- An event is sent whole, or as what its text appends to its baseline. -/
theorem encodeEvent_sent (encoder : ∀ message, deltas.lookup message = lastText sent message)
    (marked : event.Marked) :
    (baseline sent event = none ∧ (deltas.encodeEvent event).2 = event) ∨
      ∃ item previous suffix, event.snapshot? = some item ∧ baseline sent event = some previous ∧
        item.text = some (previous ++ suffix) ∧
        (deltas.encodeEvent event).2 = compressed event item suffix := by
  cases snapshot : event.snapshot? with
  | none =>
      refine .inl ⟨by simp [baseline, snapshot], ?_⟩
      simp [TextDeltas.encodeEvent, suffix_of_other snapshot]
  | some item =>
      have goes : event.startsTurn = false := Bool.eq_false_iff.mpr fun starts => by
        have unnamed := marked starts
        rw [message_of_snapshot snapshot] at unnamed
        exact nomatch unnamed
      simp only [TextDeltas.encodeEvent, goes, Bool.false_eq_true, if_false,
        suffix_of_snapshot snapshot, baseline, snapshot, Option.bind_eq_bind, Option.bind_some,
        encoder]
      cases written : item.text with
      | none => exact .inl ⟨rfl, rfl⟩
      | some content =>
          simp only [Option.bind_some]
          cases known : lastText sent item.id with
          | none => exact .inl ⟨rfl, rfl⟩
          | some previous =>
              simp only [Option.bind_some, isPrefixOf_of_dropPrefix?]
              cases drop : content.dropPrefix? previous with
              | none => exact .inl ⟨rfl, rfl⟩
              | some suffix =>
                  refine .inr ⟨item, previous, suffix, rfl, rfl, ?_, ?_⟩
                  · rw [written, dropPrefix?_eq_some.mp drop]
                  · simp [compressed, (snapshot_eq_some.mp snapshot).1]

/-- What is sent for a snapshot carries the delta, if any, and else shows what was stored. -/
theorem encodeEvent_snapshot {item : Item}
    (encoder : ∀ message, deltas.lookup message = lastText sent message) (marked : event.Marked)
    (snapshot : event.snapshot? = some item) :
    ∃ wire kept, (deltas.encodeEvent event).2 = wire ∧ wire.id = event.id ∧
      wire.type = event.type ∧ wire.snapshot? = some kept ∧ kept.id = item.id ∧
      kept.delta = wireDelta sent event ∧ (kept.delta = none → wire.shown = event.shown) := by
  rcases encodeEvent_sent encoder marked with
    ⟨unextended, same⟩ | ⟨found, previous, suffix, isItem, extended, text, same⟩
  · refine ⟨event, item, same, rfl, rfl, snapshot, rfl, ?_, fun _ => rfl⟩
    simp [wireDelta, snapshot, unextended]
  · obtain rfl := Option.some.inj (snapshot.symm.trans isItem)
    obtain ⟨-, type, named⟩ := snapshot_eq_some.mp snapshot
    refine ⟨compressed event item suffix, { item with text := none, delta := some suffix }, same,
      rfl, rfl, snapshot_eq_some.mpr ⟨rfl, type, named⟩, rfl, ?_, fun absent => (nomatch absent)⟩
    simp [wireDelta, snapshot, extended, text]

/-! ### The fold -/

/-- A fold and its rows after an event that shows some text. -/
structure Folds (display : Event → Text) (received : List Event) (event : Event) (text : Text)
    (next : LiveEvents × List Event) : Prop where
  cursor : next.1.cursor = event.id
  shows : Shows (displayed display event text) (received ++ [event]) next.2
  indexed : Indexed (received ++ [event]) next.2 next.1.messages

/-- The event with its full text, as a client keeps it. -/
def rebuilt (wire : Event) (item : Item) (text : Text) : Event :=
  { wire with text, item := some { item with delta := none, text := some text } }

theorem rebuilt_displays {wire : Event} {item : Item} (id : wire.id = event.id)
    (type : wire.type = event.type) (own : event.message? = some item.id)
    (snapshot : wire.snapshot? = some item) (text : Text) :
    Displays text (rebuilt wire item text) event := by
  refine ⟨id, type, ?_, rfl⟩
  obtain ⟨-, itemType, named⟩ := snapshot_eq_some.mp snapshot
  have kept : (rebuilt wire item text).snapshot? =
      some { item with delta := none, text := some text } :=
    snapshot_eq_some.mpr ⟨rfl, itemType, named⟩
  have named' := message_of_snapshot kept
  exact named'.trans own.symm

section Fold

variable {display : Event → Text} {live : LiveEvents} {rows : List Event} {row : Event} {item : Item} {text : Text}
  (ordered : Ordered received) (recorded : Recorded received event)
  (shows' : Shows display received rows) (indexed : Indexed received rows live.messages)

include ordered recorded shows' indexed

theorem folds_other (after : live.cursor < event.id) (other : event.snapshot? = none) :
    ∃ next, live.appendEvent rows event = .ok next ∧ Folds display received event event.shown next := by
  refine ⟨(⟨event.id, if event.startsTurn then ∅ else live.messages⟩, rows ++ [event]),
    ?_, ⟨rfl, ?_, ?_⟩⟩
  · simp [LiveEvents.appendEvent, not_le.mpr after, other]
  · refine shows'.push ordered recorded ⟨rfl, rfl, rfl, rfl⟩ fun message own => ?_
    rw [message_eq_none.mpr other] at own
    exact nomatch own
  · exact indexed.kept (message_eq_none.mpr other)

/-- A message's row is placed where the message is, or last. -/
theorem folds_place (goes : event.startsTurn = false) (own : event.message? = some message)
    (displays : Displays text row event) :
    ∃ next, LiveEvents.place live.messages rows row message (live.messages.lookup message) =
      .ok next ∧ Folds display received event text next := by
  rcases indexed message with ⟨absent, first⟩ | ⟨index, current, old, found, snapshot, at', same⟩
  · rw [absent]
    refine ⟨_, rfl, displays.id, ?_, indexed.insert own goes displays.id⟩
    refine shows'.push ordered recorded displays fun named own' => ?_
    obtain rfl := Option.some.inj (own.symm.trans own')
    exact first
  · have kept : Displays text { row with createdAt := old.createdAt } event :=
      ⟨displays.id, displays.type, displays.message, displays.shown⟩
    rw [found]
    refine ⟨(⟨row.id, live.messages⟩, rows.set index { row with createdAt := old.createdAt }), ?_,
      displays.id, ?_, ?_⟩
    · simp [LiveEvents.place, LiveEvents.rowAt, at', bind, Except.bind, pure, Except.pure]
    · exact shows'.replace ordered recorded kept own goes snapshot at' same
    · exact indexed.replace ordered kept own goes snapshot at' same found

/-- A snapshot that is sent whole shows its text, one that is sent as a delta what the message
showed and the delta; without a row of the message the fold throws. -/
theorem folds_snapshot {wire : Event} (after : live.cursor < event.id)
    (goes : event.startsTurn = false) (own : event.message? = some item.id)
    (id : wire.id = event.id) (type : wire.type = event.type) (snapshot : wire.snapshot? = some item) :
    match item.delta with
    | none => ∃ next, live.appendEvent rows wire = .ok next ∧ Folds display received event wire.shown next
    | some delta => match (event.message?.bind (lastSnapshot received)).map display with
      | none => ∃ failure, live.appendEvent rows wire = .error failure
      | some base => ∃ next, live.appendEvent rows wire = .ok next ∧
          Folds display received event (base ++ delta) next := by
  have message : wire.message? = event.message? := by rw [own, message_of_snapshot snapshot]
  have goesWire : wire.startsTurn = false := by
    rw [← goes]
    simp [Event.startsTurn, type]
  have fold : live.appendEvent rows wire =
      (LiveEvents.rebuild rows wire item (live.messages.lookup item.id)).bind fun whole =>
        LiveEvents.place live.messages rows whole item.id (live.messages.lookup item.id) := by
    simp only [LiveEvents.appendEvent, id, not_le.mpr after, if_false, goesWire, Bool.false_eq_true,
      snapshot]
    rfl
  cases sentDelta : item.delta with
  | none =>
      dsimp only
      obtain ⟨next, placed, folds⟩ := folds_place ordered recorded shows' indexed goes own
        ⟨id, type, message, rfl⟩
      refine ⟨next, ?_, folds⟩
      rw [fold]
      simp only [LiveEvents.rebuild, sentDelta, Except.bind]
      exact placed
  | some delta =>
      dsimp only
      rw [own, Option.bind_some]
      rcases indexed item.id with ⟨absent, first⟩ | ⟨index, current, old, found, held, at', same⟩
      · rw [first]
        exact ⟨_, by simp only [fold, LiveEvents.rebuild, sentDelta, absent]; rfl⟩
      · rw [held]
        dsimp only [Option.map_some]
        have whole : LiveEvents.rebuild rows wire item (some index) =
            .ok (rebuilt wire item (display current ++ delta)) := by
          obtain ⟨origin, latest, displays⟩ := shows'.sound old (List.mem_of_getElem? at')
          have currentMember := ((lastSnapshot_eq_some ordered).mp held).1
          obtain rfl := ordered.eq_of_id latest.stored currentMember (displays.id.symm.trans same)
          simp [LiveEvents.rebuild, LiveEvents.rowAt, sentDelta, at', rebuilt, displays.shown, bind,
            Except.bind, pure, Except.pure]
        obtain ⟨next, placed, folds⟩ := folds_place ordered recorded shows' indexed goes own
          (rebuilt_displays id type own snapshot (display current ++ delta))
        refine ⟨next, ?_, folds⟩
        rw [fold, found, whole]
        rwa [found] at placed

end Fold

/-! ### The session -/

/-- A cached fold is that of the events it folds. -/
structure CachedHistory.Tracks (display : Event → Text) (cached : CachedHistory) : Prop where
  ordered : Ordered cached.received
  bounded : ∀ event ∈ cached.received, event.id ≤ cached.cursor
  marked : ∀ event ∈ cached.received, event.Marked
  shows : Shows display cached.received cached.events

/-- Encoder and client agree on what was sent and received; the rows and the cached fold show
it with some texts. -/
structure Session.Tracks (display saved : Event → Text) (session : Session) : Prop where
  unbroken : session.broken = false
  ordered : Ordered session.received
  bounded : ∀ event ∈ session.received, event.id ≤ session.cursor
  marked : ∀ event ∈ session.received, event.Marked
  cursor : session.accumulator.cursor = session.cursor
  encoder : ∀ message, session.deltas.lookup message = lastText session.sent message
  connection : session.sent <:+ session.received
  shows : Shows display session.received session.rows
  indexed : Indexed session.received session.rows session.accumulator.messages
  cached : ∀ cached, session.cached = some cached → cached.Tracks saved

namespace Session.Tracks

variable {display saved : Event → Text}

theorem exact (tracks : session.Tracks Event.shown Event.shown) : session.Exact := by
  refine ⟨tracks.unbroken, fun event latest => ?_, fun row member => ?_⟩
  · obtain ⟨row, member, displays⟩ := tracks.shows.complete event latest
    exact ⟨row, member, displays.id, displays.shown⟩
  · obtain ⟨event, latest, displays⟩ := tracks.shows.sound row member
    exact ⟨event, latest, displays.id, displays.shown⟩

theorem start : Session.start.Tracks display saved where
  unbroken := rfl
  ordered := .nil
  bounded := fun _ member => nomatch member
  marked := fun _ member => nomatch member
  cursor := rfl
  encoder := fun _ => rfl
  connection := List.nil_suffix
  shows := Shows.nil
  indexed := Indexed.nil
  cached := fun _ found => nomatch found

theorem reset (tracks : session.Tracks display saved) : (session.deliver [] true).Tracks display saved where
  unbroken := tracks.unbroken
  ordered := .nil
  bounded := fun _ member => nomatch member
  marked := fun _ member => nomatch member
  cursor := rfl
  encoder := fun _ => rfl
  connection := List.nil_suffix
  shows := Shows.nil
  indexed := Indexed.nil
  cached := tracks.cached

theorem reconnect (tracks : session.Tracks display saved) : session.reconnect.Tracks display saved :=
  { tracks with encoder := fun _ => rfl, connection := List.nil_suffix }

theorem save (tracks : session.Tracks display saved) (oldest : Nat) :
    (session.save oldest).Tracks display display := by
  refine { tracks with cached := fun cached found => ?_ }
  obtain rfl := Option.some.inj found
  exact {
    ordered := tracks.ordered.sublist List.filter_sublist
    bounded := fun event member => tracks.bounded event (List.mem_filter.mp member).1
    marked := fun event member => tracks.marked event (List.mem_filter.mp member).1
    shows := tracks.shows.trim oldest }

theorem reload (tracks : session.Tracks display saved) :
    session.reload.Tracks display saved ∨ session.reload.Tracks saved saved := by
  unfold Session.reload
  split
  · exact .inl tracks
  · rename_i cached found
    have kept := tracks.cached cached found
    exact .inr {
      unbroken := tracks.unbroken
      ordered := kept.ordered
      bounded := kept.bounded
      marked := kept.marked
      cursor := rfl
      encoder := fun _ => rfl
      connection := List.nil_suffix
      shows := kept.shows
      indexed := kept.shows.restore kept.ordered kept.marked cached.cursor
      cached := tracks.cached }

theorem recorded (tracks : session.Tracks display saved) (admitted : session.Admits (.event event)) :
    Recorded session.received event :=
  ⟨fun old member => lt_of_le_of_lt (tracks.bounded old member) admitted.1, admitted.2⟩

/-- One event is folded with its text, or with what its message is displayed with and a
delta; a delta to nothing throws. -/
theorem deliver_event (tracks : session.Tracks display saved)
    (admitted : session.Admits (.event event)) :
    match wireDelta session.sent event with
    | none => ∃ next, session.deliver [event] false =
          session.folded (session.deltas.encodeEvent event).1 event next.1 next.2 ∧
        Folds display session.received event event.shown next
    | some delta => match (event.message?.bind (lastSnapshot session.received)).map display with
      | none => (session.deliver [event] false).broken = true
      | some base => ∃ next, session.deliver [event] false =
            session.folded (session.deltas.encodeEvent event).1 event next.1 next.2 ∧
          Folds display session.received event (base ++ delta) next := by
  have recorded := tracks.recorded admitted
  have after : session.accumulator.cursor < event.id := by
    rw [tracks.cursor]
    exact admitted.1
  have whole : ∀ {wire : Event} {text : Text}, (session.deltas.encodeEvent event).2 = wire →
      (∃ next, session.accumulator.appendEvent session.rows wire = .ok next ∧
        Folds display session.received event text next) →
      ∃ next, session.deliver [event] false =
          session.folded (session.deltas.encodeEvent event).1 event next.1 next.2 ∧
        Folds display session.received event text next := by
    rintro wire text rfl ⟨next, appended, folds⟩
    exact ⟨next, deliver_ok rfl appended, folds⟩
  cases snapshot : event.snapshot? with
  | none =>
      have plain : wireDelta session.sent event = none := by simp [wireDelta, snapshot]
      have same : (session.deltas.encodeEvent event).2 = event := by
        rcases encodeEvent_sent tracks.encoder admitted.2 with ⟨-, same⟩ | ⟨item, -, -, found, -⟩
        · exact same
        · rw [snapshot] at found
          exact nomatch found
      rw [plain]
      exact whole same (folds_other tracks.ordered recorded tracks.shows tracks.indexed after snapshot)
  | some item =>
      have own := message_of_snapshot snapshot
      have goes : event.startsTurn = false := Bool.eq_false_iff.mpr fun starts => by
        have unnamed := admitted.2 starts
        rw [own] at unnamed
        exact nomatch unnamed
      obtain ⟨wire, kept, same, id, type, sentItem, sameMessage, delta, shown⟩ :=
        encodeEvent_snapshot tracks.encoder admitted.2 snapshot
      rw [← sameMessage] at own
      have outcome := folds_snapshot tracks.ordered recorded tracks.shows tracks.indexed after goes
        own id type sentItem
      rw [delta] at outcome shown
      cases sentDelta : wireDelta session.sent event with
      | none =>
          rw [sentDelta] at outcome
          rw [← shown sentDelta]
          exact whole same outcome
      | some delta =>
          rw [sentDelta] at outcome
          dsimp only at outcome ⊢
          cases base : (event.message?.bind (lastSnapshot session.received)).map display with
          | none =>
              rw [base] at outcome
              obtain ⟨failure, failed⟩ := outcome
              exact Session.deliver_error rfl (same ▸ failed)
          | some shown =>
              rw [base] at outcome
              exact whole same outcome

/-- An event that was folded leaves a session that tracks it. -/
theorem folded {text : Text} {next : LiveEvents × List Event}
    (tracks : session.Tracks display saved) (admitted : session.Admits (.event event))
    (folds : Folds display session.received event text next) :
    (session.folded (session.deltas.encodeEvent event).1 event next.1 next.2).Tracks
      (displayed display event text) saved := by
  have recorded := tracks.recorded admitted
  have either : ∀ {other : Event}, other ∈ session.received ++ [event] →
      other ∈ session.received ∨ other = event := fun member => by simpa using member
  refine ⟨tracks.unbroken, tracks.ordered.concat recorded.fresh, fun other member => ?_,
    fun other member => ?_, folds.cursor, encodeEvent_lookup tracks.encoder event, ?_, folds.shows,
    folds.indexed, tracks.cached⟩
  · rcases either member with old | rfl
    · exact (recorded.fresh other old).le
    · exact le_rfl
  · rcases either member with old | rfl
    · exact tracks.marked other old
    · exact admitted.2
  · obtain ⟨before, received⟩ := tracks.connection
    exact ⟨before, by simp [Session.folded, ← received]⟩

end Session.Tracks

/-! ### Faithful events -/

theorem wireDelta_of_baseline {previous : Text} (extended : baseline sent event = some previous) :
    ∃ suffix, wireDelta sent event = some suffix ∧ event.shown = previous ++ suffix := by
  have unfolded := extended
  simp only [baseline, Option.bind_eq_bind, Option.bind_eq_some_iff] at unfolded
  obtain ⟨item, snapshot, content, written, known, -, extends'⟩ := unfolded
  split at extends'
  · rename_i isPrefix
    obtain rfl := Option.some.inj extends'
    obtain ⟨suffix, rfl⟩ := List.isPrefixOf_iff_prefix.mp isPrefix
    refine ⟨suffix, ?_, ?_⟩
    · simp [wireDelta, snapshot, extended, written]
    · simp [Event.shown, (snapshot_eq_some.mp snapshot).1, written]
  · exact nomatch extends'

/-- A faithful event is one whose delta yields its text. -/
theorem faithful_iff : Faithful sent received event ↔
    ∀ delta, wireDelta sent event = some delta →
      (lastShown received event).map (· ++ delta) = some event.shown := by
  unfold Faithful
  split
  · rename_i previous extended
    obtain ⟨suffix, delta, shown⟩ := wireDelta_of_baseline extended
    rw [delta, shown]
    cases lastShown received event <;> simp
  · rename_i unextended
    have delta : wireDelta sent event = event.snapshot?.bind Item.delta := by
      cases snapshot : event.snapshot? <;> simp [wireDelta, snapshot, unextended]
    rw [delta]
    rfl

namespace Session.Tracks

/-- A faithful event is shown with its own text. -/
theorem faithful (tracks : session.Tracks Event.shown Event.shown)
    (admitted : session.Admits (.event event))
    (faithful : Live.Faithful session.sent session.received event) :
    (session.deliver [event] false).Tracks Event.shown Event.shown := by
  have delivered := tracks.deliver_event admitted
  have shown : ∃ next, session.deliver [event] false =
        session.folded (session.deltas.encodeEvent event).1 event next.1 next.2 ∧
      Folds Event.shown session.received event event.shown next := by
    cases sentDelta : wireDelta session.sent event with
    | none => rwa [sentDelta] at delivered
    | some delta =>
        rw [sentDelta] at delivered
        have whole := faithful_iff.mp faithful delta sentDelta
        obtain ⟨base, known, equal⟩ := Option.map_eq_some_iff.mp whole
        unfold lastShown at known
        rw [known] at delivered
        rwa [← equal]
  obtain ⟨next, same, folds⟩ := shown
  have after := tracks.folded admitted folds
  rw [same]
  refine { after with shows := after.shows.congr fun other member => ?_ }
  unfold displayed
  split
  · rename_i sameId
    have newest : event ∈ session.received ++ [event] := by simp
    rw [after.ordered.eq_of_id member newest sameId]
  · rfl

/-- An event that is not faithful leaves a session that is not exact. -/
theorem unfaithful (tracks : session.Tracks Event.shown Event.shown)
    (admitted : session.Admits (.event event))
    (exact : (session.deliver [event] false).Exact) :
    Live.Faithful session.sent session.received event := by
  refine faithful_iff.mpr fun delta sentDelta => ?_
  have delivered := tracks.deliver_event admitted
  rw [sentDelta] at delivered
  dsimp only at delivered
  unfold lastShown
  cases known : (event.message?.bind (lastSnapshot session.received)).map Event.shown with
  | none =>
      rw [known] at delivered
      rw [exact.unbroken] at delivered
      exact nomatch delivered
  | some base =>
      rw [known] at delivered
      obtain ⟨next, same, folds⟩ := delivered
      have after := tracks.folded admitted folds
      rw [same] at exact
      have newest : Latest (session.received ++ [event]) event :=
        (latest_concat tracks.ordered (tracks.recorded admitted).fresh admitted.2).mpr (.inl rfl)
      obtain ⟨row, member, sameId, shown⟩ := exact.held event newest
      obtain ⟨origin, latest, displays⟩ := after.shows.sound row member
      obtain rfl := after.ordered.eq_of_id latest.stored newest.stored (displays.id.symm.trans sameId)
      have displayed := displays.shown
      rw [displayed_self, shown] at displayed
      rw [Option.map_some, displayed]

/-- What a part of the feed leaves is exact if and only if the part is faithful. -/
theorem feed_faithful {part : Feed} {next : Session}
    (tracks : session.Tracks Event.shown Event.shown) (faithful : session.Faithful part)
    (fed : feed session part = some next) : next.Tracks Event.shown Event.shown := by
  unfold feed at fed
  split at fed
  · rename_i admitted
    obtain rfl := Option.some.inj fed
    cases part with
    | event event => exact tracks.faithful admitted faithful
    | reset => exact tracks.reset
    | reconnect => exact tracks.reconnect
    | save oldest => exact tracks.save oldest
    | reload => exact tracks.reload.elim id id
  · exact nomatch fed

theorem feed_exact {part : Feed} {next : Session}
    (tracks : session.Tracks Event.shown Event.shown) (fed : feed session part = some next)
    (exact : next.Exact) : session.Faithful part := by
  unfold feed at fed
  split at fed
  · rename_i admitted
    obtain rfl := Option.some.inj fed
    cases part with
    | event event => exact tracks.unfaithful admitted exact
    | _ => trivial
  · exact nomatch fed

end Session.Tracks

/-! ### A whole feed -/

theorem execute_feed {parts : List Feed} {final : Session}
    (fed : execute feed session parts = some final) :
    (parts.map Feed.step).foldl Session.step session = final := by
  induction parts generalizing session with
  | nil => exact Option.some.inj fed
  | cons head tail inductionHypothesis =>
      obtain ⟨next, first, rest⟩ := execute_cons.mp fed
      unfold feed at first
      split at first
      · obtain rfl := Option.some.inj first
        exact inductionHypothesis rest
      · exact nomatch first

/-- Sessions that no client tells apart are exact together. -/
theorem Session.Same.exact_iff {first second : Session} (same : first.Same second) :
    first.Exact ↔ second.Exact := by
  rcases same with rfl | ⟨firstBroken, secondBroken⟩
  · exact Iff.rfl
  · refine ⟨fun exact => ?_, fun exact => ?_⟩
    · rw [exact.unbroken] at firstBroken
      exact nomatch firstBroken
    · rw [exact.unbroken] at secondBroken
      exact nomatch secondBroken

theorem Session.Tracks.throughout {parts : List Feed} {final : Session}
    (tracks : session.Tracks Event.shown Event.shown)
    (recorded : execute feed session parts = some final)
    (exact : ∀ before after state, parts = before ++ after →
      execute feed session before = some state → state.Exact) :
    Throughout feed Session.Faithful session parts := by
  induction parts generalizing session with
  | nil => trivial
  | cons head tail inductionHypothesis =>
      obtain ⟨next, first, rest⟩ := execute_cons.mp recorded
      have exactNext : next.Exact :=
        exact [head] tail next rfl (execute_cons.mpr ⟨next, first, rfl⟩)
      have faithful := tracks.feed_exact first exactNext
      refine ⟨faithful, fun other taken => ?_⟩
      obtain rfl := Option.some.inj (first.symm.trans taken)
      refine inductionHypothesis (tracks.feed_faithful faithful first) rest
        fun before after state divided reached => ?_
      exact exact (head :: before) after state (by rw [divided, List.cons_append])
        (execute_cons.mpr ⟨next, first, reached⟩)

/-- Every division of a feed into batches keeps the client exact, if and only if every text
that is sent as what it appends extends what its message last showed. -/
theorem reconstructed_iff {parts : List Feed} {final : Session}
    (recorded : execute feed Session.start parts = some final) :
    (∀ steps : List Step, steps.flatMap Step.feed <+: parts →
        (steps.foldl Session.step Session.start).Exact) ↔
      Throughout feed Session.Faithful Session.start parts := by
  constructor
  · intro exact
    refine Session.Tracks.start.throughout recorded fun before after state divided reached => ?_
    have finest := exact (before.map Feed.step) (by
      rw [flatMap_feed, divided]
      exact List.prefix_append before after)
    rwa [execute_feed reached] at finest
  · intro faithful steps divided
    obtain ⟨rest, rfl⟩ := divided
    obtain ⟨session, reached, -⟩ := execute_append.mp recorded
    have tracks : session.Tracks Event.shown Event.shown :=
      execute_invariant_where (fun _ _ _ tracks faithful fed => tracks.feed_faithful faithful fed)
        Session.Tracks.start (throughout_append.mp faithful).1 reached
    have same := Session.foldl_step_feed Session.start steps
    rw [execute_feed reached] at same
    exact same.exact_iff.mpr tracks.exact

/-- A snapshot of one message. -/
def agentMessage (id : Nat) (content : Option Text) (text : Text) : Event where
  id
  createdAt := id
  type := "item.updated"
  text
  item := some { type := "agent_message", id := "m", text := content, delta := none }

/-- A message that only grows is rebuilt, in one batch and in two. -/
theorem reconstructed_grown :
    (Session.start.deliver [agentMessage 1 (some ['H']) ['H'],
        agentMessage 2 (some ['H', 'i']) ['H', 'i']] false).Exact ∧
      ((Session.start.deliver [agentMessage 1 (some ['H']) ['H']] false).deliver
        [agentMessage 2 (some ['H', 'i']) ['H', 'i']] false).Exact := by
  have exact : ∀ steps : List Step,
      steps.flatMap Step.feed <+: [.event (agentMessage 1 (some ['H']) ['H']),
        .event (agentMessage 2 (some ['H', 'i']) ['H', 'i'])] →
      (steps.foldl Session.step Session.start).Exact := by
    refine (reconstructed_iff rfl).mpr ⟨by decide, fun first taken => ⟨?_, fun _ _ => trivial⟩⟩
    obtain rfl := Option.some.inj taken
    decide
  exact ⟨exact [.deliver [_, _] false] (List.prefix_refl _),
    exact [.deliver [_] false, .deliver [_] false] (List.prefix_refl _)⟩

/-- A message grows, is recorded once without its text, and grows on. -/
def interrupted : List Event :=
  [agentMessage 1 (some ['H', 'i']) ['H', 'i'], agentMessage 2 none ['\x7b', '\x7d'],
    agentMessage 3 (some ['H', 'i', '!']) ['H', 'i', '!']]

/-- The delta goes to what the message without its text shows. -/
theorem interrupted_text_mixed :
    (execute feed Session.start (interrupted.map Feed.event)).isSome = true ∧
      ¬ (Session.start.deliver interrupted false).Exact := by
  refine ⟨by decide, fun exact => ?_⟩
  have rows : (Session.start.deliver interrupted false).rows.map (fun row => (row.id, row.shown)) =
      [(3, ['\x7b', '\x7d', '!'])] := by decide
  have shown : (3, ['\x7b', '\x7d', '!']) ∈
      (Session.start.deliver interrupted false).rows.map (fun row => (row.id, row.shown)) := by
    rw [rows]
    exact List.mem_singleton_self _
  obtain ⟨row, member, equal⟩ := List.mem_map.mp shown
  obtain ⟨event, latest, id, text⟩ := exact.latest row member
  obtain ⟨rowId, rowText⟩ := Prod.mk.inj equal
  have stored : event ∈ interrupted := latest.stored
  rw [rowId] at id
  rw [rowText] at text
  simp only [interrupted, List.mem_cons, List.not_mem_nil, or_false] at stored
  rcases stored with rfl | rfl | rfl
  · exact absurd id (by decide)
  · exact absurd id (by decide)
  · exact absurd text (by decide)

/-! ### Baselines -/

/-- A stored event whose item carries no delta of its own. -/
def Feed.Plain : Feed → Prop
  | .event event => event.snapshot?.bind Item.delta = none
  | _ => True

/-- A delta that the encoder made has a row to append to. -/
theorem Session.Tracks.feed_plain {part : Feed} {next : Session} {display saved : Event → Text}
    (tracks : session.Tracks display saved) (plain : part.Plain)
    (fed : feed session part = some next) : ∃ display saved, next.Tracks display saved := by
  unfold feed at fed
  split at fed
  · rename_i admitted
    obtain rfl := Option.some.inj fed
    cases part with
    | event event =>
        have delivered := tracks.deliver_event admitted
        have shown : ∃ text next, session.deliver [event] false =
              session.folded (session.deltas.encodeEvent event).1 event next.1 next.2 ∧
            Folds display session.received event text next := by
          cases sentDelta : wireDelta session.sent event with
          | none =>
              rw [sentDelta] at delivered
              exact ⟨_, delivered⟩
          | some delta =>
              rw [sentDelta] at delivered
              obtain ⟨item, snapshot, current, known⟩ : ∃ item, event.snapshot? = some item ∧
                  ∃ current, lastSnapshot session.received item.id = some current := by
                cases extended : baseline session.sent event with
                | none =>
                    have own : wireDelta session.sent event = event.snapshot?.bind Item.delta := by
                      cases snapshot : event.snapshot? <;> simp [wireDelta, snapshot, extended]
                    rw [own, show event.snapshot?.bind Item.delta = none from plain] at sentDelta
                    exact nomatch sentDelta
                | some previous =>
                    simp only [baseline, Option.bind_eq_bind, Option.bind_eq_some_iff] at extended
                    obtain ⟨item, snapshot, content, -, text, known, -⟩ := extended
                    obtain ⟨before, received⟩ := tracks.connection
                    have held : ∃ current, lastSnapshot (before ++ session.sent) item.id =
                        some current := lastSnapshot_of_lastText known
                    rw [received] at held
                    exact ⟨item, snapshot, held⟩
              rw [message_of_snapshot snapshot, Option.bind_some, known] at delivered
              exact ⟨_, delivered⟩
        obtain ⟨text, next, same, folds⟩ := shown
        exact ⟨_, _, by
          have after := tracks.folded admitted folds
          rw [← same] at after
          exact after⟩
    | reset => exact ⟨_, _, tracks.reset⟩
    | reconnect => exact ⟨_, _, tracks.reconnect⟩
    | save oldest => exact ⟨_, _, tracks.save oldest⟩
    | reload => exact tracks.reload.elim (fun kept => ⟨_, _, kept⟩) fun kept => ⟨_, _, kept⟩
  · exact nomatch fed

/-- No feed of events that carry no delta of their own misses a baseline. -/
theorem baseline_never_missing {parts : List Feed} {final : Session}
    (recorded : execute feed Session.start parts = some final)
    (plain : ∀ part ∈ parts, part.Plain) {steps : List Step}
    (divided : steps.flatMap Step.feed <+: parts) :
    (steps.foldl Session.step Session.start).broken = false := by
  obtain ⟨rest, rfl⟩ := divided
  obtain ⟨session, reached, -⟩ := execute_append.mp recorded
  have preserved : ∀ session part next, (∃ display saved, session.Tracks display saved) →
      part.Plain → feed session part = some next → ∃ display saved, next.Tracks display saved := by
    rintro session part next ⟨display, saved, tracks⟩ plain fed
    exact tracks.feed_plain plain fed
  have throughout : Throughout feed (fun _ (part : Feed) => part.Plain) Session.start
      (steps.flatMap Step.feed) :=
    throughout_of_forall fun part member _ => plain part (List.mem_append_left _ member)
  obtain ⟨display, saved, tracks⟩ := execute_invariant_where preserved
    ⟨Event.shown, Event.shown, Session.Tracks.start⟩ throughout reached
  have same := Session.foldl_step_feed Session.start steps
  rw [execute_feed reached] at same
  rcases same with equal | ⟨-, broken⟩
  · rw [equal]
    exact tracks.unbroken
  · rw [tracks.unbroken] at broken
    exact nomatch broken

end Cairn.Live

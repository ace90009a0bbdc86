import Cairn.Live.Snapshots

/-!
Owns what a client's rows are to the events they fold: one row for every latest snapshot and
every other event, kept by an event that adds a row, by one that replaces a row, and by the
trimming and restoring of a cached fold.

Does not own how a batch is encoded.
-/

set_option autoImplicit false

namespace Cairn.Live

open Cairn.Library.HashMaps

variable {display : Event → Text} {received rows : List Event} {event row previous current : Event}
  {message : String} {messages : HashMap String Nat} {index : Nat} {text : Text}

/-- A row is an event as far as a client can tell, with some text. -/
structure Displays (text : Text) (row event : Event) : Prop where
  id : row.id = event.id
  type : row.type = event.type
  message : row.message? = event.message?
  shown : row.shown = text

/-- The rows are the latest events, with the texts that `display` gives them. -/
structure Shows (display : Event → Text) (received rows : List Event) : Prop where
  sound : ∀ row ∈ rows, ∃ event, Latest received event ∧ Displays (display event) row event
  complete : ∀ event, Latest received event → ∃ row ∈ rows, Displays (display event) row event
  distinct : (rows.map Event.id).Nodup
  turns : rows.Pairwise fun first second =>
    first.startsTurn ∨ second.startsTurn → first.id < second.id

/-- The row of each message of the turn is the one of its current snapshot. -/
def Indexed (received rows : List Event) (messages : HashMap String Nat) : Prop :=
  ∀ message, (messages.lookup message = none ∧ lastSnapshot received message = none) ∨
    ∃ index event row, messages.lookup message = some index ∧
      lastSnapshot received message = some event ∧ rows[index]? = some row ∧ row.id = event.id

/-- An event newer than those received, as the store records it. -/
structure Recorded (received : List Event) (event : Event) : Prop where
  fresh : ∀ old ∈ received, old.id < event.id
  marked : event.Marked

theorem Displays.startsTurn (displays : Displays text row event) :
    row.startsTurn = event.startsTurn := by
  simp [Event.startsTurn, displays.type]

theorem Shows.nil : Shows display [] [] :=
  ⟨fun _ member => (nomatch member), fun _ latest => (nomatch latest.stored), List.nodup_nil, .nil⟩

theorem Indexed.nil : Indexed [] [] ∅ := fun _ => .inl ⟨rfl, rfl⟩

namespace Shows

/-- Only the texts of the events received count. -/
theorem congr {other : Event → Text} (shows' : Shows display received rows)
    (same : ∀ event ∈ received, display event = other event) : Shows other received rows := by
  refine ⟨fun row member => ?_, fun event latest => ?_, shows'.distinct, shows'.turns⟩
  · obtain ⟨event, latest, displays⟩ := shows'.sound row member
    exact ⟨event, latest, same event latest.stored ▸ displays⟩
  · obtain ⟨row, member, displays⟩ := shows'.complete event latest
    exact ⟨row, member, same event latest.stored ▸ displays⟩

theorem old (shows' : Shows display received rows) (recorded : Recorded received event)
    (member : row ∈ rows) : row.id < event.id := by
  obtain ⟨origin, latest, displays⟩ := shows'.sound row member
  rw [displays.id]
  exact recorded.fresh origin latest.stored

theorem index_unique (shows' : Shows display received rows) {first second : Nat}
    {firstRow secondRow : Event} (firstAt : rows[first]? = some firstRow)
    (secondAt : rows[second]? = some secondRow) (same : firstRow.id = secondRow.id) :
    first = second := by
  have inside : first < (rows.map Event.id).length := by
    simpa using (List.getElem?_eq_some_iff.mp firstAt).1
  refine (List.getElem?_inj inside shows'.distinct).mp ?_
  simp [firstAt, secondAt, same]

end Shows

/-- The texts after an event: its own is new. -/
def displayed (display : Event → Text) (event : Event) (text : Text) : Event → Text :=
  fun other => if other.id = event.id then text else display other

theorem displayed_old (recorded : Recorded received event) {other : Event}
    (member : other ∈ received) : displayed display event text other = display other :=
  if_neg (recorded.fresh other member).ne

@[simp] theorem displayed_self : displayed display event text event = text := if_pos rfl

/-! ### A new row -/

section Push

variable (ordered : Ordered received) (recorded : Recorded received event)
  (displays : Displays text row event)

include ordered recorded displays

theorem Shows.push (shows' : Shows display received rows)
    (first : ∀ message, event.message? = some message → lastSnapshot received message = none) :
    Shows (displayed display event text) (received ++ [event]) (rows ++ [row]) := by
  have latest (other : Event) := @latest_concat _ _ ordered recorded.fresh recorded.marked other
  refine ⟨fun other member => ?_, fun other newLatest => ?_, ?_, ?_⟩
  · rcases List.mem_append.mp member with old | new
    · obtain ⟨origin, wasLatest, wasDisplayed⟩ := shows'.sound other old
      refine ⟨origin, (latest origin).mpr (.inr ⟨wasLatest, fun message own current => ?_⟩), ?_⟩
      · rw [first message own] at current
        exact nomatch current
      · rwa [displayed_old recorded wasLatest.stored]
    · rw [List.mem_singleton.mp new]
      exact ⟨event, (latest event).mpr (.inl rfl), by rwa [displayed_self]⟩
  · rcases (latest other).mp newLatest with rfl | ⟨wasLatest, -⟩
    · exact ⟨row, by simp, by rwa [displayed_self]⟩
    · obtain ⟨shown, member, wasDisplayed⟩ := shows'.complete other wasLatest
      refine ⟨shown, List.mem_append_left _ member, ?_⟩
      rwa [displayed_old recorded wasLatest.stored]
  · rw [List.map_append, List.nodup_append]
    refine ⟨shows'.distinct, List.nodup_singleton _, fun first firstMember second secondMember => ?_⟩
    obtain ⟨other, member, rfl⟩ := List.mem_map.mp firstMember
    rw [List.map_singleton, List.mem_singleton] at secondMember
    rw [secondMember, displays.id]
    exact (shows'.old recorded member).ne
  · refine List.pairwise_append.mpr ⟨shows'.turns, List.pairwise_singleton _ _,
      fun other member new newMember _ => ?_⟩
    rw [List.mem_singleton.mp newMember, displays.id]
    exact shows'.old recorded member

end Push

theorem Indexed.kept (indexed : Indexed received rows messages)
    (unnamed : event.message? = none) :
    Indexed (received ++ [event]) (rows ++ [row])
      (if event.startsTurn then ∅ else messages) := by
  intro message
  simp only [lastSnapshot_concat, track, unnamed, reduceCtorEq, if_false]
  cases event.startsTurn with
  | true => exact .inl ⟨rfl, rfl⟩
  | false =>
      rcases indexed message with absent | ⟨index, current, shown, found, snapshot, at', same⟩
      · exact .inl absent
      · refine .inr ⟨index, current, shown, found, snapshot, ?_, same⟩
        rw [List.getElem?_append_left (List.getElem?_eq_some_iff.mp at').1, at']

theorem Indexed.insert (indexed : Indexed received rows messages)
    (own : event.message? = some message) (goes : event.startsTurn = false)
    (same : row.id = event.id) :
    Indexed (received ++ [event]) (rows ++ [row]) (messages.insert message rows.length) := by
  intro other
  rw [lastSnapshot_concat, track, lookup_insert]
  by_cases equal : other = message
  · subst other
    refine .inr ⟨rows.length, event, row, if_pos rfl, if_pos own, by simp, same⟩
  · have different : event.message? ≠ some other := by
      rw [own]
      exact fun wrong => equal (Option.some.inj wrong).symm
    rw [if_neg equal, if_neg different, goes]
    rcases indexed other with absent | ⟨index, current, shown, found, snapshot, at', sameId⟩
    · exact .inl absent
    · refine .inr ⟨index, current, shown, found, snapshot, ?_, sameId⟩
      rw [List.getElem?_append_left (List.getElem?_eq_some_iff.mp at').1, at']

/-! ### A replaced row -/

section Replace

variable (ordered : Ordered received) (recorded : Recorded received event)
  (displays : Displays text row event) (own : event.message? = some message)
  (goes : event.startsTurn = false) (snapshot : lastSnapshot received message = some current)
  (at' : rows[index]? = some previous) (same : previous.id = current.id)

include ordered recorded displays own goes snapshot at' same

theorem Shows.replace (shows' : Shows display received rows) :
    Shows (displayed display event text) (received ++ [event]) (rows.set index row) := by
  have latest (other : Event) := @latest_concat _ _ ordered recorded.fresh recorded.marked other
  obtain ⟨currentMember, -, unfollowed⟩ := (lastSnapshot_eq_some ordered).mp snapshot
  have inside : index < rows.length := (List.getElem?_eq_some_iff.mp at').1
  -- the rows other than the replaced one are those of the other events
  have others : ∀ {place : Nat} {other origin : Event}, rows[place]? = some other →
      other.id = origin.id → origin ∈ received → (place = index ↔ origin = current) := by
    intro place other origin placed sameId member
    constructor
    · rintro rfl
      obtain rfl := Option.some.inj (placed.symm.trans at')
      exact ordered.eq_of_id member currentMember (sameId.symm.trans same)
    · rintro rfl
      exact shows'.index_unique placed at' (sameId.trans same.symm)
  refine ⟨fun other member => ?_, fun other newLatest => ?_, ?_, ?_⟩
  · obtain ⟨place, placed⟩ := List.mem_iff_getElem?.mp member
    rw [List.getElem?_set] at placed
    by_cases here : index = place
    · rw [if_pos here, if_pos inside] at placed
      rw [← Option.some.inj placed]
      exact ⟨event, (latest event).mpr (.inl rfl), by rwa [displayed_self]⟩
    · rw [if_neg here] at placed
      obtain ⟨origin, wasLatest, wasDisplayed⟩ := shows'.sound other (List.mem_of_getElem? placed)
      refine ⟨origin, (latest origin).mpr (.inr ⟨wasLatest, fun named named' held => ?_⟩), ?_⟩
      · obtain rfl := Option.some.inj (own.symm.trans named')
        exact here ((others placed wasDisplayed.id wasLatest.stored).mpr
          (Option.some.inj (held.symm.trans snapshot))).symm
      · rwa [displayed_old recorded wasLatest.stored]
  · rcases (latest other).mp newLatest with rfl | ⟨wasLatest, kept⟩
    · exact ⟨row, List.mem_set inside row, by rwa [displayed_self]⟩
    · obtain ⟨shown, member, wasDisplayed⟩ := shows'.complete other wasLatest
      obtain ⟨place, placed⟩ := List.mem_iff_getElem?.mp member
      refine ⟨shown, List.mem_iff_getElem?.mpr ⟨place, ?_⟩, ?_⟩
      · rw [List.getElem?_set, if_neg, placed]
        intro here
        have replaced := (others placed wasDisplayed.id wasLatest.stored).mp here.symm
        exact kept message own (replaced ▸ snapshot)
      · rwa [displayed_old recorded wasLatest.stored]
  · rw [List.map_set]
    refine shows'.distinct.set fun member => ?_
    obtain ⟨other, otherMember, sameId⟩ := List.mem_map.mp member
    rw [displays.id] at sameId
    exact (shows'.old recorded otherMember).ne sameId
  · refine List.pairwise_iff_getElem.mpr fun first second firstAt secondAt before => ?_
    have firstInside : first < rows.length := by simpa using firstAt
    have secondInside : second < rows.length := by simpa using secondAt
    have turns := List.pairwise_iff_getElem.mp shows'.turns first second firstInside secondInside before
    simp only [List.getElem_set]
    by_cases firstHere : index = first
    · have secondElsewhere : index ≠ second := by omega
      subst index
      rw [if_pos rfl, if_neg secondElsewhere]
      rintro (starts | starts)
      · rw [displays.startsTurn, goes] at starts
        exact nomatch starts
      · -- no turn marker follows the row of a current snapshot
        have after := turns (.inr starts)
        obtain ⟨origin, wasLatest, wasDisplayed⟩ :=
          shows'.sound rows[second] (List.getElem_mem secondInside)
        obtain rfl : rows[first] = previous := by simpa [firstInside] using at'
        rw [same, wasDisplayed.id] at after
        have unmarked := (unfollowed origin wasLatest.stored after).2
        rw [← wasDisplayed.startsTurn, starts] at unmarked
        exact nomatch unmarked
    · rw [if_neg firstHere]
      by_cases secondHere : index = second
      · rw [if_pos secondHere, displays.id]
        exact fun _ => shows'.old recorded (List.getElem_mem firstInside)
      · rw [if_neg secondHere]
        exact turns

omit recorded in
theorem Indexed.replace (indexed : Indexed received rows messages) (found : messages.lookup message = some index) :
    Indexed (received ++ [event]) (rows.set index row) messages := by
  obtain ⟨-, currentOwn, -⟩ := (lastSnapshot_eq_some ordered).mp snapshot
  have inside : index < rows.length := (List.getElem?_eq_some_iff.mp at').1
  intro other
  rw [lastSnapshot_concat, track]
  by_cases equal : other = message
  · subst other
    refine .inr ⟨index, event, row, found, if_pos own, ?_, displays.id⟩
    rw [List.getElem?_set, if_pos rfl, if_pos inside]
  · have different : event.message? ≠ some other := by
      rw [own]
      exact fun wrong => equal (Option.some.inj wrong).symm
    rw [if_neg different, goes]
    rcases indexed other with absent | ⟨place, held, shown, foundOther, snapshotOther, placed, sameId⟩
    · exact .inl absent
    · refine .inr ⟨place, held, shown, foundOther, snapshotOther, ?_, sameId⟩
      rw [List.getElem?_set, if_neg, placed]
      rintro rfl
      obtain ⟨heldMember, heldOwn, -⟩ := (lastSnapshot_eq_some ordered).mp snapshotOther
      obtain ⟨currentMember, -⟩ := (lastSnapshot_eq_some ordered).mp snapshot
      obtain rfl := Option.some.inj (placed.symm.trans at')
      obtain rfl := ordered.eq_of_id heldMember currentMember (sameId.symm.trans same)
      exact equal (Option.some.inj (heldOwn.symm.trans currentOwn))

end Replace

/-! ### A cached fold -/

theorem Shows.trim (shows' : Shows display received rows) (oldest : Nat) :
    Shows display (received.filter fun event => oldest ≤ event.id)
      (rows.filter fun event => oldest ≤ event.id) := by
  refine ⟨fun row member => ?_, fun event latest => ?_, ?_, shows'.turns.sublist List.filter_sublist⟩
  · obtain ⟨kept, recent⟩ := List.mem_filter.mp member
    obtain ⟨event, latest, displays⟩ := shows'.sound row kept
    refine ⟨event, (latest_filter oldest).mpr ⟨?_, latest⟩, displays⟩
    simpa [displays.id] using recent
  · obtain ⟨recent, wasLatest⟩ := (latest_filter oldest).mp latest
    obtain ⟨row, member, displays⟩ := shows'.complete event wasLatest
    refine ⟨row, List.mem_filter.mpr ⟨member, ?_⟩, displays⟩
    simpa [displays.id] using recent
  · exact shows'.distinct.sublist (List.filter_sublist.map Event.id)

/-- The row of a message that no row of a later turn follows. -/
structure AtRow (rows : List Event) (message : String) (index : Nat) : Prop where
  named : ∃ row, rows[index]? = some row ∧ row.message? = some message
  unmarked : ∀ place other, index < place → rows[place]? = some other → other.startsTurn = false

theorem AtRow.of_concat {last : Event} (atRow : AtRow (rows ++ [last]) message index)
    (inside : index < rows.length) : last.startsTurn = false ∧ AtRow rows message index := by
  obtain ⟨row, at', own⟩ := atRow.named
  refine ⟨atRow.unmarked rows.length last inside (by simp), ⟨row, ?_, own⟩,
    fun place other after placed => atRow.unmarked place other after ?_⟩
  · rwa [List.getElem?_append_left inside] at at'
  · rwa [List.getElem?_append_left (List.getElem?_eq_some_iff.mp placed).1]

theorem AtRow.concat {last : Event} (atRow : AtRow rows message index)
    (goes : last.startsTurn = false) : AtRow (rows ++ [last]) message index := by
  obtain ⟨row, at', own⟩ := atRow.named
  have inside := (List.getElem?_eq_some_iff.mp at').1
  refine ⟨⟨row, by rw [List.getElem?_append_left inside, at'], own⟩, fun place other after placed => ?_⟩
  by_cases old : place < rows.length
  · exact atRow.unmarked place other after (by rwa [List.getElem?_append_left old] at placed)
  · have last' : place = rows.length := by
      have := (List.getElem?_eq_some_iff.mp placed).1
      rw [List.length_append, List.length_singleton] at this
      omega
    subst last'
    rw [List.getElem?_concat_length] at placed
    rwa [← Option.some.inj placed]

/-- A restored message is at a row that no turn marker follows, if it has one. -/
theorem restore_lookup (rows : List Event) (message : String) :
    (∀ index, (rows.zipIdx.foldl LiveEvents.restoreRow ∅).lookup message = some index →
      AtRow rows message index) ∧
    ((rows.zipIdx.foldl LiveEvents.restoreRow ∅).lookup message = none →
      ∀ index, ¬ AtRow rows message index) := by
  induction rows using List.reverseRecOn with
  | nil =>
      refine ⟨fun index found => (nomatch found), fun _ index atRow => ?_⟩
      obtain ⟨row, at', -⟩ := atRow.named
      exact nomatch at'
  | append_singleton rows last inductionHypothesis =>
      obtain ⟨found, absent⟩ := inductionHypothesis
      rw [List.zipIdx_append, List.foldl_append, List.zipIdx_singleton, List.foldl_cons,
        List.foldl_nil, Nat.zero_add]
      generalize rows.zipIdx.foldl LiveEvents.restoreRow ∅ = messages at found absent ⊢
      have here : last.message? = some message → AtRow (rows ++ [last]) message rows.length := by
        refine fun own => ⟨⟨last, by simp, own⟩, fun place other after placed => ?_⟩
        have := (List.getElem?_eq_some_iff.mp placed).1
        rw [List.length_append, List.length_singleton] at this
        omega
      have earlier : ∀ index, last.message? ≠ some message → AtRow (rows ++ [last]) message index →
          last.startsTurn = false ∧ AtRow rows message index := by
        intro index other atRow
        refine atRow.of_concat (lt_of_le_of_ne ?_ ?_)
        · obtain ⟨row, at', -⟩ := atRow.named
          have := (List.getElem?_eq_some_iff.mp at').1
          rw [List.length_append, List.length_singleton] at this
          omega
        · rintro rfl
          obtain ⟨row, at', own⟩ := atRow.named
          rw [List.getElem?_concat_length] at at'
          exact other (Option.some.inj at' ▸ own)
      have cleared : ∀ {index : Nat}, (if last.startsTurn then ∅ else messages).lookup message =
          some index → AtRow (rows ++ [last]) message index := by
        intro index found'
        cases goes : last.startsTurn with
        | true => simp [goes] at found'
        | false =>
            rw [goes] at found'
            exact (found index found').concat goes
      have gone : (if last.startsTurn then ∅ else messages).lookup message = none →
          last.message? ≠ some message → ∀ index, ¬ AtRow (rows ++ [last]) message index := by
        intro absent' other index atRow
        obtain ⟨goes, before⟩ := earlier index other atRow
        rw [goes] at absent'
        exact absent absent' index before
      unfold LiveEvents.restoreRow
      dsimp only
      cases own : last.message? with
      | none =>
          simp only
          exact ⟨fun index => cleared, fun absent' => gone absent' (by simp [own])⟩
      | some named =>
          simp only [lookup_insert]
          by_cases same : message = named
          · subst same
            simp only [if_true, Option.some.injEq, reduceCtorEq, false_imp_iff, and_true]
            rintro index rfl
            exact here own
          · rw [if_neg same]
            exact ⟨fun index => cleared, fun absent' => gone absent' (by
              rw [own]
              exact fun wrong => same (Option.some.inj wrong).symm)⟩

/-- The map that a reload rebuilds from the rows. -/
theorem Shows.restore (shows' : Shows display received rows) (ordered : Ordered received)
    (marked : ∀ event ∈ received, event.Marked) (cursor : Nat) :
    Indexed received rows (LiveEvents.restore rows cursor).messages := by
  intro message
  obtain ⟨found, absent⟩ := restore_lookup rows message
  change (∀ index, (LiveEvents.restore rows cursor).messages.lookup message = some index → _) at found
  change ((LiveEvents.restore rows cursor).messages.lookup message = none → _) at absent
  cases lookup : (LiveEvents.restore rows cursor).messages.lookup message with
  | none =>
      refine .inl ⟨rfl, Option.eq_none_iff_forall_not_mem.mpr fun event current => ?_⟩
      obtain ⟨-, own, unfollowed⟩ := (lastSnapshot_eq_some ordered).mp current
      obtain ⟨row, member, displays⟩ :=
        shows'.complete event (latest_of_lastSnapshot ordered current)
      obtain ⟨index, at'⟩ := List.mem_iff_getElem?.mp member
      refine absent lookup index ⟨⟨row, at', displays.message.trans own⟩,
        fun place other after placed => Bool.eq_false_iff.mpr fun starts => ?_⟩
      obtain ⟨origin, latest, displaysOther⟩ := shows'.sound other (List.mem_of_getElem? placed)
      have later : row.id < other.id := by
        obtain ⟨firstInside, rfl⟩ := List.getElem?_eq_some_iff.mp at'
        obtain ⟨secondInside, rfl⟩ := List.getElem?_eq_some_iff.mp placed
        exact List.pairwise_iff_getElem.mp shows'.turns index place firstInside secondInside after
          (.inr starts)
      rw [displays.id, displaysOther.id] at later
      have unmarked := (unfollowed origin latest.stored later).2
      rw [← displaysOther.startsTurn, starts] at unmarked
      exact nomatch unmarked
  | some index =>
      obtain ⟨⟨row, at', own⟩, unmarked⟩ := found index lookup
      obtain ⟨event, latest, displays⟩ := shows'.sound row (List.mem_of_getElem? at')
      refine .inr ⟨index, event, row, rfl, ?_, at', displays.id⟩
      refine lastSnapshot_of_latest ordered latest (displays.message.symm.trans own)
        fun marker member after => Bool.eq_false_iff.mpr fun starts => ?_
      -- the marker has a row, and the rows of the turn follow it
      have markerLatest : Latest received marker := by
        refine ⟨member, fun later supersedes => ?_⟩
        have unnamed := marked marker member starts
        simpa [unnamed] using supersedes.message
      obtain ⟨markerRow, markerMember, displaysMarker⟩ := shows'.complete marker markerLatest
      obtain ⟨place, placed⟩ := List.mem_iff_getElem?.mp markerMember
      have markerStarts : markerRow.startsTurn = true := displaysMarker.startsTurn.trans starts
      rcases Nat.lt_trichotomy index place with before | here | behind
      · rw [unmarked place markerRow before placed] at markerStarts
        exact nomatch markerStarts
      · subst here
        obtain rfl := Option.some.inj (at'.symm.trans placed)
        rw [← displays.id, displaysMarker.id] at after
        exact Nat.lt_irrefl _ after
      · have later : markerRow.id < row.id := by
          obtain ⟨firstInside, rfl⟩ := List.getElem?_eq_some_iff.mp placed
          obtain ⟨secondInside, rfl⟩ := List.getElem?_eq_some_iff.mp at'
          exact List.pairwise_iff_getElem.mp shows'.turns place index firstInside secondInside
            behind (.inl markerStarts)
        rw [displays.id, displaysMarker.id] at later
        exact Nat.lt_asymm after later

end Cairn.Live

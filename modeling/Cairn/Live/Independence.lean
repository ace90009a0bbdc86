import Cairn.Live.Clients

/-!
Owns the comparison of all clients of a log: they display it the same way at every time if
and only if it is settled.

Does not own what one client holds.
-/

set_option autoImplicit false

namespace Cairn.Live

open Cairn.Library.Steps

variable {sizes : Sizes} {log : List Event} {event : Event} {viewer : Viewer}

/-! ### What independence requires -/

theorem Session.Same.symm {first second : Session} (same : first.Same second) : second.Same first := by
  rcases same with rfl | ⟨firstBroken, secondBroken⟩
  · exact .inl rfl
  · exact .inr ⟨secondBroken, firstBroken⟩

/-- A batch may be divided. -/
theorem Session.deliver_append (session : Session) (first second : List Event) :
    (session.deliver (first ++ second) false).Same
      ((session.deliver first false).deliver second false) := by
  have whole := session.deliver_events (first ++ second)
  rw [List.map_append, List.map_append, List.foldl_append] at whole
  have parts : ((session.deliver first false).deliver second false).Same _ :=
    ((session.deliver_events first).step (.deliver second false)).trans
      (Session.deliver_events _ second)
  exact whole.trans parts.symm

section Last

variable (stored : Stored (log ++ [event])) (independent : Independent sizes (log ++ [event]))
  (settled : Settled log)

include stored independent settled

/-- A delta that was stored has nothing to append to in the newest page. -/
theorem plain_last : event.Plain := by
  unfold Event.Plain
  cases carried : event.snapshot?.bind Item.delta with
  | none => rfl
  | some delta =>
      obtain ⟨item, snapshot, isDelta⟩ := Option.bind_eq_some_iff.mp carried
      have window := eventsBefore_window sizes stored.ordered none
      have start : Viewer.opened.session.cursor ≤ lastId (log ++ [event]) := Nat.zero_le _
      have obtained : Obtains sizes (log ++ [event]) _ := stored.obtains.poll start
      have unbroken := (independent _ _ obtained obtained).1
      rw [poll_opened] at unbroken
      have unbroken : (Session.start.deliver (eventsBefore sizes (log ++ [event]) none).1 false).broken =
        false := unbroken
      generalize (eventsBefore sizes (log ++ [event]) none).1 = page at window unbroken
      -- the page ends with the event
      have ends := window.lastId stored rfl
      rw [lastId_concat] at ends
      obtain ⟨prior, rfl⟩ : ∃ prior, page = prior ++ [event] := by
        rcases List.eq_nil_or_concat page with rfl | ⟨prior, last, rfl⟩
        · exact absurd (stored.positive event (by simp)) (by rw [← ends]; exact Nat.lt_irrefl _)
        · rw [List.concat_eq_append] at ends window ⊢
          rw [lastId_concat] at ends
          have same := stored.ordered.eq_of_id (window.latest last (by simp)).1.stored
            (show event ∈ log ++ [event] by simp) ends
          exact ⟨prior, by rw [same]⟩
      have older : ∀ other ∈ prior, other.Plain := by
        intro other member
        have held := (window.latest other (List.mem_append_left _ member)).1.stored
        rcases List.mem_append.mp held with old | new
        · exact settled.plain old
        · have less := (List.pairwise_append.mp window.ordered).2.2 other member event
            (List.mem_singleton_self event)
          rw [List.mem_singleton.mp new] at less
          exact absurd less (Nat.lt_irrefl _)
      have extended := extends_page Session.Tracks.start rfl rfl window stored
        (List.prefix_append prior [event]) older
      have absent := window.unrepeated stored rfl (message_of_snapshot snapshot)
      have admitted : (Session.start.deliver prior false).Admits (.event event) := by
        refine ⟨?_, stored.marked event (by simp)⟩
        rw [extended.cursor]
        cases isLast : prior.getLast? with
        | none => exact stored.positive event (by simp)
        | some last =>
            have held := List.mem_of_getLast? isLast
            exact (List.pairwise_append.mp window.ordered).2.2 last held event
              (List.mem_singleton_self event)
      have received : (Session.start.deliver prior false).received = prior := extended.received
      have sent : (Session.start.deliver prior false).sent = prior := extended.sent
      have unextended : baseline prior event = none := by
        cases extends' : baseline prior event with
        | none => rfl
        | some previous =>
            simp only [baseline, snapshot, Option.bind_eq_bind, Option.bind_some,
              Option.bind_eq_some_iff] at extends'
            obtain ⟨content, -, text, written, -⟩ := extends'
            obtain ⟨held, current⟩ : ∃ held, lastSnapshot ([] ++ prior) item.id = some held :=
              lastSnapshot_of_lastText written
            rw [List.nil_append, absent] at current
            cases current
      have delivered := extended.tracks.deliver_event admitted
      have delta' : wireDelta prior event = some delta := by
        simp [wireDelta, snapshot, unextended, isDelta]
      rw [sent, received, delta', message_of_snapshot snapshot, Option.bind_some, absent] at delivered
      have broken : ((Session.start.deliver prior false).deliver [event] false).broken = true := delivered
      rcases Session.start.deliver_append prior [event] with same | ⟨isBroken, -⟩
      · rw [same, broken] at unbroken
        cases unbroken
      · rw [isBroken] at unbroken
        cases unbroken

/-- A client that loaded the log before its last event displays it as one that loads it after. -/
theorem displays_last {viewer : Viewer} (obtained : Obtains sizes log viewer)
    (viewing : Viewing log viewer) (caughtUp : viewer.CaughtUp log) (nonempty : log ≠ []) :
    (viewer.session.deliver [event] false).broken = false ∧
      ∃ from', (∀ other, Latest (log ++ [event]) other → viewer.oldest ≤ other.id → from' ≤ other.id) ∧
        (((viewer.session.deliver [event] false).rows.filter fun row => decide (from' ≤ row.id)).map
            Event.display) =
          ((current (log ++ [event])).filter fun other => decide (from' ≤ other.id)).map
            Event.display := by
  have plain : ∀ other ∈ log ++ [event], other.Plain := by
    intro other member
    rcases List.mem_append.mp member with old | new
    · exact settled.plain old
    · rw [List.mem_singleton.mp new]
      exact plain_last stored independent settled
  have opened : Loading sizes (log ++ [event]) _ := Loading.opened stored plain
  obtain ⟨full, loading, loaded⟩ := opened.all stored plain
  have delivered : viewer.session.cursor ≤ lastId (log ++ [event]) := by
    rw [caughtUp.2, lastId_concat]
    exact stored.last.1.le
  have polled := (obtained.record stored).poll delivered
  rw [poll_next viewing stored caughtUp nonempty] at polled
  obtain ⟨unbroken, same⟩ := independent _ full polled loading.obtained
  refine ⟨unbroken, max viewer.oldest full.oldest, fun other latest since =>
    max_le since (loaded other latest), ?_⟩
  have agree := same ⟨rfl, by
    show (viewer.session.deliver [event] false).cursor = _
    rw [Session.deliver_cursor, lastId_concat]
    rfl⟩ loading.caughtUp
  rw [loading.viewing.displays stored loading.caughtUp (le_max_right _ _)] at agree
  exact agree

/-- A snapshot that something separates from its message is moved by a reload. -/
theorem follows_last : Follows log event := by
  intro message own held current old member
  by_contra above
  have before := stored.of_start (List.prefix_append log [event])
  have plain : ∀ other ∈ log, other.Plain := fun other => settled.plain
  obtain ⟨heldMember, heldOwn, unfollowed⟩ := (lastSnapshot_eq_some before.ordered).mp current
  have nonempty : log ≠ [] := List.ne_nil_of_mem member
  have opened : Loading sizes log _ := Loading.opened before plain
  obtain ⟨viewer, loading, loaded⟩ := opened.all before plain
  obtain ⟨unbroken, from', reaches, same⟩ :=
    displays_last stored independent settled loading.obtained loading.viewing loading.caughtUp nonempty
  -- the newest event separates them, or comes after what does
  obtain ⟨last, lastMember, isLast⟩ := lastId_mem nonempty
  have newest : ∀ other ∈ log, other.id ≤ last.id := fun other isOther =>
    isLast ▸ le_lastId before.ordered isOther
  have beyond : held.id < last.id := lt_of_lt_of_le (not_le.mp above) (newest old member)
  have lastLatest : Latest log last := ⟨lastMember, fun later supersedes =>
    absurd supersedes.after (not_lt.mpr (newest later supersedes.stored))⟩
  have lastStays : Latest (log ++ [event]) last := by
    refine (latest_concat before.ordered (fun other isOther =>
      (le_lastId before.ordered isOther).trans_lt stored.last.1) stored.last.2).mpr
        (.inr ⟨lastLatest, fun named isNamed isHeld => ?_⟩)
    obtain rfl := Option.some.inj (own.symm.trans isNamed)
    rw [current] at isHeld
    rw [Option.some.inj isHeld] at beyond
    exact Nat.lt_irrefl _ beyond
  have tracks := loading.viewing.tracks
  have covers := loading.viewing.covers
  have received : ∀ other, Latest viewer.session.received other ↔ Latest log other := by
    intro other
    rw [loading.caughtUp.2] at covers
    rw [covers.latest before]
    exact ⟨fun both => both.1, fun latest => ⟨latest, loaded other latest⟩⟩
  have closed : Closed log viewer.session.received := by
    have closed := covers.closed
    rwa [loading.caughtUp.2, before.upTo_lastId (List.prefix_refl log)] at closed
  have admitted : viewer.session.Admits (.event event) := by
    refine ⟨?_, stored.last.2⟩
    rw [loading.caughtUp.2]
    exact stored.last.1
  obtain ⟨row, rowId, -, placed⟩ := tracks.deliver_rows admitted unbroken
  rcases placed with ⟨-, absent⟩ | ⟨named, shown, index, old, isNamed, isShown, at', sameId, replaced⟩
  · -- the message has a row
    have heldReceived := ((received held).mpr (latest_of_lastSnapshot before.ordered current)).stored
    obtain ⟨kept, keeps, -⟩ := exists_lastSnapshot tracks.ordered heldReceived heldOwn
      fun marker isMarker behind => (unfollowed marker (closed.stored marker isMarker) behind).2
    rw [absent message own] at keeps
    cases keeps
  · obtain rfl := Option.some.inj (own.symm.trans isNamed)
    have isHeld := closed.lastSnapshot before.ordered tracks.ordered isShown
    obtain rfl := Option.some.inj (isHeld.symm.trans current)
    obtain ⟨lastRow, lastRowMember, displays⟩ := tracks.shows.complete last ((received last).mpr lastLatest)
    obtain ⟨place, lastAt⟩ := List.mem_iff_getElem?.mp lastRowMember
    obtain ⟨inside, isOld⟩ := List.getElem?_eq_some_iff.mp at'
    obtain ⟨placeInside, isLastRow⟩ := List.getElem?_eq_some_iff.mp lastAt
    -- its row is before that of the newest event
    have less : index < place := by
      rcases Nat.lt_trichotomy index place with before' | same' | after'
      · exact before'
      · subst same'
        rw [isOld] at isLastRow
        rw [← isLastRow] at displays
        exact absurd (sameId.symm.trans displays.id) beyond.ne
      · have wrong := List.pairwise_iff_getElem.mp covers.ordered place index placeInside inside after'
        rw [isOld, isLastRow, sameId, displays.id] at wrong
        exact absurd wrong (Nat.lt_asymm beyond)
    have sorted : (((Live.current (log ++ [event])).filter fun other => decide (from' ≤ other.id)).map
        Event.display).Pairwise fun earlier later => earlier.id < later.id :=
      List.pairwise_map.mpr ((current_ordered stored.ordered).sublist List.filter_sublist)
    rw [← same, replaced] at sorted
    have pairs := List.pairwise_iff_getElem.mp (List.pairwise_filter.mp (List.pairwise_map.mp sorted))
      index place (by rw [List.length_set]; exact inside) (by rw [List.length_set]; exact placeInside)
      less
    rw [List.getElem_set_self, List.getElem_set_ne less.ne, isLastRow] at pairs
    have since : from' ≤ last.id := reaches last lastStays (loaded last lastLatest)
    have newer : last.id < event.id := isLast ▸ stored.last.1
    have wrong : row.id < lastRow.id :=
      pairs (by rw [rowId]; simpa using since.trans newer.le) (by rw [displays.id]; simpa using since)
    rw [rowId, displays.id] at wrong
    exact absurd wrong (Nat.lt_asymm newer)

/-- A delta that does not yield the text of its event is displayed until a reload. -/
theorem faithful_last : Faithful log log event := by
  refine faithful_iff.mpr fun delta sentDelta => ?_
  by_cases empty : log = []
  · -- nothing was sent that the text could extend
    subst empty
    have plain := plain_last stored independent settled
    have noDelta : wireDelta [] event = none := by
      unfold Event.Plain at plain
      cases snapshot : event.snapshot? <;> simp_all [wireDelta, baseline]
    rw [noDelta] at sentDelta
    cases sentDelta
  · have before := stored.of_start (List.prefix_append log [event])
    obtain ⟨viewer, obtained, viewing, caughtUp, sent, received⟩ :=
      exists_streamed sizes before settled empty
    obtain ⟨unbroken, from', reaches, same⟩ :=
      displays_last stored independent settled obtained viewing caughtUp empty
    have tracks := viewing.tracks
    have admitted : viewer.session.Admits (.event event) := by
      refine ⟨?_, stored.last.2⟩
      rw [caughtUp.2]
      exact stored.last.1
    have delivered := tracks.deliver_event admitted
    rw [sent, received, sentDelta] at delivered
    dsimp only at delivered
    unfold lastShown
    cases known : (event.message?.bind (lastSnapshot log)).map Event.shown with
    | none =>
        rw [known] at delivered
        rw [unbroken] at delivered
        cases delivered
    | some base =>
        rw [known] at delivered
        obtain ⟨next, folded, folds⟩ := delivered
        have latest : Latest (log ++ [event]) event :=
          (latest_concat before.ordered (fun other isOther =>
            (le_lastId before.ordered isOther).trans_lt stored.last.1) stored.last.2).mpr (.inl rfl)
        obtain ⟨row, member, displays⟩ := folds.shows.complete event latest
        have shown : row.shown = base ++ delta := by rw [displays.shown, displayed_self]
        have since : from' ≤ event.id := by
          refine reaches event latest ?_
          have bound := viewing.covers.bound
          rw [caughtUp.2] at bound
          exact bound.trans stored.last.1
        -- the same row is displayed after a reload
        have isRow : row.display ∈ ((viewer.session.deliver [event] false).rows.filter
            fun row => decide (from' ≤ row.id)).map Event.display := by
          rw [folded]
          exact List.mem_map_of_mem (List.mem_filter.mpr
            ⟨member, by rw [displays.id]; simpa using since⟩)
        rw [same] at isRow
        obtain ⟨other, isOther, equal⟩ := List.mem_map.mp isRow
        have isStored := ((mem_current stored.ordered).mp (List.mem_filter.mp isOther).1).stored
        obtain ⟨sameId, -, -, sameText⟩ := Display.mk.inj equal
        obtain rfl := stored.ordered.eq_of_id isStored latest.stored (sameId.trans displays.id)
        rw [Option.map_some, ← shown, ← sameText]

end Last

/-- All clients of a log display it the same way at every time if and only if every event
settles. -/
theorem independent_iff (stored : Stored log) :
    (∀ part, part <+: log → Independent sizes part) ↔ Settled log := by
  constructor
  · intro independent
    induction log using List.reverseRecOn with
    | nil => exact Settled.nil
    | append_singleton log event inductionHypothesis =>
        have shorter : log <+: log ++ [event] := List.prefix_append log [event]
        have settled := inductionHypothesis (stored.of_start shorter) fun part isPart =>
          independent part (isPart.trans shorter)
        have whole := independent _ (List.prefix_refl (log ++ [event]))
        exact settled_concat.mpr ⟨settled, plain_last stored whole settled,
          faithful_last stored whole settled, follows_last stored whole settled⟩
  · intro settled part isPart
    exact (settled.of_start isPart).independent

/-! ### Two logs -/

/-- A page holds as many events of these sizes as its limit allows. -/
def unlimited : Sizes := ⟨fun _ => 0, fun _ => 0⟩

/-- A command that is run. -/
def commandExecution (id : Nat) : Event where
  id
  createdAt := id
  type := "item.completed"
  text := ['l', 's']
  item := some { type := "command_execution", id := "c", text := none, delta := none }

/-- A message that grows, and then a command. -/
theorem independent_grown : Independent unlimited [agentMessage 1 (some ['H']) ['H'],
    agentMessage 2 (some ['H', 'i']) ['H', 'i'], commandExecution 3] := by
  have settled : Settled [agentMessage 1 (some ['H']) ['H'],
      agentMessage 2 (some ['H', 'i']) ['H', 'i'], commandExecution 3] := by
    have first : Settled ([] ++ [agentMessage 1 (some ['H']) ['H']]) :=
      settled_concat.mpr ⟨Settled.nil, by decide⟩
    have second : Settled (([] ++ [agentMessage 1 (some ['H']) ['H']]) ++
        [agentMessage 2 (some ['H', 'i']) ['H', 'i']]) := settled_concat.mpr ⟨first, by decide⟩
    exact settled_concat.mpr ⟨second, by decide⟩
  refine (independent_iff ⟨?_, ?_, ?_⟩).mpr settled _ (List.prefix_refl _)
  · unfold Ordered; decide
  · decide
  · unfold Event.Marked; decide

/-- A message grows while a command is run. -/
def interleaved : List Event :=
  [agentMessage 1 (some ['H']) ['H'], commandExecution 2, agentMessage 3 (some ['H', 'i']) ['H', 'i']]

/-- The client that follows the stream shows the message first, the one that comes later the
command. -/
theorem interleaved_order_differs : ¬ Independent unlimited interleaved := by
  intro independent
  have following : Obtains unlimited interleaved _ :=
    ⟨interleaved.flatMap fun event => [.record event, .poll 3], rfl⟩
  have returning : Obtains unlimited interleaved _ :=
    ⟨interleaved.map .record ++ [.poll 3], rfl⟩
  have same := (independent _ _ following returning).2 (by decide) (by decide)
  exact absurd same (by decide)

end Cairn.Live

import Cairn.Live.Delivery

/-!
Owns two ways to obtain a settled log that always exist: a client that loads its newest page
and then every older one, and a client that is sent every event as it is recorded.

Does not own what other clients hold, or their comparison.
-/

set_option autoImplicit false

namespace Cairn.Live

open Cairn.Library.Steps

variable {sizes : Sizes} {log events : List Event} {event : Event} {viewer : Viewer}

/-! ### Ways to obtain a log -/

theorem Stored.last (stored : Stored (log ++ [event])) : lastId log < event.id ∧ event.Marked := by
  refine ⟨?_, stored.marked event (by simp)⟩
  by_cases empty : log = []
  · rw [empty]
    exact stored.positive event (by simp)
  · obtain ⟨last, member, isLast⟩ := lastId_mem empty
    rw [← isLast]
    exact (List.pairwise_append.mp stored.ordered).2.2 last member event (List.mem_singleton_self event)

namespace Obtains

variable (obtained : Obtains sizes log viewer)

include obtained

theorem step {action : Action} {world : World}
    (stepped : World.step sizes ⟨log, viewer⟩ action = some world) :
    Obtains sizes world.log world.viewer := by
  obtain ⟨actions, run⟩ := obtained
  exact ⟨actions ++ [action], execute_append.mpr ⟨_, run, execute_cons.mpr ⟨world, stepped, rfl⟩⟩⟩

theorem record (stored : Stored (log ++ [event])) : Obtains sizes (log ++ [event]) viewer := by
  have recorded : World.step sizes ⟨log, viewer⟩ (.record event) =
      some ⟨log ++ [event], viewer⟩ := if_pos stored.last
  exact obtained.step recorded

theorem poll (delivered : viewer.session.cursor ≤ lastId log) :
    Obtains sizes log (viewer.poll sizes log) := by
  have whole : log.take log.length = log := List.take_length
  have polled : World.step sizes ⟨log, viewer⟩ (.poll log.length) =
      some ⟨log, viewer.poll sizes log⟩ := by
    simp only [World.step, whole, if_pos delivered]
  exact obtained.step polled

theorem older : Obtains sizes log (viewer.requestOlder sizes log).receiveOlder := by
  have requested : World.step sizes ⟨log, viewer⟩ .requestOlder =
      some ⟨log, viewer.requestOlder sizes log⟩ := rfl
  have received : World.step sizes ⟨log, viewer.requestOlder sizes log⟩ .receiveOlder =
      some ⟨log, (viewer.requestOlder sizes log).receiveOlder⟩ := rfl
  exact (obtained.step requested).step received

end Obtains

theorem Stored.obtains (stored : Stored log) : Obtains sizes log .opened := by
  induction log using List.reverseRecOn with
  | nil => exact ⟨[], rfl⟩
  | append_singleton log event inductionHypothesis =>
      exact (inductionHypothesis (stored.of_start (List.prefix_append log [event]))).record stored

/-! ### A client that loads everything -/

/-- A client of the whole log that knows whether there are older events. -/
structure Loading (sizes : Sizes) (log : List Event) (viewer : Viewer) : Prop where
  obtained : Obtains sizes log viewer
  viewing : Viewing log viewer
  caughtUp : viewer.CaughtUp log
  idle : viewer.pending = none
  history : viewer.history = some (firstId log)
  accurate : viewer.hasOlder = false → ∀ event, Latest log event → viewer.oldest ≤ event.id

theorem poll_opened (sizes : Sizes) (log : List Event) : Viewer.opened.poll sizes log =
    Viewer.opened.accept {
      events := (eventsBefore sizes log none).1
      reset := false
      more := decide (lastId (eventsBefore sizes log none).1 < lastId log)
      history := firstId log
      oldest := some (reach none (eventsBefore sizes log none).1)
      hasOlder := (eventsBefore sizes log none).2 } := by
  unfold Viewer.poll
  rw [show Viewer.opened.session.cursor = 0 from rfl, readPage_tail]
  rfl

theorem Loading.opened (stored : Stored log) (plain : ∀ event ∈ log, event.Plain) :
    Loading sizes log (Viewer.opened.poll sizes log) := by
  have window := eventsBefore_window sizes stored.ordered none
  have start : Viewer.opened.session.cursor ≤ lastId log := Nat.zero_le _
  have viewing : Viewing log (Viewer.opened.poll sizes log) :=
    (Viewing.opened stored).poll stored (List.prefix_refl log) start plain
      fun started => absurd started (Nat.lt_irrefl _)
  refine ⟨stored.obtains.poll start, viewing, ?_, ?_, ?_, ?_⟩
  · rw [poll_opened]
    refine ⟨?_, ?_⟩
    · show (!decide (lastId (eventsBefore sizes log none).1 < lastId log)) = true
      rw [window.lastId stored rfl]
      simp
    · show (Session.start.deliver (eventsBefore sizes log none).1 false).cursor = lastId log
      rw [Session.deliver_cursor]
      exact window.lastId stored rfl
  · rw [poll_opened]
    rfl
  · rw [poll_opened]
    rfl
  · rw [poll_opened]
    intro more event latest
    exact reach_le window.ordered (window.complete more event latest rfl)

theorem readPage_known (sizes : Sizes) (log : List Event) (bound : Nat) : ∃ more,
    readPage sizes log 0 (some (firstId log)) (some bound) = .ok {
      events := (eventsBefore sizes log (some bound)).1
      reset := false
      more
      history := firstId log
      oldest := some (reach (some bound) (eventsBefore sizes log (some bound)).1)
      hasOlder := (eventsBefore sizes log (some bound)).2 } := by
  unfold readPage
  simp [reach]

/-- One more page reaches further back. -/
theorem Loading.older (loading : Loading sizes log viewer) (stored : Stored log)
    (plain : ∀ event ∈ log, event.Plain) (latest : Latest log event) (unloaded : event.id < viewer.oldest) :
    Loading sizes log (viewer.requestOlder sizes log).receiveOlder ∧
      (viewer.requestOlder sizes log).receiveOlder.oldest < viewer.oldest := by
  have window := eventsBefore_window sizes stored.ordered (some viewer.oldest)
  have isOlder : olderThan (some viewer.oldest) event = true := by simpa [olderThan] using unloaded
  have further : reach (some viewer.oldest) (eventsBefore sizes log (some viewer.oldest)).1 <
      viewer.oldest := by
    have nonempty : (eventsBefore sizes log (some viewer.oldest)).1 ≠ [] := fun empty => by
      rw [window.nonempty empty event latest] at isOlder
      cases isOlder
    obtain ⟨last, member, -⟩ := lastId_mem nonempty
    have less : last.id < viewer.oldest := by simpa [olderThan] using (window.latest last member).2
    exact lt_of_le_of_lt (reach_le window.ordered member) less
  have hasOlder : viewer.hasOlder = true := by
    cases flag : viewer.hasOlder with
    | true => rfl
    | false => exact absurd (loading.accurate flag event latest) (not_le.mpr unloaded)
  have positive : (viewer.oldest == 0) = false := by
    have := Nat.zero_lt_of_lt unloaded
    simp [this.ne']
  obtain ⟨more, read⟩ := readPage_known sizes log viewer.oldest
  have requested : viewer.requestOlder sizes log = { viewer with pending := some {
      before := viewer.oldest
      history := firstId log
      page := {
        events := (eventsBefore sizes log (some viewer.oldest)).1
        reset := false
        more
        history := firstId log
        oldest := some (reach (some viewer.oldest) (eventsBefore sizes log (some viewer.oldest)).1)
        hasOlder := (eventsBefore sizes log (some viewer.oldest)).2 } } } := by
    unfold Viewer.requestOlder
    rw [loading.history]
    simp only [hasOlder, loading.idle, positive, read, Bool.not_true, Option.isSome_none,
      Bool.or_self, Bool.false_eq_true, if_false]
  have asking : Viewing log (viewer.requestOlder sizes log) := loading.viewing.requestOlder stored
  have obtained := loading.obtained.older
  rw [requested] at asking obtained ⊢
  obtain ⟨seen, awaits⟩ := asking.pending _ rfl
  obtain ⟨live, rows, merged, after⟩ := awaits.merges asking stored plain
    fun held member later supersedes =>
      absurd supersedes ((window.latest held member).1.unsuperseded later)
  have received : Viewer.receiveOlder { viewer with pending := some {
      before := viewer.oldest
      history := firstId log
      page := {
        events := (eventsBefore sizes log (some viewer.oldest)).1
        reset := false
        more
        history := firstId log
        oldest := some (reach (some viewer.oldest) (eventsBefore sizes log (some viewer.oldest)).1)
        hasOlder := (eventsBefore sizes log (some viewer.oldest)).2 } } } = { viewer with
      session := Viewer.extended viewer.session (eventsBefore sizes log (some viewer.oldest)).1 rows
      oldest := reach (some viewer.oldest) (eventsBefore sizes log (some viewer.oldest)).1
      hasOlder := (eventsBefore sizes log (some viewer.oldest)).2
      events := rows
      pending := none } := by
    unfold Viewer.receiveOlder
    dsimp only at merged ⊢
    rw [merged, loading.history]
    simp [not_le.mpr further]
  rw [received] at obtained ⊢
  refine ⟨⟨obtained, after, loading.caughtUp, rfl, loading.history, fun more event latest => ?_⟩, further⟩
  show reach (some viewer.oldest) _ ≤ event.id
  rcases Nat.lt_or_ge event.id viewer.oldest with below | above
  · exact reach_le window.ordered (window.complete more event latest (by simpa [olderThan] using below))
  · exact further.le.trans above

/-- Loading older pages reaches the start of the log. -/
theorem Loading.all (loading : Loading sizes log viewer) (stored : Stored log)
    (plain : ∀ event ∈ log, event.Plain) :
    ∃ final, Loading sizes log final ∧ ∀ event, Latest log event → final.oldest ≤ event.id := by
  induction height : viewer.oldest using Nat.strongRecOn generalizing viewer with
  | ind height inductionHypothesis =>
      by_cases loaded : ∀ event, Latest log event → viewer.oldest ≤ event.id
      · exact ⟨viewer, loading, loaded⟩
      · push Not at loaded
        obtain ⟨event, latest, unloaded⟩ := loaded
        obtain ⟨next, further⟩ := loading.older stored plain latest unloaded
        exact inductionHypothesis _ (height ▸ further) next rfl

/-! ### A client that follows the stream -/

theorem eventBatch_next (sizes : Sizes) (stored : Stored (log ++ [event])) :
    eventBatch sizes (log ++ [event]) (lastId log) = [event] := by
  have before := stored.of_start (List.prefix_append log [event])
  have rest : (log ++ [event]).filter (fun other => decide (lastId log < other.id)) = [event] := by
    rw [List.filter_append, List.filter_eq_nil_iff.mpr fun other member => by
      simpa using le_lastId before.ordered member, List.nil_append, List.filter_singleton]
    simp [stored.last.1]
  unfold eventBatch
  rw [rest]
  simp [pageEvents, takeEvents]

/-- The next event of the log as the next batch. -/
theorem poll_next (viewing : Viewing log viewer) (stored : Stored (log ++ [event]))
    (caughtUp : viewer.CaughtUp log) (nonempty : log ≠ []) :
    viewer.poll sizes (log ++ [event]) = { viewer with
      session := viewer.session.deliver [event] false
      history := some (firstId (log ++ [event]))
      complete := true
      events := (viewer.session.deliver [event] false).rows } := by
  have before := stored.of_start (List.prefix_append log [event])
  obtain ⟨last, member, isLast⟩ := lastId_mem nonempty
  have first := firstId_start (List.prefix_append log [event]) nonempty
  have started : 0 < lastId log := isLast ▸ before.positive last member
  have known : ∀ known, viewer.history = some known → known = firstId (log ++ [event]) := by
    intro known isKnown
    rw [← first]
    exact viewing.history (caughtUp.2 ▸ started) known isKnown
  unfold Viewer.poll
  rw [caughtUp.2, readPage_live started (first ▸ isLast ▸ firstId_le before.ordered member)
    (by rw [lastId_concat]; exact stored.last.1.le) known, eventBatch_next sizes stored]
  simp [Viewer.accept]

theorem eq_singleton (ordered : Ordered events) (only : ∀ other ∈ events, other = event)
    (nonempty : events ≠ []) : events = [event] := by
  cases events with
  | nil => exact absurd rfl nonempty
  | cons head tail =>
      obtain rfl := only head List.mem_cons_self
      have none : tail = [] := List.eq_nil_iff_forall_not_mem.mpr fun other member => by
        have newer := (List.pairwise_cons.mp ordered).1 other member
        rw [only other (List.mem_cons_of_mem _ member)] at newer
        exact Nat.lt_irrefl _ newer
      rw [none]

/-- A client that was there from the first event on was sent every event. -/
theorem exists_streamed (sizes : Sizes) (stored : Stored log) (settled : Settled log) (nonempty : log ≠ []) :
    ∃ viewer, Obtains sizes log viewer ∧ Viewing log viewer ∧ viewer.CaughtUp log ∧
      viewer.session.sent = log ∧ viewer.session.received = log := by
  induction log using List.reverseRecOn with
  | nil => exact absurd rfl nonempty
  | append_singleton log event inductionHypothesis =>
      have before := stored.of_start (List.prefix_append log [event])
      by_cases empty : log = []
      · subst empty
        have loading : Loading sizes ([] ++ [event]) _ :=
          Loading.opened stored fun other => settled.plain
        have window := eventsBefore_window sizes stored.ordered none
        have page : (eventsBefore sizes ([] ++ [event]) none).1 = [event] := by
          refine eq_singleton window.ordered (fun other member => ?_) ?_
          · simpa using (window.latest other member).1.stored
          · intro none
            have hidden := window.nonempty none event ⟨by simp, fun later supersedes => by
              have same : later = event := by simpa using supersedes.stored
              exact Nat.lt_irrefl _ (same ▸ supersedes.after)⟩
            cases hidden
        refine ⟨_, loading.obtained, loading.viewing, loading.caughtUp, ?_, ?_⟩
        · rw [poll_opened, page]
          show (Session.start.deliver [event] false).sent = _
          rw [Session.deliver_sent]
          rfl
        · rw [poll_opened, page]
          show (Session.start.deliver [event] false).received = _
          rw [Session.deliver_received]
          rfl
      · obtain ⟨viewer, obtained, viewing, caughtUp, sent, received⟩ :=
          inductionHypothesis before (settled.of_start (List.prefix_append log [event])) empty
        have delivered : viewer.session.cursor ≤ lastId (log ++ [event]) := by
          rw [caughtUp.2, lastId_concat]
          exact stored.last.1.le
        have next : viewer.poll sizes (log ++ [event]) = _ := poll_next viewing stored caughtUp empty
        have follows : Viewing (log ++ [event]) (viewer.poll sizes (log ++ [event])) :=
          (viewing.record stored).poll stored (List.prefix_refl _) delivered
            (fun other => settled.plain) fun _ => settled
        have obtains := (obtained.record stored).poll delivered
        rw [next] at follows obtains
        refine ⟨_, obtains, follows, ⟨rfl, ?_⟩, ?_, ?_⟩
        · rw [Session.deliver_cursor, lastId_concat]
          rfl
        · rw [Session.deliver_sent, sent]
        · rw [Session.deliver_received, received]

end Cairn.Live

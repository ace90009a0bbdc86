import Cairn.Worker.Retries

/-!
Owns what each step does to the `retry` record of a run: the invariant `Sound`, the four
things a step that no user asked for may do (`Turns`), and that a settled outcome stays
settled until a user starts the run again.

Does not own runs of steps.
-/

set_option autoImplicit false

namespace Cairn.Worker.Retries

open Cairn.Library.Steps
open Cairn.Chats (Admission tryLaunch restoreAfterRestart continuedRun continuedCheckpoint)

/-! ### What an execution leaves -/

/-- The outcome of the last execution is settled or waits in the checkpoint to be. -/
def Done (state : State) : Prop :=
  state.executing = false ∧ (state.run.status.isActive = false ∨
    (state.run.recoveryPending = true ∧ ∃ settled,
      state.checkpoint.bind RunCheckpoint.settled = some settled ∧
        settled.status.isActive = false))

/-- What every run keeps: an outcome in the checkpoint is final, a run that executes or may
launch has none, and the budget is not exceeded. -/
structure Sound (state : State) : Prop where
  final : ∀ settled, state.checkpoint.bind RunCheckpoint.settled = some settled →
    settled.status.isActive = false
  unsettled : state.executing = true ∨
      (state.run.status.isActive = true ∧ state.run.recoveryPending = false) →
    state.checkpoint.bind RunCheckpoint.settled = none
  bounded : attempts state.run ≤ maxAttempts

variable {run : Run} {saved : RunCheckpoint} {closing : Closing} {state next : State}

/-- What a scheduled retry requires and records. -/
theorem schedule_eq_some {error : String} {left : Run}
    (ok : schedule run saved closing error = some left) :
    run.cancelRequestedAt = none ∧ run.status.isActive = true ∧ ∃ retry,
      left.retry = some retry ∧ retry.attempt = attempts run + 1 ∧ attempts run < maxAttempts ∧
        left.status = .queued ∧ left.recoveryPending = true := by
  unfold schedule at ok
  split at ok
  · cases ok
  split at ok
  · cases ok
  rename_i cause _
  split at ok
  · cases ok
  unfold scheduled at ok
  split at ok
  · cases ok
  rename_i allowed
  obtain ⟨retry, isNext, rfl⟩ := Option.map_eq_some_iff.mp ok
  simp only [Bool.or_eq_true, not_or, Bool.not_eq_true, Option.isSome_eq_false_iff,
    Option.isNone_iff_eq_none, Bool.not_eq_true', Bool.not_eq_false] at allowed
  unfold Retry.next at isNext
  dsimp only at isNext
  split at isNext
  · cases isNext
  rename_i room
  obtain rfl := Option.some.inj isNext
  exact ⟨allowed.1.1, allowed.2, _, rfl, rfl, Nat.lt_of_not_le room, rfl, rfl⟩

/-- How an execution whose turn is not retried leaves its run. -/
structure Left (run : Run) (left : Run × RunCheckpoint) : Prop where
  record : left.1.retry = run.retry ∨ left.1.retry = none
  settled : ∀ settled, left.2.settled = some settled → settled.status.isActive = false
  ended : (left.1.status.isActive = false ∧ left.2.settled = none) ∨
    (left.1.retry = run.retry ∧ left.1.status = .queued ∧ left.1.recoveryPending = true)

theorem unscheduled_left (failure : Failure) (unsettled : saved.settled = none) :
    Left run (unscheduled run saved closing failure) := by
  unfold unscheduled
  split
  · exact ⟨Or.inl rfl, fun settled isSettled => (nomatch unsettled.symm.trans isSettled),
      Or.inr ⟨rfl, rfl, rfl⟩⟩
  dsimp only
  generalize isRecovering : (if recoversController run saved closing failure = true then
    { saved with controllerRecoveries := saved.controllerRecoveries + 1 } else saved) = recovering
  have noneYet : recovering.settled = none := by
    rw [← isRecovering]
    split <;> exact unsettled
  generalize isStatus : (if closing.cancelled = true then RunStatus.cancelled
    else if (closing.shutdown || recoversController run saved closing failure) = true then
      RunStatus.queued else RunStatus.failed) = status
  have statuses : status = .cancelled ∨ status = .queued ∨ status = .failed := by
    rw [← isStatus]
    split
    · exact Or.inl rfl
    · split
      · exact Or.inr (Or.inl rfl)
      · exact Or.inr (Or.inr rfl)
  cases needsFence : saved.isolated && saved.runnerId.isSome with
  | true =>
      refine ⟨Or.inl rfl, fun settled isSettled => ?_, Or.inr ⟨rfl, rfl, ?_⟩⟩
      · dsimp only at isSettled
        split at isSettled
        · obtain rfl := Option.some.inj isSettled
          rcases statuses with rfl | rfl | rfl
          · rfl
          · rename_i notQueued
            exact absurd notQueued (by decide)
          · rfl
        · exact nomatch noneYet.symm.trans isSettled
      · rfl
  | false =>
      have kept : ∀ settled, recovering.settled = some settled → settled.status.isActive = false :=
        fun settled isSettled => nomatch noneYet.symm.trans isSettled
      rcases statuses with rfl | rfl | rfl
      · exact ⟨Or.inl rfl, kept, Or.inl ⟨rfl, noneYet⟩⟩
      · exact ⟨Or.inl rfl, kept, Or.inr ⟨rfl, rfl, rfl⟩⟩
      · exact ⟨Or.inl rfl, kept, Or.inl ⟨rfl, noneYet⟩⟩

/-- What an execution leaves: a scheduled retry, or its outcome. -/
theorem close_left (outcome : Outcome) (unsettled : saved.settled = none) :
    (∃ retry, retried ⟨run, some saved, true⟩ (.finish closing outcome) = some retry ∧
      (close run saved closing outcome).1.retry = some retry ∧
      retry.attempt = attempts run + 1 ∧ attempts run < maxAttempts ∧
      (close run saved closing outcome).1.status = .queued ∧
      (close run saved closing outcome).1.recoveryPending = true ∧
      (close run saved closing outcome).2 = saved ∧
      run.cancelRequestedAt = none ∧ run.status.isActive = true) ∨
    (retried ⟨run, some saved, true⟩ (.finish closing outcome) = none ∧
      Left run (close run saved closing outcome)) := by
  have failed : ∀ failure : Failure,
      (∃ retry, (schedule run saved closing failure.message).bind Run.retry = some retry ∧
        (recordFailure run saved closing failure).1.retry = some retry ∧
        retry.attempt = attempts run + 1 ∧ attempts run < maxAttempts ∧
        (recordFailure run saved closing failure).1.status = .queued ∧
        (recordFailure run saved closing failure).1.recoveryPending = true ∧
        (recordFailure run saved closing failure).2 = saved ∧
        run.cancelRequestedAt = none ∧ run.status.isActive = true) ∨
      ((schedule run saved closing failure.message).bind Run.retry = none ∧
        Left run (recordFailure run saved closing failure)) := by
    intro failure
    unfold recordFailure
    cases isScheduled : schedule run saved closing failure.message with
    | none => exact Or.inr ⟨rfl, unscheduled_left failure unsettled⟩
    | some left =>
        obtain ⟨uncancelled, active, retry, isRetry, attempt, room, status, pending⟩ :=
          schedule_eq_some isScheduled
        exact Or.inl ⟨retry, isRetry, isRetry, attempt, room, status, pending, rfl, uncancelled,
          active⟩
  cases outcome with
  | failed failure => exact failed failure
  | exited code timedOut =>
      unfold retried close
      dsimp only
      cases isFinish : finish run saved closing code timedOut with
      | error message => exact failed { message }
      | ok finished =>
          unfold finish at isFinish
          dsimp only at isFinish
          split at isFinish
          · cases isFinish
          obtain rfl := Except.ok.inj isFinish
          refine Or.inr ⟨rfl, ⟨?_,
            fun settled isSettled => (nomatch unsettled.symm.trans isSettled),
            Or.inl ⟨?_, unsettled⟩⟩⟩
          · dsimp only
            split
            · exact Or.inr rfl
            · exact Or.inl rfl
          · show (exitStatus saved closing code timedOut).isActive = false
            unfold exitStatus
            split
            · rfl
            · split
              · rfl
              · split <;> rfl

/-! ### What a step does to the record -/

/-- The step starts an execution. -/
def launches (state : State) (step : Step) : Bool :=
  match step with
  | .launch now admission =>
      !state.executing && (tryLaunch state.run state.checkpoint admission now).2
  | _ => false

/-- What a step that no user asked for does to the record of the retries. -/
inductive Turns (state : State) (step : Step) (next : State) : Prop where
  | kept (same : next.run.retry = state.run.retry) (none : retried state step = none)
      (idle : launches state step = false)
  | ends (done : Done next) (none : retried state step = none) (idle : launches state step = false)
  | launched (now : Int) (admission : Admission) (isLaunch : step = .launch now admission)
      (queued : state.run.status.isActive = true) (idle : state.executing = false)
      (undone : ¬ Done state) (waited : state.run.waiting now = false)
      (same : attempts next.run = attempts state.run) (none : retried state step = none)
      (starts : launches state step = true)
  | retries (retry : Retry) (isRetry : retried state step = some retry)
      (attempt : retry.attempt = attempts state.run + 1) (room : attempts state.run < maxAttempts)
      (uncancelled : state.run.cancelRequestedAt = .none)
      (active : state.run.status.isActive = true) (executes : state.executing = true)
      (stopped : next.executing = false) (recorded : next.run.retry = some retry ∨ Done next)
      (idle : launches state step = false)

theorem attempts_congr {first second : Run} (same : first.retry = second.retry) :
    attempts first = attempts second := by
  unfold attempts
  rw [same]

/-- Fencing and releasing an execution that left an outcome. -/
theorem release_left {left : Run × RunCheckpoint} (isLeft : Left run left) (fenced : Bool) :
    ((release fenced left.1 left.2).1.retry = run.retry ∨
      (release fenced left.1 left.2).1.retry = none) ∧
    (∀ settled, (release fenced left.1 left.2).2.settled = some settled →
      settled.status.isActive = false) ∧
    (Done ⟨(release fenced left.1 left.2).1, some (release fenced left.1 left.2).2, false⟩ ∨
      ((release fenced left.1 left.2).1.retry = run.retry ∧
        (release fenced left.1 left.2).1.recoveryPending = true)) := by
  obtain ⟨document, saved⟩ := left
  obtain ⟨record, final, ended⟩ := isLeft
  dsimp only at record final ended ⊢
  unfold release
  cases fenced with
  | true =>
      rw [if_pos rfl]
      cases isSettled : saved.settled with
      | none =>
          refine ⟨record, nofun, ?_⟩
          rcases ended with ⟨inactive, _⟩ | ⟨same, _, pending⟩
          · exact Or.inl ⟨rfl, Or.inl inactive⟩
          · exact Or.inr ⟨same, pending⟩
      | some settled =>
          refine ⟨?_, fun other isOther => final other (isSettled.trans isOther),
            Or.inl ⟨rfl, Or.inl (final settled isSettled)⟩⟩
          dsimp only [Option.elim, Settled.patch]
          split
          · exact Or.inr rfl
          · exact record
  | false =>
      rw [if_neg Bool.false_ne_true]
      dsimp only
      refine ⟨record, ?_⟩
      rcases ended with ⟨inactive, unsettled⟩ | ⟨same, queued, pending⟩
      · have notQueued : document.status ≠ .queued := fun isQueued => by
          rw [isQueued] at inactive
          cases inactive
        rw [if_pos notQueued]
        refine ⟨fun settled isSettled => ?_, Or.inl ⟨rfl, Or.inr ⟨rfl, _, rfl, inactive⟩⟩⟩
        obtain rfl := Option.some.inj isSettled
        exact inactive
      · rw [if_neg (not_not.mpr queued)]
        exact ⟨final, Or.inr ⟨same, rfl⟩⟩

theorem attempts_of_retry {retry : Retry} (isRetry : run.retry = some retry) :
    attempts run = retry.attempt := by
  unfold attempts
  rw [isRetry]
  rfl

theorem finish_turns (sound : Sound state) {outcome : Outcome}
    (taken : step state (.finish closing outcome) = some next) :
    Sound next ∧ Turns state (.finish closing outcome) next := by
  obtain ⟨document, checkpoint, executing⟩ := state
  cases executing with
  | false => cases taken
  | true =>
      cases checkpoint with
      | none => cases taken
      | some saved =>
          obtain rfl := Option.some.inj taken
          have unsettled : saved.settled = none := sound.unsettled (Or.inl rfl)
          rcases @close_left document _ closing outcome unsettled with
            ⟨retry, isRetry, recorded, attempt, room, status, pending, same, uncancelled, active⟩ |
              ⟨noRetry, isLeft⟩
          · generalize close document saved closing outcome = closed at *
            obtain ⟨left, kept⟩ := closed
            dsimp only at recorded status pending same
            subst same
            have released : release closing.fenced left kept =
                (if closing.fenced then left else requeued (some vmStopWaitReason) left, kept) := by
              unfold release
              rw [unsettled, if_neg (not_not.mpr status)]
              cases closing.fenced <;> rfl
            have stays : ∀ fenced : Bool,
                (if fenced then left else requeued (some vmStopWaitReason) left).retry =
                  some retry ∧
                (if fenced then left else requeued (some vmStopWaitReason) left).recoveryPending =
                  true := by
              intro fenced
              cases fenced
              · exact ⟨recorded, rfl⟩
              · exact ⟨recorded, pending⟩
            obtain ⟨isRecorded, isPending⟩ := stays closing.fenced
            rw [released]
            refine ⟨⟨fun settled isSettled => (nomatch unsettled.symm.trans isSettled),
              fun _ => unsettled, ?_⟩, .retries retry isRetry attempt room uncancelled active rfl rfl
                (Or.inl isRecorded) rfl⟩
            rw [attempts_of_retry isRecorded, attempt]
            exact room
          · obtain ⟨record, final, ended⟩ := release_left isLeft closing.fenced
            refine ⟨⟨fun settled isSettled => final settled isSettled, ?_, ?_⟩, ?_⟩
            · rintro (executes | ⟨active, unpending⟩)
              · cases executes
              · rcases ended with ⟨_, inactive | ⟨pending, _⟩⟩ | ⟨_, pending⟩
                · exact nomatch inactive.symm.trans active
                · exact nomatch pending.symm.trans unpending
                · exact nomatch pending.symm.trans unpending
            · have bounded := sound.bounded
              rcases record with same | none
              · rw [← attempts_congr same] at bounded
                exact bounded
              · show ((release _ _ _).1.retry.map Retry.attempt).getD 0 ≤ maxAttempts
                rw [none]
                exact Nat.zero_le _
            · rcases ended with done | ⟨same, _⟩
              · exact .ends done noRetry rfl
              · exact .kept same noRetry rfl

/-- The recovery of a queued run: it is settled, or free to launch again. -/
theorem recover_cases (sound : Sound state) (now : Int) :
    ((Chats.recover state.run state.checkpoint now).2 = false ∧
      (Chats.recover state.run state.checkpoint now).1.status.isActive = false ∧
      ((Chats.recover state.run state.checkpoint now).1.retry = state.run.retry ∨
        (Chats.recover state.run state.checkpoint now).1.retry = none)) ∨
    (Chats.recover state.run state.checkpoint now =
        ({ state.run with recoveryPending := false }, true) ∧
      state.checkpoint.bind RunCheckpoint.settled = none) := by
  unfold Chats.recover
  split
  · exact Or.inl ⟨rfl, rfl, Or.inr rfl⟩
  · split
    · rename_i settled isSettled
      refine Or.inl ⟨rfl, sound.final settled isSettled, ?_⟩
      dsimp only [Settled.patch]
      split
      · exact Or.inr rfl
      · exact Or.inl rfl
    · rename_i unsettled
      split
      · exact Or.inl ⟨rfl, rfl, Or.inl rfl⟩
      · exact Or.inr ⟨rfl, unsettled⟩

theorem attempts_le (sound : Sound state) {left : Run}
    (record : left.retry = state.run.retry ∨ left.retry = none) : attempts left ≤ maxAttempts := by
  rcases record with same | none
  · rw [attempts_congr same]
    exact sound.bounded
  · unfold attempts
    rw [none]
    exact Nat.zero_le _

/-- A launch keeps the attempts, and starts nothing that has to wait or was done. -/
theorem launch_turns (sound : Sound state) {now : Int} {admission : Admission}
    (taken : step state (.launch now admission) = some next) :
    Sound next ∧ Turns state (.launch now admission) next := by
  obtain ⟨document, checkpoint, executing⟩ := state
  cases executing with
  | true => cases taken
  | false =>
      obtain rfl := Option.some.inj taken
      have launchesIff : launches ⟨document, checkpoint, false⟩ (.launch now admission) =
          (tryLaunch document checkpoint admission now).2 := rfl
      unfold tryLaunch at launchesIff ⊢
      by_cases notQueued : document.status ≠ .queued
      · rw [if_pos notQueued] at launchesIff ⊢
        exact ⟨sound, .kept rfl rfl launchesIff⟩
      rw [if_neg notQueued] at launchesIff ⊢
      have queued := not_not.mp notQueued
      have active : document.status.isActive = true := by
        rw [queued]
        rfl
      by_cases unfenced : (document.recoveryPending && !admission.fenced) = true
      · rw [if_pos unfenced] at launchesIff ⊢
        exact ⟨⟨sound.final, sound.unsettled, sound.bounded⟩, .kept rfl rfl launchesIff⟩
      rw [if_neg unfenced] at launchesIff ⊢
      -- whether the run may launch, and what its recovery makes of it
      have recovered : ∀ recovered, recovered = (if document.recoveryPending then
            Chats.recover document checkpoint now else (document, true)) →
          (recovered.2 = false ∧ recovered.1.status.isActive = false ∧
            (recovered.1.retry = document.retry ∨ recovered.1.retry = none)) ∨
          (recovered.2 = true ∧ recovered.1.retry = document.retry ∧
            recovered.1.recoveryPending = false ∧
            checkpoint.bind RunCheckpoint.settled = none) := by
        rintro recovered rfl
        by_cases pending : document.recoveryPending = true
        · rw [if_pos pending]
          rcases recover_cases sound now with ended | ⟨isRecovered, unsettled⟩
          · exact Or.inl ended
          · dsimp only at isRecovered
            rw [isRecovered]
            exact Or.inr ⟨rfl, rfl, rfl, unsettled⟩
        · rw [if_neg pending]
          rw [Bool.not_eq_true] at pending
          exact Or.inr ⟨rfl, rfl, pending, sound.unsettled (Or.inr ⟨active, pending⟩)⟩
      generalize isRecovered : (if document.recoveryPending then
        Chats.recover document checkpoint now else (document, true)) = after at *
      rcases recovered after rfl with ⟨refused, inactive, record⟩ | ⟨free, same, ready, unsettled⟩
      · simp only [refused, Bool.not_false, Bool.true_or, if_true] at launchesIff ⊢
        refine ⟨⟨sound.final, ?_, attempts_le sound record⟩,
          .ends ⟨rfl, Or.inl inactive⟩ rfl launchesIff⟩
        rintro (executes | ⟨still, _⟩)
        · cases executes
        · exact nomatch inactive.symm.trans still
      · by_cases waits : (!after.2 || after.1.waiting now || !admission.ready) = true
        · dsimp only at launchesIff ⊢
          rw [if_pos waits] at launchesIff ⊢
          exact ⟨⟨sound.final, fun _ => unsettled, attempts_le sound (Or.inl same)⟩,
            .kept same rfl launchesIff⟩
        · dsimp only at launchesIff ⊢
          rw [if_neg waits] at launchesIff ⊢
          simp only [Bool.or_eq_true, not_or, Bool.not_eq_true] at waits
          have spent : attempts (Chats.markRunning after.1 now admission.account) =
              attempts document := by
            unfold attempts Chats.markRunning
            rw [same]
            cases document.retry <;> rfl
          refine ⟨⟨?_, ?_, ?_⟩, ?_⟩
          · intro settled isSettled
            dsimp only at isSettled
            cases checkpoint with
            | none => cases isSettled
            | some saved => exact nomatch unsettled.symm.trans isSettled
          · intro _
            cases checkpoint with
            | none => rfl
            | some saved => exact unsettled
          · rw [spent]
            exact sound.bounded
          · refine .launched now admission rfl active rfl ?_ ?_ spent rfl launchesIff
            · rintro ⟨_, inactive | ⟨_, settled, isSettled, _⟩⟩
              · exact nomatch inactive.symm.trans active
              · exact nomatch unsettled.symm.trans isSettled
            · have waited := waits.1.2
              unfold Run.waiting at waited ⊢
              rw [same] at waited
              exact waited

theorem cancel_turns (sound : Sound state) (now : Int) :
    Sound (cancelRun state now) ∧
      ((cancelRun state now).run.retry = state.run.retry ∨ Done (cancelRun state now)) := by
  unfold cancelRun requestCancel
  by_cases active : state.run.status.isActive = true
  · rw [active]
    simp only [Bool.not_true, Bool.false_eq_true, if_false]
    by_cases idle : (!state.executing && !state.run.recoveryPending) = true
    · rw [if_pos idle]
      simp only [Bool.and_eq_true, Bool.not_eq_true'] at idle
      refine ⟨⟨sound.final, ?_, Nat.zero_le _⟩, Or.inr ⟨idle.1, Or.inl rfl⟩⟩
      rintro (executes | ⟨still, _⟩)
      · exact nomatch idle.1.symm.trans executes
      · cases still
    · rw [if_neg idle]
      exact ⟨⟨sound.final, sound.unsettled, sound.bounded⟩, Or.inl rfl⟩
  · rw [Bool.not_eq_true] at active
    rw [active]
    exact ⟨sound, Or.inl rfl⟩

theorem delete_turns (sound : Sound state) (now : Int) :
    Sound (deleteRun state now) ∧
      ((deleteRun state now).run.retry = state.run.retry ∨ Done (deleteRun state now)) := by
  unfold deleteRun
  dsimp only
  split
  · exact @cancel_turns { state with
      run := { state.run with cancelRequestedAt := some now } }
      ⟨sound.final, sound.unsettled, sound.bounded⟩ now
  · exact @cancel_turns { state with run := state.run }
      ⟨sound.final, sound.unsettled, sound.bounded⟩ now

theorem refreshSession_turns (sound : Sound state) (taken : refreshSession state = some next) :
    Sound next ∧ next.run.retry = state.run.retry := by
  unfold refreshSession at taken
  split at taken
  · obtain ⟨checkpoint, isCheckpoint, rfl⟩ := Option.map_eq_some_iff.mp taken
    obtain ⟨final, unsettled, bounded⟩ := sound
    rw [isCheckpoint] at final unsettled
    exact ⟨⟨final, unsettled, bounded⟩, rfl⟩
  · cases taken

theorem error_turns (sound : Sound state) (executes : state.executing = true) :
    Sound (requeueAfterError state) ∧ (requeueAfterError state).run.retry = state.run.retry := by
  have unsettled : (state.checkpoint.getD .exhausted).settled = none := by
    have none := sound.unsettled (Or.inl executes)
    cases isCheckpoint : state.checkpoint with
    | none => rfl
    | some saved =>
        rw [isCheckpoint] at none
        exact none
  refine ⟨⟨fun settled isSettled => ?_, ?_, sound.bounded⟩, rfl⟩
  · unfold requeueAfterError at isSettled
    dsimp only [Option.bind] at isSettled
    split at isSettled
    · exact nomatch unsettled.symm.trans isSettled
    · rename_i inactive
      obtain rfl := Option.some.inj isSettled
      exact Bool.not_eq_true _ ▸ inactive
  · rintro (still | ⟨_, ready⟩)
    · cases still
    · cases ready

theorem restart_turns (sound : Sound state) (now : Int) :
    Sound { state with run := restoreAfterRestart state.checkpoint now state.run, executing := false } ∧
      (restoreAfterRestart state.checkpoint now state.run).retry = state.run.retry := by
  have same : (restoreAfterRestart state.checkpoint now state.run).retry = state.run.retry := by
    unfold restoreAfterRestart
    split
    · rfl
    · split
      · split <;> rfl
      · split <;> rfl
  refine ⟨⟨sound.final, ?_, attempts_le sound (Or.inl same)⟩, same⟩
  rintro (executes | ⟨active, ready⟩)
  · cases executes
  · refine sound.unsettled (Or.inr ?_)
    unfold restoreAfterRestart at active ready
    dsimp only at active ready
    split at active
    · rename_i inactive
      rw [if_pos inactive] at ready
      exact ⟨active, ready⟩
    · rename_i isActive
      rw [if_neg isActive] at ready
      split at active
      · rename_i idle
        rw [if_pos idle] at ready
        split at active
        · rename_i requested
          rw [if_pos requested] at ready
          cases ready
        · rename_i requested
          rw [if_neg requested] at ready
          exact ⟨active, ready⟩
      · rename_i running
        rw [if_neg running] at ready
        split at active
        · cases active
        · rename_i older
          rw [if_neg older] at ready
          cases ready

/-- A step that no user asked for does one of four things to the record. -/
theorem step_turns (sound : Sound state) {step : Step} (own : step.begins = false)
    (taken : Retries.step state step = some next) : Sound next ∧ Turns state step next := by
  cases step with
  | message deleted snapshot execution context => cases own
  | resume => cases own
  | cancel now =>
      obtain rfl := Option.some.inj taken
      obtain ⟨soundNext, same | done⟩ := cancel_turns sound now
      · exact ⟨soundNext, .kept same rfl rfl⟩
      · exact ⟨soundNext, .ends done rfl rfl⟩
  | delete now =>
      obtain rfl := Option.some.inj taken
      obtain ⟨soundNext, same | done⟩ := delete_turns sound now
      · exact ⟨soundNext, .kept same rfl rfl⟩
      · exact ⟨soundNext, .ends done rfl rfl⟩
  | newSession =>
      obtain ⟨soundNext, same⟩ := refreshSession_turns sound taken
      exact ⟨soundNext, .kept same rfl rfl⟩
  | launch now admission => exact launch_turns sound taken
  | progress saved session =>
      simp only [Retries.step] at taken
      split at taken
      · obtain rfl := Option.some.inj taken
        exact ⟨⟨sound.final, sound.unsettled, sound.bounded⟩, .kept rfl rfl rfl⟩
      · cases taken
  | finish closing outcome => exact finish_turns sound taken
  | error =>
      simp only [Retries.step] at taken
      split at taken
      · rename_i executes
        obtain rfl := Option.some.inj taken
        obtain ⟨soundNext, same⟩ := error_turns sound executes
        exact ⟨soundNext, .kept same rfl rfl⟩
      · cases taken
  | restart now =>
      obtain rfl := Option.some.inj taken
      obtain ⟨soundNext, same⟩ := restart_turns sound now
      exact ⟨soundNext, .kept same rfl rfl⟩

/-- A request of a user starts with an empty checkpoint; a resume has a whole budget. -/
theorem begin_turns (sound : Sound state) {step : Step} (begins : step.begins = true)
    (taken : Retries.step state step = some next) :
    Sound next ∧ retried state step = none ∧
      ((∃ deleted snapshot execution context,
          step = .message deleted snapshot execution context ∧
            next.run.retry = state.run.retry) ∨
        (step = .resume ∧ next.run.retry = none)) := by
  cases step with
  | message deleted snapshot execution context =>
      simp only [Retries.step, continueTurn] at taken
      split at taken
      · cases taken
      · obtain ⟨checkpoint, _, rfl⟩ := Option.map_eq_some_iff.mp taken
        have same : ∀ switched handed,
            (continuedRun state.run switched snapshot handed).retry = state.run.retry := by
          intro switched handed
          unfold continuedRun
          cases switched <;> rfl
        refine ⟨⟨nofun, fun _ => rfl, attempts_le sound (Or.inl (same _ _))⟩, rfl,
          Or.inl ⟨deleted, snapshot, execution, context, rfl, same _ _⟩⟩
  | resume =>
      simp only [Retries.step, resumeRun] at taken
      split at taken
      · cases taken
      · obtain rfl := Option.some.inj taken
        have unsettled : (state.checkpoint.map (resumedCheckpoint state.run
            (beforeLaunch state.run state.checkpoint))).bind RunCheckpoint.settled = none := by
          cases state.checkpoint <;> rfl
        refine ⟨⟨fun settled isSettled => (nomatch unsettled.symm.trans isSettled),
          fun _ => unsettled, Nat.zero_le _⟩, rfl, Or.inr ⟨rfl, rfl⟩⟩
  | _ => cases begins

/-! ### Runs whose outcome is settled -/

end Cairn.Worker.Retries

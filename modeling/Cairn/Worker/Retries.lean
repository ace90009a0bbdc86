import Cairn.Library.Steps
import Cairn.Chats.Conversation

/-!
Owns the automatic retries of one run: `worker/retry.rs`, the end of an execution in
`worker/execution.rs` and `worker/launch.rs`, and with them every patch of the run
document that creates, advances, clears or keeps its `retry` record.

A step is one transaction or the end of one execution. The checks of the chat around a
request, moves between nodes and the purge of a deleted chat are left out; so are the
texts the outputs leave in a summary.
-/

set_option autoImplicit false

namespace Cairn.Worker.Retries

open Cairn.Library.Steps
open Cairn.Chats (Admission tryLaunch restoreAfterRestart continuedRun continuedCheckpoint)

/-! ### The end of an execution -/

/-- What an execution finds at its end: the clocks, what was asked of it and whether its
process is confirmed stopped. -/
structure Closing where
  now : Int
  reported : Int
  jitter : Int := 0
  cancelled : Bool := false
  shutdown : Bool := false
  expired : Bool := false
  fenced : Bool := true
  hasSession : Bool := true
  summary : String := ""
deriving DecidableEq, Repr

/-- The error an execution ended with. -/
structure Failure where
  message : String
  unavailable : Bool := false
  noCapacity : Bool := false
  remote : Bool := false
deriving DecidableEq, Repr

/-- How an execution ended: its process exited, or it failed. -/
inductive Outcome where
  | exited (code : Option Int) (timedOut : Bool)
  | failed (failure : Failure)
deriving DecidableEq, Repr

/-- The transaction of `retry::schedule`. -/
def scheduled (run : Run) (cause : Cause) (closing : Closing) : Option Run :=
  if run.cancelRequestedAt.isSome || run.sessionId.isNone || !run.status.isActive then none
  else
    (Retry.next run.retry cause closing.now closing.jitter).map fun retry =>
      let seconds := (retry.nextAttemptAt.getD 0 - closing.reported + 999).tdiv 1000
      { run with
        status := .queued
        retry := some retry
        recoveryPending := true
        resumeAvailable := true
        finishedAt := none
        error := none
        accountWaitReason := some ("Temporary agent error. Retrying in " ++ toString seconds ++
          " seconds (attempt " ++ toString retry.attempt ++ "/" ++ toString retry.limit ++ ").") }

/-- `retry::schedule`. -/
def schedule (run : Run) (saved : RunCheckpoint) (closing : Closing) (error : String) :
    Option Run :=
  if closing.cancelled || closing.shutdown || closing.expired then none
  else
    match saved.retryCause with
    | none => none
    | some cause =>
        if saved.completed || cause.message ≠ error then none else scheduled run cause closing

/-- `MAX_CONTROLLER_RECOVERIES`. -/
def maxControllerRecoveries : Nat := 3

/-- `recovers_controller`. -/
def recoversController (run : Run) (saved : RunCheckpoint) (closing : Closing)
    (failure : Failure) : Bool :=
  failure.unavailable && saved.firecracker &&
    (saved.controllerRecoveries < maxControllerRecoveries || run.moveRequest || failure.remote) &&
    run.sessionId.isSome && !closing.expired && !closing.cancelled && !closing.shutdown

/-- `VM_STOP_WAIT_REASON`. -/
def vmStopWaitReason : String := "Waiting for the previous VM to stop."

/-- `failure_patch`. -/
def failurePatch (status : RunStatus) (needsFence : Bool) (summary : String) (now : Int)
    (run : Run) : Run :=
  let recoveryPending := needsFence || status = .queued
  { run with
    status := if needsFence then .queued else status
    recoveryPending
    finishedAt := if recoveryPending then none else some now
    summary
    error := if status = .failed then some summary else none
    accountWaitReason :=
      if needsFence then some vmStopWaitReason
      else if status = .queued then
        some "Paused for worker restart. This run will resume automatically."
      else none }

/-- What `record_failure` does after `retry::schedule` refused. -/
def unscheduled (run : Run) (saved : RunCheckpoint) (closing : Closing) (failure : Failure) :
    Run × RunCheckpoint :=
  if !closing.cancelled && failure.noCapacity then
    ({ run with status := .queued, recoveryPending := true, finishedAt := none }, saved)
  else
    let recovers := recoversController run saved closing failure
    let recovering :=
      if recovers then { saved with controllerRecoveries := saved.controllerRecoveries + 1 }
      else saved
    let status :=
      if closing.cancelled then RunStatus.cancelled
      else if closing.shutdown || recovers then .queued
      else .failed
    let needsFence := saved.isolated && saved.runnerId.isSome
    let settled :=
      if needsFence && status ≠ .queued then
        { recovering with settled := some (Settled.failure status failure.message closing.now) }
      else recovering
    (failurePatch status needsFence failure.message closing.now run, settled)

/-- `record_failure`. -/
def recordFailure (run : Run) (saved : RunCheckpoint) (closing : Closing) (failure : Failure) :
    Run × RunCheckpoint :=
  match schedule run saved closing failure.message with
  | some retried => (retried, saved)
  | none => unscheduled run saved closing failure

/-- The status `finish` gives a run whose process exited. -/
def exitStatus (saved : RunCheckpoint) (closing : Closing) (code : Option Int) (timedOut : Bool) :
    RunStatus :=
  if closing.cancelled then .cancelled
  else if timedOut then .failed
  else if code = some 0 || closing.shutdown && saved.completed then .succeeded
  else .failed

/-- `finish`: the patch of a run whose process exited, or the failure of its turn that the
provider confirmed. -/
def finish (run : Run) (saved : RunCheckpoint) (closing : Closing) (code : Option Int)
    (timedOut : Bool) : Except String Run :=
  let status := exitStatus saved closing code timedOut
  let confirmed :=
    if status = .failed && !timedOut && !(closing.cancelled || closing.shutdown) &&
        closing.hasSession then saved.retryCause
    else none
  match confirmed with
  | some cause => .error cause.message
  | none =>
      .ok { run with
        status
        finishedAt := some closing.now
        resumeAvailable :=
          (status ≠ .succeeded || run.chatExecution.isSome) && closing.hasSession
        summary := closing.summary
        error := if status = .succeeded then none else some closing.summary
        retry := if status = .succeeded then none else run.retry }

/-- The run and the checkpoint after an execution, before its process is fenced. -/
def close (run : Run) (saved : RunCheckpoint) (closing : Closing) (outcome : Outcome) :
    Run × RunCheckpoint :=
  match outcome with
  | .failed failure => recordFailure run saved closing failure
  | .exited code timedOut =>
      match finish run saved closing code timedOut with
      | .ok finished => (finished, saved)
      | .error message => recordFailure run saved closing { message }

/-- `fence` and `release`: a run whose process may still run goes back to recovery with its
outcome in the checkpoint. -/
def release (fenced : Bool) (run : Run) (saved : RunCheckpoint) : Run × RunCheckpoint :=
  if fenced then (saved.settled.elim run fun settled => settled.patch run, saved)
  else
    (requeued (some vmStopWaitReason) run,
      if run.status ≠ .queued then { saved with settled := some (Settled.fromRun run) } else saved)

/-! ### Steps -/

/-- The run, its saved checkpoint and whether it executes. -/
structure State where
  run : Run
  checkpoint : Option RunCheckpoint := none
  executing : Bool := false

/-- What happens to the run. -/
inductive Step where
  | message (deleted : Bool) (snapshot : Run) (execution : ChatExecution) (context : String)
  | resume
  | cancel (now : Int)
  | delete (now : Int)
  | newSession
  | launch (now : Int) (admission : Admission)
  | progress (saved : RunCheckpoint) (session : Option String)
  | finish (closing : Closing) (outcome : Outcome)
  | error
  | restart (now : Int)

/-- `continue_run` for a chat that `chat_tick` finds idle. -/
def continueTurn (state : State) (deleted : Bool) (snapshot : Run) (execution : ChatExecution)
    (context : String) : Option State :=
  let run := state.run
  if run.status.isActive || state.executing || run.recoveryPending ||
      !covers snapshot.agent run.agent then none
  else
    (state.checkpoint.or (if deleted then some {} else none)).map fun checkpoint =>
      let switched := snapshot.agent.provider ≠ run.agent.provider || checkpoint.freshSession
      let handed := if switched then { execution with context := some context } else execution
      { state with
        run := continuedRun run switched snapshot handed
        checkpoint := some (continuedCheckpoint checkpoint switched snapshot.agent) }

/-- `requeue` on the documents of the run. -/
def resumeRun (state : State) : Option State :=
  let starts := beforeLaunch state.run state.checkpoint
  if state.executing || !(starts || resumable state.run state.checkpoint) then none
  else
    some { state with
      run := resumedRun state.run starts
      checkpoint := state.checkpoint.map (resumedCheckpoint state.run starts) }

/-- `request_cancel`; a refused request changes nothing. -/
def cancelRun (state : State) (now : Int) : State :=
  match requestCancel state.run state.executing now with
  | .ok run => { state with run }
  | .error _ => state

/-- `trash` and the cancellation that follows it. -/
def deleteRun (state : State) (now : Int) : State :=
  let stopped :=
    if state.run.status.isActive then { state.run with cancelRequestedAt := some now }
    else state.run
  cancelRun { state with run := stopped } now

/-- `request_new_session` on the documents of the run. -/
def refreshSession (state : State) : Option State :=
  if state.run.status = .failed || state.run.status = .interrupted then
    state.checkpoint.map fun checkpoint =>
      { state with
        run := { state.run with sessionId := none, resumeAvailable := false }
        checkpoint := some { checkpoint with
          freshSession := true, launched := false, controllerRecoveries := 0 } }
  else none

/-- `try_launch` of a run that does not execute. -/
def launchRun (state : State) (now : Int) (admission : Admission) : Option State :=
  if state.executing then none
  else
    let launched := tryLaunch state.run state.checkpoint admission now
    some {
      run := launched.1
      checkpoint :=
        if launched.2 then some (state.checkpoint.getD (.fresh (budgetMs state.run.agent)))
        else state.checkpoint
      executing := launched.2 }

/-- `requeue_after_error`. -/
def requeueAfterError (state : State) : State :=
  let saved := state.checkpoint.getD .exhausted
  { run := requeued (some "Recovering after a worker error.") state.run
    checkpoint := some
      (if state.run.status.isActive then saved
      else { saved with settled := some (Settled.fromRun state.run) })
    executing := false }

/-- One step. What an execution saves leaves `settled` to its end. -/
def step (state : State) : Step → Option State
  | .message deleted snapshot execution context =>
      continueTurn state deleted snapshot execution context
  | .resume => resumeRun state
  | .cancel now => some (cancelRun state now)
  | .delete now => some (deleteRun state now)
  | .newSession => refreshSession state
  | .launch now admission => launchRun state now admission
  | .progress saved session =>
      if state.executing then
        some { state with
          run := { state.run with sessionId := session }
          checkpoint := some { saved with
            settled := state.checkpoint.bind RunCheckpoint.settled } }
      else none
  | .finish closing outcome =>
      match state.executing, state.checkpoint with
      | true, some saved =>
          let closed := close state.run saved closing outcome
          let released := release closing.fenced closed.1 closed.2
          some ⟨released.1, some released.2, false⟩
      | _, _ => none
  | .error => if state.executing then some (requeueAfterError state) else none
  | .restart now =>
      some { state with
        run := restoreAfterRestart state.checkpoint now state.run
        executing := false }

/-- A request of a user starts the run. -/
def Step.begins : Step → Bool
  | .message .. => true
  | .resume => true
  | _ => false

/-- The retry that a step schedules. -/
def retried (state : State) : Step → Option Retry
  | .finish closing outcome =>
      match state.executing, state.checkpoint with
      | true, some saved =>
          let failed : Option String :=
            match outcome with
            | .failed failure => some failure.message
            | .exited code timedOut =>
                match finish state.run saved closing code timedOut with
                | .ok _ => none
                | .error message => some message
          failed.bind fun message => (schedule state.run saved closing message).bind Run.retry
      | _, _ => none
  | _ => none

/-- Automatic retries left to use up, and the wait before the next one. -/
def attempts (run : Run) : Nat := (run.retry.map Retry.attempt).getD 0

/-- When the next attempt may start. -/
def due (run : Run) : Option Int := run.retry.bind Retry.nextAttemptAt

/-- The whole budget is left, and nothing has to be waited for. -/
def Whole (run : Run) : Prop := attempts run = 0 ∧ due run = none

instance (run : Run) : Decidable (Whole run) := by
  unfold Whole
  infer_instance

end Cairn.Worker.Retries

import Cairn.Chats.Turns

/-!
Owns the model of `worker/control.rs`: cancelling a run, queueing a stopped run again,
and pausing its chat. The map of executing runs is an argument.

Does not own what the scheduler does with a queued run.
-/

set_option autoImplicit false

namespace Cairn.Worker

open Cairn.Chats (Db)

/-- `request_cancel` on the document of the run. -/
def requestCancel (run : Run) (isActive : Bool) (now : Int) : Except Error Run :=
  if !run.status.isActive then .error (Error.conflict "This run has already finished.")
  else
    let requested := { run with cancelRequestedAt := some now }
    -- An executing or recovering run is settled by its worker once it stops.
    if !isActive && !run.recoveryPending then
      .ok { requested with
        status := .cancelled
        finishedAt := some now
        summary := "Cancelled before execution."
        retry := none }
    else .ok requested

/-- `cancel`, given whether the run executes. -/
def cancel (db : Db) (id : String) (isActive : Bool) (now : Int) : Except Error Db :=
  match db.run? id with
  | none => .error (Error.notFound "Run not found")
  | some run => do
      let cancelled ← requestCancel run isActive now
      db.putRun cancelled

/-- A chat that failed before its process launched simply starts again. -/
def beforeLaunch (run : Run) (checkpoint : Option RunCheckpoint) : Bool :=
  run.chatExecution.isSome && (run.status = .failed || run.status = .cancelled) &&
    checkpoint.all fun checkpoint => !checkpoint.launched

/-- Whether a run has a saved conversation to go on with. -/
def resumable (run : Run) (checkpoint : Option RunCheckpoint) : Bool :=
  run.status.isResumable && run.resumeAvailable && checkpoint.any RunCheckpoint.prepared &&
    run.workspaceCleanedAt.isNone

/-- The checkpoint `requeue` stores. -/
def resumedCheckpoint (run : Run) (starts : Bool) (checkpoint : RunCheckpoint) : RunCheckpoint :=
  { checkpoint with
    remainingMs := some (budgetMs run.agent)
    completed := starts && checkpoint.completed
    settled := none
    retryCause := none }

/-- The run `requeue` stores. -/
def resumedRun (run : Run) (starts : Bool) : Run :=
  { run with
    status := .queued
    error := none
    outcome := none
    recoveryPending := true
    cancelRequestedAt := none
    finishedAt := none
    accountWaitReason := if starts then none else some "Resuming saved conversation."
    retry := none }

/-- `requeue`. -/
def requeue (db : Db) (id : String) : Except Error Db :=
  match db.run? id with
  | none => .error (Error.notFound "Run not found")
  | some run =>
      let chat := db.chatForRun id
      if chat.any fun chat => !chat.isActive then
        .error (Error.conflict "Restore this conversation before continuing.")
      else if chat.any fun chat => chat.cancelledByDeletion || chat.sessionRestartRequested then
        .error (Error.conflict
          ("Send a new message and resume the conversation queue to continue; " ++
            "cancelled work will not replay."))
      else
        let checkpoint := db.checkpoints id
        let starts := beforeLaunch run checkpoint
        if !starts && !resumable run checkpoint then
          .error (Error.conflict "This run has no saved conversation available to resume.")
        else if db.active.any fun other => other.taskId = run.taskId then
          .error (Error.conflict "This task already has an active run.")
        else
          let prepared :=
            match checkpoint with
            | some checkpoint => db.setCheckpoint id (resumedCheckpoint run starts checkpoint)
            | none => db
          prepared.putRun (resumedRun run starts)

/-- `resume`, given whether the run executes. -/
def resume (db : Db) (id : String) (isActive : Bool) : Except Error Db :=
  if isActive then
    .error (Error.conflict "Wait for this run to finish stopping before resuming.")
  else requeue db id

/-- Unpausing a chat queues its stopped run again, unless its work was cancelled. -/
def resumeUnpaused (db : Db) (chat : Chats.Chat) (executing : Option String) : Except Error Db :=
  match chat.runId with
  | none => .ok db
  | some id =>
      match db.run? id with
      | none => .error (Error.notFound "Run not found")
      | some run =>
          if run.status.isResumable && !chat.cancelledByDeletion &&
              !chat.sessionRestartRequested then
            resume db id (executing = some id)
          else .ok db

/-- `pause_chat`, given the run that executes. -/
def pauseChat (db : Db) (executing : Option String) (now : Int) (paused : Bool) :
    Except Error Db := do
  let chat ← db.getChat
  chat.requireActive
  let resumed ← if paused then .ok db else resumeUnpaused db chat executing
  Chats.chatPause resumed now paused

end Cairn.Worker

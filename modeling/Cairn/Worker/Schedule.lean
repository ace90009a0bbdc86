import Mathlib.Data.List.Sort
import Cairn.Library.Steps
import Cairn.Chats.Conversation

/-!
Owns the model of `worker/schedule.rs` over the runs that execute on the host: the pass a
tick makes over the active runs in their creation order, the map of executing runs, and
what an execution, a failed worker or a restarted one leave of a run.

A pass is several steps, so whatever does not hold the lock of the tick happens between
them. Whether a process of a run may still exist is part of the state; no transaction
reads it.

Does not own the placement of the runs that execute in a VM.
-/

set_option autoImplicit false

namespace Cairn.Worker

open Cairn.Chats (Db Ending addRun markRunning recover recoveryWaitReason restoreAfterRestart)

/-! ### A pass -/

/-- The rest of a tick; `reserved` names the runs whose projects were added to
`projects`. -/
structure Pass where
  projects : List String
  remaining : List Run
  candidate : Option Run := none
  reserved : List String

/-- A test of `try_launch`: another run holds a project of the run. -/
def Pass.conflicts (pass : Pass) (run : Run) : Bool :=
  run.projects.any fun project => pass.projects.contains project

/-- Add the projects of a run. -/
def Pass.reserve (pass : Pass) (run : Run) : Pass :=
  { pass with projects := pass.projects ++ run.projects, reserved := run.id :: pass.reserved }

/-- The tables, the keys of the map of executing runs with those whose execution has
ended, the runs a process of which may exist, and the pass of the current tick. -/
structure State where
  db : Db
  concurrency : Nat
  active : List String := []
  ended : List String := []
  alive : List String := []
  pass : Option Pass := none

/-- A request, a step of a tick or of an execution, or a restart. -/
inductive Step where
  | enqueue (run : Run)
  | continueRun (run : Run)
  | resume (id : String)
  | cancel (id : String) (now : Int)
  | tick
  | consider (now : Int) (fenced : Bool)
  | launch (ready : Bool)
  | endTick
  | markRunning (id : String) (now : Int) (account : Option String)
  | spawn (id : String)
  | progress (id : String) (checkpoint : RunCheckpoint)
  | exit (id : String)
  | settle (id : String) (now : Int) (ending : Ending)
  | fail (id : String)
  | leave (id : String)
  | restart (now : Int)

/-- `Db::active` in the order it returns. -/
def activeByCreation (db : Db) : List Run :=
  db.active.insertionSort fun first second => first.createdAt ≤ second.createdAt

/-- The projects of the executing runs. -/
def lockedByActive (db : Db) : List String → Option (List String)
  | [] => some []
  | id :: ids => do
      let run ← db.run? id
      let rest ← lockedByActive db ids
      some (run.projects ++ rest)

/-- `patch_run`. -/
def patchRun (db : Db) (id : String) (patch : Run → Run) : Option Db := do
  let run ← db.run? id
  (db.putRun (patch run)).toOption

/-- `requeue_after_error`, on the tables. -/
def requeueAfterError (db : Db) (id : String) : Option Db := do
  let run ← db.run? id
  let checkpoint := (db.checkpoints id).getD RunCheckpoint.exhausted
  let saved :=
    if run.status.isActive then checkpoint
    else { checkpoint with settled := some (Settled.fromRun run) }
  patchRun (db.setCheckpoint id saved) id (requeued (some "Recovering after a worker error."))

namespace State

/-- A transaction that fails changes nothing. -/
def commit (state : State) (result : Except Error Db) : State :=
  match result with
  | .ok db => { state with db }
  | .error _ => state

/-- The end of `try_launch` before its run waits for an account. -/
def select (state : State) (pass : Pass) (run : Run) (now : Int) : Option State := do
  let current ← state.db.run? run.id
  let selected := current.status = .queued && !current.waiting now
  some { state with pass := some { pass with candidate := if selected then some run else none } }

/-- `recover` of a run whose previous process is confirmed stopped. -/
def recoverRun (state : State) (pass : Pass) (run : Run) (now : Int) : Option State := do
  let current ← state.db.run? run.id
  let recovered := recover current (state.db.checkpoints run.id) now
  let db ← (state.db.putRun recovered.1).toOption
  let fenced : State := { state with db, alive := state.alive.filter fun id => id ≠ run.id }
  if recovered.2 then fenced.select pass run now else some { fenced with pass := some pass }

/-- `try_launch` up to the account. -/
def tryLaunch (state : State) (pass : Pass) (run : Run) (now : Int) (fenced : Bool) :
    Option State :=
  if run.status ≠ .queued || pass.conflicts run then some { state with pass := some pass }
  else
    let launched := (state.db.checkpoints run.id).any RunCheckpoint.launched
    -- A recovering run may still own its workspace.
    let kept := if run.recoveryPending || launched then pass.reserve run else pass
    if !run.recoveryPending then state.select kept run now
    else if fenced then state.recoverRun kept run now
    else do
      let db ← patchRun state.db run.id fun current =>
        { current with accountWaitReason := some recoveryWaitReason }
      some { state with db, pass := some kept }

/-- The run that the end of `try_launch` launches. -/
def launching (state : State) (ready : Bool) : Option Run := do
  let pass ← state.pass
  let run ← pass.candidate
  let current ← state.db.run? run.id
  if ready && current.status = .queued then some run else none

/-- One step. -/
def step (state : State) : Step → Option State
  | .enqueue run =>
      if run.status = .queued && !run.recoveryPending then state.commit (addRun state.db run)
      else none
  | .continueRun run =>
      -- The chats are read before the pass begins.
      if state.pass.isNone && !state.active.contains run.id && run.status = .queued &&
          (state.db.run? run.id).any fun stored =>
            !stored.status.isActive && !stored.recoveryPending then
        state.commit (state.db.putRun run)
      else none
  | .resume id => state.commit (resume state.db id (state.active.contains id))
  | .cancel id now => state.commit (cancel state.db id (state.active.contains id) now)
  | .tick =>
      if state.pass.isNone then
        (lockedByActive state.db state.active).map fun projects =>
          { state with
            pass := some ⟨projects, activeByCreation state.db, none, state.active⟩ }
      else none
  | .consider now fenced =>
      match state.pass with
      | some ⟨projects, run :: remaining, none, reserved⟩ =>
          let pass : Pass := ⟨projects, remaining, none, reserved⟩
          if state.concurrency ≤ state.active.length then some { state with pass := some pass }
          else state.tryLaunch pass run now fenced
      | _ => none
  | .launch ready =>
      match state.pass with
      | some ⟨projects, remaining, some _, reserved⟩ =>
          let pass : Pass := ⟨projects, remaining, none, reserved⟩
          match state.launching ready with
          | some run => some { state with
              active := state.active.insert run.id
              ended := state.ended.filter fun id => id ≠ run.id
              pass := some (pass.reserve run) }
          | none => some { state with pass := some pass }
      | _ => none
  | .endTick => some { state with pass := none }
  | .markRunning id now account =>
      if state.active.contains id && !state.ended.contains id then
        (state.db.run? id).bind fun run =>
          let checkpoint := (state.db.checkpoints id).getD (.fresh (budgetMs run.agent))
          (patchRun (state.db.setCheckpoint id checkpoint) id
            fun run => markRunning run now account).map fun db => { state with db }
      else none
  | .spawn id =>
      if state.active.contains id && !state.ended.contains id &&
          (state.db.run? id).any fun run => run.status = .running then
        (state.db.checkpoints id).map fun checkpoint =>
          { state with
            db := state.db.setCheckpoint id
              { checkpoint with launched := true, completed := false, retryCause := none }
            alive := state.alive.insert id }
      else none
  | .progress id checkpoint =>
      if state.active.contains id && !state.ended.contains id then
        some { state with db := state.db.setCheckpoint id checkpoint }
      else none
  | .exit id => some { state with alive := state.alive.filter fun other => other ≠ id }
  | .settle id now ending =>
      if state.active.contains id && !state.ended.contains id && ending.isFinal then
        (state.db.run? id).bind fun run =>
          (patchRun (ending.save state.db run.id) id (ending.patch now)).map fun db =>
            { state with db, ended := state.ended.insert id }
      else none
  | .fail id =>
      if state.active.contains id then
        (requeueAfterError state.db id).map fun db =>
          { state with db, ended := state.ended.insert id }
      else none
  | .leave id =>
      if state.ended.contains id then
        some { state with
          active := state.active.filter fun other => other ≠ id
          ended := state.ended.filter fun other => other ≠ id }
      else none
  | .restart now =>
      some { state with
        db := { state.db with
          runs := state.db.runs.map fun run =>
            restoreAfterRestart (state.db.checkpoints run.id) now run }
        active := []
        ended := []
        pass := none }

/-- A new worker over any runs, none of which has a process. -/
def Started (state : State) : Prop :=
  Cairn.Library.Records.Keyed Run.id state.db.runs ∧ state.active = [] ∧ state.ended = [] ∧
    state.alive = [] ∧ state.pass = none

end State

end Cairn.Worker

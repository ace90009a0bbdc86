import Cairn.Library.Steps
import Cairn.Worker.Control

/-!
Owns one chat as a system: its messages, the scheduler that reads a chat and a message
before it starts a turn, and what an execution leaves of the run of the chat. Each step
is one transaction; `try_launch` with the recovery before it is one step, and so is the
end of an execution.

Does not own what a step keeps.
-/

set_option autoImplicit false

namespace Cairn.Chats

open Cairn.Library.Records
open Cairn.Worker

/-! ### The scheduler -/

/-- `RECOVERY_WAIT_REASON`. -/
def recoveryWaitReason : String := "Waiting for the previous execution to stop before recovery."

/-- What `recover` does with a run whose previous execution is fenced, and whether the
run may launch again. -/
def recover (run : Run) (checkpoint : Option RunCheckpoint) (now : Int) : Run × Bool :=
  if run.cancelRequestedAt.isSome then (cancelledRecovery now run, false)
  else
    match checkpoint.bind RunCheckpoint.settled with
    | some settled => (settled.patch run, false)
    | none =>
        if checkpoint.any RunCheckpoint.completed then
          (completedRecovery (checkpoint.getD {}) now run, false)
        else ({ run with recoveryPending := false }, true)

/-- `mark_running`. -/
def markRunning (run : Run) (now : Int) (account : Option String) : Run :=
  { run with
    status := .running
    startedAt := run.startedAt.or (some now)
    finishedAt := none
    accountWaitReason := none
    accountId := account
    retry := run.retry.map fun retry => { retry with nextAttemptAt := none } }

/-- What `try_launch` finds outside the run. -/
structure Admission where
  /-- The previous execution is confirmed stopped. -/
  fenced : Bool := true
  /-- A node, an account and the projects of the run are free. -/
  ready : Bool := true
  account : Option String := none

/-- `try_launch` of a run, with whether its execution starts. -/
def tryLaunch (run : Run) (checkpoint : Option RunCheckpoint) (admission : Admission) (now : Int) :
    Run × Bool :=
  if run.status ≠ .queued then (run, false)
  else if run.recoveryPending && !admission.fenced then
    ({ run with accountWaitReason := some recoveryWaitReason }, false)
  else
    let recovered := if run.recoveryPending then recover run checkpoint now else (run, true)
    if !recovered.2 || recovered.1.waiting now || !admission.ready then (recovered.1, false)
    else (markRunning recovered.1 now admission.account, true)

/-- How an execution leaves its run: settled, or to be recovered. -/
inductive Ending where
  | settled (status : RunStatus) (summary : String)
  | recovering (checkpoint : RunCheckpoint) (reason : Option String)

/-- The document of a run after an execution. -/
def Ending.patch (ending : Ending) (now : Int) (run : Run) : Run :=
  match ending with
  | .settled status summary =>
      { run with
        status
        summary
        recoveryPending := false
        finishedAt := some now
        accountWaitReason := none }
  | .recovering _ reason => requeued reason run

/-- An execution settles its run for good or hands it to recovery. -/
def Ending.isFinal : Ending → Bool
  | .settled status _ => !status.isActive
  | .recovering .. => true

/-- The checkpoint an execution leaves. -/
def Ending.save (ending : Ending) (db : Db) (run : String) : Db :=
  match ending with
  | .settled .. => db
  | .recovering checkpoint _ => db.setCheckpoint run checkpoint

/-- `restore_after_restart` on a run. -/
def restoreAfterRestart (checkpoint : Option RunCheckpoint) (now : Int) (run : Run) : Run :=
  if !run.status.isActive then run
  else if run.status ≠ .running then
    if run.cancelRequestedAt.isSome then { run with recoveryPending := true } else run
  else if checkpoint.isNone && run.startedAt.isSome then
    { run with
      status := .interrupted
      finishedAt := some now
      summary := "This older run has no restart checkpoint. " ++
        "Review its working files before retrying." }
  else requeued (some "Recovering after worker restart.") run

/-! ### Steps -/

/-- What `chat_tick` read of the chat, and the message it is to send. -/
structure Tick where
  chat : Chat
  run : Option Run
  message : Option Message := none

/-- The tables, the run that executes and the work of the scheduler. -/
structure State where
  db : Db
  executing : Option String := none
  tick : Option Tick := none

/-- A request, a step of the scheduler or of an execution, or a change elsewhere. -/
inductive Step where
  | send (now : Int) (values : Values)
  | answer (now : Int) (question message : String) (answers : Answers)
  | edit (message : String) (values : Option Values)
  | acknowledge (now : Int) (run message : String)
  | claimSteering (paused : Bool) (delivering : Option String)
  | tick
  | nextQueued
  | launchTurn (now : Int) (snapshot : Snapshot) (context : String)
  | hold (now : Int)
  | pause (now : Int) (paused : Bool)
  | trash (now : Int) (confirmed : Bool)
  | restore (now : Int)
  | purge (now : Int)
  | forget
  | newSession
  | cancel (now : Int)
  | resume
  | schedule (now : Int) (admission : Admission)
  | progress (checkpoint : RunCheckpoint) (session : Option String) (resumeAvailable : Bool)
  | finish (now : Int) (ending : Ending)
  | restart (now : Int)
  | ask (run : String) (question : Question)
  | otherRun (run : Run)
  | configure (agents : List Agent) (projects : List String) (attachments : List Attachment)
      (usedElsewhere : List String)

namespace State

/-- A transaction that fails changes nothing. -/
def commit (state : State) (result : Except Error Db) : State :=
  match result with
  | .ok db => { state with db }
  | .error _ => state

/-- The id of the run of the chat. -/
def runId (state : State) : Option String := state.db.chat.bind Chat.runId

/-- `chat_trash`: the deletion, then the cancellation of the run. -/
def trash (state : State) (now : Int) (confirmed : Bool) : State :=
  match Chats.trash state.db now confirmed with
  | .error _ => state
  | .ok db =>
      let trashed : State := { state with db }
      match trashed.runId with
      | some run => trashed.commit (cancel db run (state.executing = some run) now)
      | none => trashed

/-- `chat_tick` up to `next_queued`: a chat that is idle is taken on. -/
def readChat (state : State) : Option Tick := do
  let chat ← state.db.chat
  let run := state.db.chatRun? chat
  let busy := run.any fun run =>
    run.status.isActive || state.executing = some run.id || run.recoveryPending
  if !chat.isActive || chat.paused || busy || (chat.runId.isSome && run.isNone) then none
  else some ⟨chat, run, none⟩

/-- The launch of the turn that was selected; a failure pauses the chat. -/
def launch (state : State) (tick : Tick) (message : Message) (now : Int) (snapshot : Snapshot)
    (context : String) : Except Error (Db × Bool) :=
  let agent := selectAgent snapshot.run.agent tick.run message.content
  match launchTurn state.db tick.run message { snapshot with run := { snapshot.run with agent } }
      context with
  | .ok launched => .ok launched
  | .error _ => (chatPause state.db now true).map fun paused => (paused, false)

/-- One step. -/
def step (state : State) : Step → Option State
  | .send now values => state.commit ((Chats.send state.db now values none).map Prod.fst)
  | .answer now question message answers =>
      state.commit ((Chats.answer state.db now question message answers).map Prod.fst)
  | .edit message values => state.commit (Chats.edit state.db message values)
  | .acknowledge now run message =>
      some { state with db := Chats.acknowledge state.db now run message }
  | .claimSteering paused delivering =>
      some { state with db := (Chats.claimSteering state.db paused delivering).1 }
  | .tick => state.readChat.map fun tick => { state with tick := some tick }
  | .nextQueued =>
      match state.tick with
      | some tick =>
          let selected := Chats.nextQueued state.db
          some { state with
            db := selected.1
            tick :=
              if needsAttention tick.chat tick.run then none
              else selected.2.map fun message => { tick with message := some message } }
      | none => none
  | .launchTurn now snapshot context =>
      match state.tick with
      | some ⟨chat, run, some message⟩ =>
          some { state.commit
            ((state.launch ⟨chat, run, none⟩ message now snapshot context).map Prod.fst) with
            tick := none }
      | _ => none
  | .hold now => state.commit (chatPause state.db now true)
  | .pause now paused => state.commit (pauseChat state.db state.executing now paused)
  | .trash now confirmed => state.trash now confirmed
  | .restore now => state.commit (Chats.restore state.db now)
  | .purge now =>
      if state.db.chat.any fun chat => purgeDue chat now then
        state.commit ((markPurging state.db).map Prod.fst)
      else none
  | .forget =>
      match state.db.chat with
      | some chat =>
          if chat.lifecycle = .purging then some { state with db := Chats.forget state.db chat }
          else none
      | none => none
  | .newSession => state.commit (requestNewSession state.db)
  | .cancel now =>
      match state.runId with
      | some run => state.commit (Worker.cancel state.db run (state.executing = some run) now)
      | none => none
  | .resume =>
      match state.runId with
      | some run => state.commit (Worker.resume state.db run (state.executing = some run))
      | none => none
  | .schedule now admission =>
      match state.runId.bind state.db.run? with
      | some run =>
          if state.tick.isNone && state.executing.isNone then
            let launched := tryLaunch run (state.db.checkpoints run.id) admission now
            match state.db.putRun launched.1 with
            | .ok db => some { state with
                db
                executing := if launched.2 then some run.id else none }
            | .error _ => some state
          else none
      | none => none
  | .progress checkpoint session resumeAvailable =>
      match state.executing.bind state.db.run? with
      | some run => state.commit
          ((state.db.setCheckpoint run.id checkpoint).putRun
            { run with sessionId := session, resumeAvailable })
      | none => none
  | .finish now ending =>
      match state.executing.bind state.db.run? with
      | some run =>
          if ending.isFinal then
            some { state.commit ((ending.save state.db run.id).putRun (ending.patch now run)) with
              executing := none }
          else none
      | none => none
  | .restart now =>
      some { state with
        db := { state.db with
          runs := state.db.runs.map fun run =>
            restoreAfterRestart (state.db.checkpoints run.id) now run }
        executing := none
        tick := none }
  | .ask run question => some { state with db := receive state.db run question }
  | .otherRun run =>
      if state.runId ≠ some run.id && state.executing ≠ some run.id then
        state.commit (state.db.putRun run)
      else none
  | .configure agents projects attachments usedElsewhere =>
      some { state with
        db := { state.db with agents, projects, attachments, usedElsewhere } }

/-- A chat as it is created. -/
def Started (state : State) : Prop :=
  state.db.messages = [] ∧ state.db.questions = [] ∧ state.db.events = [] ∧
    (state.db.chat.bind Chat.runId) = none ∧ Keyed Run.id state.db.runs ∧
    state.executing = none ∧ state.tick = none

end State

end Cairn.Chats

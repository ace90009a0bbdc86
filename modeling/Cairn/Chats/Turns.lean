import Cairn.Chats.Messages

/-!
Owns the model of the transactions of `chats.rs` and `conversation_lifecycle.rs` that
start a turn, and of those that delete, restore and purge a chat.

What is revoked with a deleted chat (links to artifacts, notifications, grants) is left
out, and so is the transcript handed to a fresh session, which is an argument.

Does not own when the scheduler calls them.
-/

set_option autoImplicit false

namespace Cairn.Chats

open Cairn.Library.Records
open Cairn.Worker

/-! ### Starting a turn -/

/-- `needs_attention`. -/
def needsAttention (chat : Chat) (run : Option Run) : Bool :=
  (run.any fun run => run.status ≠ .succeeded) && !chat.cancelledByDeletion &&
    !chat.sessionRestartRequested

/-- What `snapshot` returns for a chat, and `skills::mentions` over its skills. -/
structure Snapshot where
  run : Run
  mentions : String → List String := fun _ => []

/-- `with_invoked_skills`. -/
def withInvokedSkills (text : String) (mentions : String → List String) : String :=
  match mentions text with
  | [] => text
  | invoked =>
      text ++ "\n\n<invoked_skills>\n" ++
        "The user invoked these skills with $name in this message. " ++
        "Apply each one to this request by following its SKILL.md " ++
        "under \"Selected skills\" in your instructions:\n" ++
        String.intercalate "\n" (invoked.map fun name => "- " ++ name) ++ "\n</invoked_skills>"

/-- `select_agent`. -/
def selectAgent (agent : Agent) (run : Option Run) (content : Content) : Agent :=
  let provider :=
    if content.provider = "" then ((run.map Run.agent).getD agent).provider
    else if content.provider = "claude" then .claude
    else .codex
  let switched := provider ≠ agent.provider
  let fresh := if switched then { agent with model := "", reasoning := "" } else agent
  let chosen := { fresh with provider }
  let modelled :=
    if content.model ≠ "" then { chosen with model := content.model, reasoning := content.reasoning }
    else chosen
  if content.reasoning ≠ "" then { modelled with reasoning := content.reasoning } else modelled

/-- The checkpoint `continue_run` goes on with. -/
def continuedCheckpoint (checkpoint : RunCheckpoint) (switched : Bool) (agent : Agent) :
    RunCheckpoint :=
  let fresh :=
    if switched then
      { checkpoint with freshSession := false, launched := false, controllerRecoveries := 0 }
    else checkpoint
  { fresh with
    completed := false
    remainingMs := some (budgetMs agent)
    lastMessage := ""
    settled := none }

/-- The run `continue_run` queues. -/
def continuedRun (current : Run) (switched : Bool) (snapshot : Run) (execution : ChatExecution) :
    Run :=
  let fresh :=
    if switched then { current with sessionId := none, resumeAvailable := false } else current
  { fresh with
    agent := snapshot.agent
    projects := snapshot.projects
    status := .queued
    summary := ""
    error := none
    outcome := none
    finishedAt := none
    cancelRequestedAt := none
    recoveryPending := true
    chatExecution := some execution }

/-- `continue_run`, given what `handoff_context` returns. -/
def continueRun (db : Db) (chat : Chat) (run snapshot : Run) (execution : ChatExecution)
    (context : String) : Except Error Db :=
  if !covers snapshot.agent run.agent then
    .error (Error.conflict
      "Agent access was reduced. Start a new chat with the updated permissions.")
  else
    let saved :=
      (db.checkpoints run.id).or (if chat.cancelledByDeletion then some {} else none)
    match saved, db.run? run.id with
    | none, _ => .error (Error.conflict "Run checkpoint not found")
    | some _, none => .error (Error.notFound "Run not found")
    | some checkpoint, some current =>
        let switched := snapshot.agent.provider ≠ run.agent.provider || checkpoint.freshSession
        let handed := if switched then { execution with context := some context } else execution
        (db.setCheckpoint run.id (continuedCheckpoint checkpoint switched snapshot.agent)).putRun
          (continuedRun current switched snapshot handed)

/-- `add_run`. -/
def addRun (db : Db) (run : Run) : Except Error Db :=
  if (db.run? run.id).isSome then .error Error.constraint else db.putRun run

/-- The test `launch_turn` makes of the message it was given. -/
def Db.unchanged (db : Db) (message : Message) : Bool :=
  (db.message? message.id).any fun current =>
    current.status = .queued && sameContent current message

/-- The turn `launch_turn` starts. -/
def turnOf (message : Message) (mentions : String → List String) : ChatExecution where
  messageId := message.id
  text := withInvokedSkills message.content.text mentions
  attachments := message.content.attachments

/-- The run of a turn: the chat's own once it has one. -/
def queueTurn (db : Db) (chat : Chat) (run : Option Run) (snapshot : Run)
    (execution : ChatExecution) (context : String) : Except Error Db :=
  match run with
  | some run => continueRun db chat run snapshot execution context
  | none => addRun db { snapshot with chatExecution := some execution }

/-- `launch_turn`, with whether it started the turn. -/
def launchTurn (db : Db) (run : Option Run) (message : Message) (snapshot : Snapshot)
    (context : String) : Except Error (Db × Bool) := do
  let chat ← db.getChat
  if !chat.isActive || chat.paused || !db.unchanged message then .ok (db, false)
  else
    let launched ←
      queueTurn db chat run snapshot.run (turnOf message snapshot.mentions) context
    let started : Chat := { chat with
      runId := if run.isSome then chat.runId else some snapshot.run.id
      cancelledByDeletion := false
      sessionRestartRequested := false }
    .ok ((launched.putChat started).putMessage { message with status := .sending }, true)

/-! ### Pausing -/

/-- `chat_pause`. -/
def chatPause (db : Db) (now : Int) (paused : Bool) : Except Error Db := do
  let chat ← db.getChat
  chat.requireActive
  .ok (db.putChat { chat with
    paused
    lastActivityAt := chat.lastActivityAt.or (some chat.updatedAt)
    updatedAt := now })

/-! ### Deletion -/

/-- `TRASH_RETENTION`. -/
def trashRetention : Int := 30 * 86400000

/-- `cancel_pending_input`. -/
def cancelPendingInput (db : Db) : Db :=
  { db with
    messages := db.messages.map fun message =>
      if message.isPending then { message with status := .cancelled } else message
    questions := db.questions.map fun question =>
      if question.isOpen then { question with status := .cancelled, blocking := false }
      else question }

/-- Whether deleting a chat stops anything. -/
def Db.busy (db : Db) (chat : Chat) : Bool :=
  ((db.chatRun? chat).any fun run => run.status.isActive) ||
    db.messages.any Message.isPending || db.questions.any Question.isOpen

/-- Request the cancellation of the run of a chat if it is active. -/
def requestStop (db : Db) (chat : Chat) (now : Int) : Db :=
  match db.chatRun? chat with
  | some run =>
      if run.status.isActive then
        { db with runs := put Run.id { run with cancelRequestedAt := some now } db.runs }
      else db
  | none => db

/-- `trash`. -/
def trash (db : Db) (now : Int) (confirmed : Bool) : Except Error Db := do
  let chat ← db.getChat
  if chat.inTrash then .ok db
  else
    let busy := db.busy chat
    if busy && !confirmed then
      .error (Error.conflict
        "Confirm deletion to stop the agent and cancel pending messages and questions.")
    else
      .ok ((requestStop (cancelPendingInput db) chat now).putChat { chat with
        cancelledByDeletion := busy
        lifecycle := .trash
        trashedAt := some now
        purgeAt := some (now + trashRetention)
        paused := true })

/-- `restore`. -/
def restore (db : Db) (now : Int) : Except Error Db := do
  let chat ← db.getChat
  if chat.lifecycle ≠ .trash then
    .error (Error.conflict "This conversation is not in the trash.")
  else if chat.purgeAt.all fun at_ => at_ ≤ now then
    .error ⟨410, "This conversation has expired."⟩
  else if (db.chatRun? chat).any fun run => run.status.isActive then
    .error (Error.conflict "Wait for the agent to finish stopping.")
  else
    .ok (db.putChat { chat with
      lifecycle := .active
      trashedAt := none
      purgeAt := none
      retryAfter := none })

/-- `purge_due`. -/
def purgeDue (chat : Chat) (now : Int) : Bool :=
  chat.retryAfter.getD 0 ≤ now && chat.inTrash && chat.purgeAt.any fun at_ => at_ ≤ now

/-- `mark_purging`, with whether the chat was claimed. -/
def markPurging (db : Db) : Except Error (Db × Bool) := do
  let chat ← db.getChat
  if !chat.inTrash || (db.chatRun? chat).any fun run => run.status.isActive then .ok (db, false)
  else .ok (db.putChat { chat with lifecycle := .purging }, true)

/-- `forget`. -/
def forget (db : Db) (chat : Chat) : Db :=
  let run := chat.runId.getD ""
  { db with
    chat := none
    messages := []
    questions := []
    attachments := []
    events := db.events.filter fun event => event.runId ≠ run
    runs := remove Run.id run db.runs
    checkpoints := fun id => if id = run then none else db.checkpoints id }

/-! ### A fresh session -/

/-- `request_new_session`. -/
def requestNewSession (db : Db) : Except Error Db := do
  let chat ← db.getChat
  chat.requireActive
  match db.chatRun? chat with
  | none => .error (Error.notFound "Run not found")
  | some run =>
      if !(chat.restoredAt.isSome && (run.status = .failed || run.status = .interrupted)) then
        .error (Error.conflict "A fresh session is available after a restored session fails.")
      else
        match db.checkpoints run.id with
        | none => .error (Error.notFound "Workspace checkpoint not found")
        | some checkpoint => do
            let requested := db.setCheckpoint run.id { checkpoint with
              freshSession := true
              launched := false
              controllerRecoveries := 0 }
            let stopped ← requested.putRun { run with sessionId := none, resumeAvailable := false }
            .ok (stopped.putChat { chat with sessionRestartRequested := true, paused := true })

end Cairn.Chats

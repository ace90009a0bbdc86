import Cairn.Library.Records
import Cairn.Library.Results
import Cairn.Worker.Runs

/-!
Owns the model of the message transactions of `chats.rs`, `chats/questions.rs` and
`attachments.rs` over the tables of one chat.

The messages stand in the order in which they are read. The clock is an argument, and
so is what `skills::mentions` finds in a text. The title of a chat and the documents of
the events other than `chat.user` are left out.

Does not own which message is sent next.
-/

set_option autoImplicit false

namespace Cairn.Chats

open Cairn.Library.Records
open Cairn.Worker

/-! ### Records -/

/-- `MessageStatus`. -/
inductive MessageStatus where
  | queued
  | sending
  | delivered
  | cancelled
deriving DecidableEq, Repr

/-- `MessageMode`. -/
inductive MessageMode where
  | queue
  | steer
deriving DecidableEq, Repr

/-- What `same_content` compares. -/
structure Content where
  text : String := ""
  provider : String := ""
  model : String := ""
  reasoning : String := ""
  attachments : List Attachment := []
deriving DecidableEq, Repr

/-- The answers to the fields of a question. -/
abbrev Answers := List (String × List String)

/-- A row of `chat_messages`. -/
structure Message where
  id : String
  content : Content
  mode : MessageMode := .queue
  status : MessageStatus := .queued
  questionId : Option String := none
  answers : Option Answers := none
  createdAt : Int
  /-- The column of the row, which no update changes. -/
  insertedAt : Int
deriving DecidableEq, Repr

/-- `same_content`. -/
def sameContent (left right : Message) : Bool := left.content = right.content

/-- `message_is_pending`. -/
def Message.isPending (message : Message) : Bool :=
  message.status = .queued || message.status = .sending

/-- `QuestionStatus`. -/
inductive QuestionStatus where
  | pending
  | answering
  | answered
  | cancelled
deriving DecidableEq, Repr

/-- `QuestionField`. -/
structure QuestionField where
  id : String
  title : String
  secret : Bool := false
deriving DecidableEq, Repr

/-- `Question`. -/
structure Question where
  id : String
  blocking : Bool := false
  status : QuestionStatus := .pending
  fields : List QuestionField := []
  createdAt : Int := 0
  messageId : Option String := none
deriving DecidableEq, Repr

namespace Question

/-- `is_open`. -/
def isOpen (question : Question) : Bool :=
  question.status = .pending || question.status = .answering

/-- `is_private`. -/
def isPrivate (question : Question) : Bool := question.fields.any QuestionField.secret

end Question

/-- `Lifecycle`. -/
inductive Lifecycle where
  | active
  | trash
  | purging
deriving DecidableEq, Repr

/-- A document of `chats`. -/
structure Chat where
  id : String
  agentId : String
  projectId : Option String := none
  runId : Option String := none
  paused : Bool := false
  lifecycle : Lifecycle := .active
  cancelledByDeletion : Bool := false
  sessionRestartRequested : Bool := false
  restoredAt : Option Int := none
  trashedAt : Option Int := none
  purgeAt : Option Int := none
  retryAfter : Option Int := none
  updatedAt : Int := 0
  lastActivityAt : Option Int := none
deriving DecidableEq, Repr

namespace Chat

/-- `is_active`. -/
def isActive (chat : Chat) : Bool := chat.lifecycle = .active

/-- `in_trash`. -/
def inTrash (chat : Chat) : Bool := chat.lifecycle = .trash || chat.lifecycle = .purging

/-- `require_active`. -/
def requireActive (chat : Chat) : Except Error Unit :=
  if chat.isActive then .ok ()
  else .error (Error.conflict "Restore this conversation before continuing.")

/-- `touch`. -/
def touch (chat : Chat) (now : Int) : Chat :=
  { chat with updatedAt := now, lastActivityAt := some now }

end Chat

/-- A `chat.user` event. -/
structure UserEvent where
  runId : String
  text : String
  messageId : String
  attachments : List Attachment
  createdAt : Int
deriving DecidableEq, Repr

/-- The tables the transactions of one chat read and write; `usedElsewhere` holds the ids
of the messages of other chats. -/
structure Db where
  chat : Option Chat
  messages : List Message := []
  questions : List Question := []
  attachments : List Attachment := []
  events : List UserEvent := []
  runs : List Run := []
  checkpoints : String → Option RunCheckpoint := fun _ => none
  agents : List Agent := []
  projects : List String := []
  usedElsewhere : List String := []

namespace Db

/-- `find_message`. -/
def message? (db : Db) (id : String) : Option Message := find Message.id id db.messages

/-- `find_question`. -/
def question? (db : Db) (id : String) : Option Question := find Question.id id db.questions

/-- `Db::run`. -/
def run? (db : Db) (id : String) : Option Run := find Run.id id db.runs

/-- The run of the chat. -/
def chatRun? (db : Db) (chat : Chat) : Option Run := chat.runId.bind db.run?

/-- `Db::active`. -/
def active (db : Db) : List Run := db.runs.filter fun run => run.status.isActive

/-- `put_message`: an update keeps the row where it is. -/
def putMessage (db : Db) (message : Message) : Db :=
  { db with
    messages :=
      if (db.message? message.id).isSome then
        db.messages.map fun row =>
          if row.id = message.id then { message with insertedAt := row.insertedAt } else row
      else
        db.messages.takeWhile (fun row => row.insertedAt ≤ message.createdAt) ++
          { message with insertedAt := message.createdAt } ::
            db.messages.dropWhile (fun row => row.insertedAt ≤ message.createdAt) }

/-- `save_question`. -/
def saveQuestion (db : Db) (question : Question) : Db :=
  { db with
    questions :=
      if (db.question? question.id).isSome then
        db.questions.map fun row => if row.id = question.id then question else row
      else db.questions ++ [question] }

/-- `put` of the chat. -/
def putChat (db : Db) (chat : Chat) : Db := { db with chat := some chat }

/-- `patch_run` with the row it stores: a second run of a task does not become active. -/
def putRun (db : Db) (run : Run) : Except Error Db :=
  if run.status.isActive && !(db.run? run.id).any (fun stored => stored.status.isActive) &&
      db.runs.any fun other =>
        other.id ≠ run.id && other.taskId = run.taskId && other.status.isActive then
    .error Error.constraint
  else .ok { db with runs := put Run.id run db.runs }

/-- `set` of a run's checkpoint. -/
def setCheckpoint (db : Db) (run : String) (checkpoint : RunCheckpoint) : Db :=
  { db with
    checkpoints := fun id => if id = run then some checkpoint else db.checkpoints id }

/-- `chat`. -/
def getChat (db : Db) : Except Error Chat :=
  match db.chat with
  | some chat => .ok chat
  | none => .error (Error.notFound "Chat not found")

/-- `chat_for_run`. -/
def chatForRun (db : Db) (run : String) : Option Chat :=
  db.chat.filter fun chat => chat.runId = some run

end Db

/-! ### Sending -/

/-- A message as `parse` accepts it, with its text trimmed. -/
structure Values where
  id : String
  text : String := ""
  attachmentIds : List String := []
  mode : MessageMode := .queue
  provider : String := ""
  model : String := ""
  reasoning : String := ""
deriving DecidableEq, Repr

/-- `MAX_MESSAGE`. -/
def maxMessage : Nat := 40 * 1024 * 1024

/-- The loop of `attachments::message`. -/
def resolveAttachments (stored : List Attachment) :
    List String → List String → Nat → List Attachment → Except Error (Nat × List Attachment)
  | [], _, total, attachments => .ok (total, attachments)
  | id :: ids, seen, total, attachments =>
      if seen.contains id then .error (Error.bad "Duplicate attachment.")
      else
        match find Attachment.id id stored with
        | none => .error (Error.notFound "Attachment not found in this chat")
        | some attachment =>
            resolveAttachments stored ids (id :: seen)
              (total + attachment.size.getD (maxMessage + 1)) (attachments ++ [attachment])

/-- `attachments::message`. -/
def attachmentsMessage (stored : List Attachment) (values : Values) : Except Error Content :=
  if 8 < values.attachmentIds.length then
    .error (Error.bad "Attach up to 8 files per message.")
  else
    match resolveAttachments stored values.attachmentIds [] 0 [] with
    | .error error => .error error
    | .ok (total, attachments) =>
        if maxMessage < total then
          .error (Error.bad "Attachments must total at most 40 MB per message.")
        else if values.text = "" && attachments.isEmpty then
          .error (Error.bad "Write a message or attach a file.")
        else .ok ⟨values.text, values.provider, values.model, values.reasoning, attachments⟩

/-- `Provider::as_str`. -/
def providerName : Provider → String
  | .codex => "codex"
  | .claude => "claude"

/-- `changes_running_agent`. -/
def changesRunningAgent (content : Content) (run : Run) : Bool :=
  let differs (chosen current : String) : Bool := chosen ≠ "" && chosen ≠ current
  differs content.provider (providerName run.agent.provider) ||
    differs content.model run.agent.model || differs content.reasoning run.agent.reasoning

/-- `validate_steer`. -/
def validateSteer (db : Db) (chat : Chat) (mode : MessageMode) (content : Content) :
    Except Error Unit :=
  match mode, db.chatRun? chat with
  | .steer, some run =>
      if run.status.isActive && changesRunningAgent content run then
        .error (Error.conflict
          "Queue this message to change provider, model or reasoning on the next turn.")
      else .ok ()
  | _, _ => .ok ()

/-- `task_projects`, without the projects it returns. -/
def taskProjects (agent : Agent) (projectId : Option String) (projects : List String) :
    Except Error Unit :=
  match projectId with
  | some project =>
      if projects.contains project && allowed agent.policy.projects project then .ok ()
      else .error (Error.bad "This project is unavailable to the selected agent.")
  | none => .ok ()

/-- `MAX_UNDELIVERED`. -/
def maxUndelivered : Nat := 20

/-- `message_id_used`. -/
def Db.messageIdUsed (db : Db) (id : String) : Bool :=
  (db.message? id).isSome || db.usedElsewhere.contains id

/-- `require_sendable`. -/
def requireSendable (db : Db) (chat : Chat) (id : String) : Except Error Unit :=
  if maxUndelivered ≤ db.messages.countP fun message => message.status ≠ .delivered then
    .error (Error.conflict "The queue is full. Wait for a reply or remove a queued message.")
  else if db.messageIdUsed id then
    .error (Error.conflict "This message identifier has already been used.")
  else
    match find Agent.id chat.agentId db.agents with
    | none => .error (Error.notFound "This agent is no longer available.")
    | some agent => do
        requireNode agent
        taskProjects agent chat.projectId db.projects
        if (db.chatRun? chat).any fun run => run.workspaceCleanedAt.isSome then
          .error (Error.conflict "This workspace has been cleaned up. Start a new chat.")
        else .ok ()

/-- The message `send` stores. -/
def newMessage (values : Values) (content : Content) (now : Int)
    (answer : Option (Question × Answers)) : Message where
  id := values.id
  content := content
  mode := values.mode
  questionId := answer.map fun answer => answer.1.id
  answers := answer.map Prod.snd
  createdAt := now
  insertedAt := now

/-- `send`. -/
def send (db : Db) (now : Int) (values : Values) (answer : Option (Question × Answers)) :
    Except Error (Db × Message) := do
  let chat ← db.getChat
  chat.requireActive
  let content ← attachmentsMessage db.attachments values
  match db.message? values.id with
  | some existing =>
      let sameAnswer := answer.all fun answer => existing.questionId = some answer.1.id
      if existing.content ≠ content || !sameAnswer then
        .error (Error.conflict "This message identifier has already been used.")
      else .ok (db, existing)
  | none => do
      requireSendable db chat values.id
      validateSteer db chat values.mode content
      let message := newMessage values content now answer
      let touched := db.putChat (chat.touch now)
      let answered :=
        match answer with
        | some (question, _) =>
            touched.saveQuestion
              { question with status := .answering, messageId := some values.id }
        | none => touched
      .ok (answered.putMessage message, message)

/-- `answer_text`. -/
def answerText (fields : List QuestionField) (answers : Answers) : String :=
  let parts := fields.map fun field =>
    field.title ++ "\n" ++ String.intercalate "\n" ((answers.lookup field.id).getD [])
  "My answers to your questions:\n\n" ++ String.intercalate "\n\n" parts

/-- `answer`. -/
def answer (db : Db) (now : Int) (id message : String) (answers : Answers) :
    Except Error (Db × Question) := do
  let _ ← db.getChat
  match db.question? id with
  | none => .error (Error.notFound "Question not found")
  | some question =>
      let alreadySent := question.messageId = some message &&
        (db.message? message).any fun previous => previous.answers = some answers
      if alreadySent then .ok (db, question)
      else if question.status ≠ .pending then
        .error (Error.conflict "This question has already been answered.")
      else if !(answers.length = question.fields.length &&
          question.fields.all fun field => (answers.lookup field.id).isSome) then
        .error (Error.bad "Answer each question before sending.")
      else do
        let sent ← send db now
          { id := message, mode := .steer, text := answerText question.fields answers }
          (some (question, answers))
        match sent.1.question? id with
        | none => .error (Error.notFound "Question not found")
        | some question => .ok (sent.1, question)

/-- `receive`, without the notification. -/
def receive (db : Db) (run : String) (question : Question) : Db :=
  if (db.chatForRun run).any Chat.isActive then
    match db.question? question.id with
    | some existing =>
        db.saveQuestion { existing with
          blocking := existing.status = .pending && question.blocking }
    | none => db.saveQuestion question
  else db

/-! ### Changing a queued message -/

/-- `withdraw`. -/
def withdraw (db : Db) (message : Message) : Db :=
  let reopened :=
    match message.questionId.bind db.question? with
    | some question => db.saveQuestion { question with status := .pending, messageId := none }
    | none => db
  { reopened with messages := reopened.messages.filter fun row => row.id ≠ message.id }

/-- `edit`, a withdrawal without values. -/
def edit (db : Db) (id : String) (values : Option Values) : Except Error Db := do
  let chat ← db.getChat
  chat.requireActive
  match db.message? id with
  | none => .error (Error.notFound "Message not found")
  | some current =>
      if current.status ≠ .queued then
        .error (Error.conflict "This message is already being sent.")
      else
        match values with
        | none => .ok (withdraw db current)
        | some values =>
            if current.questionId.isSome then
              .error (Error.conflict "A submitted answer cannot be edited.")
            else do
              let content ← attachmentsMessage db.attachments values
              validateSteer db chat values.mode content
              .ok (db.putMessage { current with content, mode := values.mode })

/-! ### Delivery -/

/-- `PRIVATE_ANSWER_TEXT`. -/
def privateAnswerText : String := "Answered a private question."

/-- The event of a delivered message; a private answer keeps its text to itself. -/
def userEvent (run : String) (message : Message) (question : Option Question) : UserEvent where
  runId := run
  text := if question.any Question.isPrivate then privateAnswerText else message.content.text
  messageId := message.id
  attachments := message.content.attachments
  createdAt := message.createdAt

/-- `acknowledge`. -/
def acknowledge (db : Db) (now : Int) (run id : String) : Db :=
  match db.chatForRun run with
  | none => db
  | some chat =>
      match db.message? id with
      | none => db
      | some message =>
          if message.status = .delivered || message.status = .cancelled || !chat.isActive then db
          else
            let delivered := db.putMessage { message with status := .delivered }
            let question := message.questionId.bind db.question?
            let answered :=
              match question with
              | some question =>
                  delivered.saveQuestion { question with blocking := false, status := .answered }
              | none => delivered
            { answered.putChat (chat.touch now) with
              events := answered.events ++ [userEvent run message question] }

/-- The messages `claim_steering` marks. -/
def Message.isSteering (paused : Bool) (delivering : Option String) (message : Message) : Bool :=
  (!paused || message.questionId.isSome) && message.isPending && message.mode = .steer &&
    some message.id ≠ delivering

/-- `claim_steering`, with the messages it hands to the running turn. -/
def claimSteering (db : Db) (paused : Bool) (delivering : Option String) : Db × List Message :=
  if db.chat.any fun chat => !chat.isActive then (db, [])
  else
    ({ db with
        messages := db.messages.map fun message =>
          if message.isSteering paused delivering then { message with status := .sending }
          else message },
      (db.messages.filter fun message => message.isSteering paused delivering).map fun message =>
        { message with status := .sending })

/-- `next_queued`. -/
def nextQueued (db : Db) : Db × Option Message :=
  let messages := db.messages.map fun message =>
    if message.status = .sending then { message with status := .queued } else message
  ({ db with messages }, messages.find? fun message => message.status = .queued)

end Cairn.Chats

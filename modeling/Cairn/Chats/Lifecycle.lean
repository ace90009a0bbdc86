import Mathlib.Data.List.Induction
import Cairn.Chats.Conversation

/-!
Owns what every step does to the messages of a chat: how a message moves, when it is
delivered, when it disappears and which message a turn starts with.

Does not own the run of the chat.
-/

set_option autoImplicit false

namespace Cairn.Chats

open Cairn.Library.Records
open Cairn.Library.Results
open Cairn.Library.Steps
open Cairn.Worker

/-! ### How a message moves -/

/-- How the status of a message may change. -/
def MessageStatus.moves : MessageStatus → MessageStatus → Bool
  | .queued, .sending | .sending, .queued => true
  | .queued, .delivered | .sending, .delivered => true
  | .queued, .cancelled | .sending, .cancelled => true
  | before, after => before = after

theorem MessageStatus.moves_refl (status : MessageStatus) : status.moves status = true := by
  cases status <;> rfl

/-- The number of `chat.user` events of a message. -/
def Db.deliveries (db : Db) (id : String) : Nat :=
  db.events.countP fun event => event.messageId = id

/-- What a step does to the messages and the `chat.user` events. -/
inductive MessageChange (step : Step) (db next : Db) : Prop where
  | kept (messages : next.messages = db.messages) (events : next.events = db.events)
  | rewritten (update : Message → Message) (messages : next.messages = db.messages.map update)
      (events : next.events = db.events) (ids : ∀ message, (update message).id = message.id)
      (moves : ∀ message ∈ db.messages, message.status.moves (update message).status = true)
      (undelivered : ∀ message ∈ db.messages,
        ((update message).status = .delivered ↔ message.status = .delivered))
      (kept : (∃ now confirmed, step = .trash now confirmed) ∨ ∀ message ∈ db.messages,
        (update message).status = .cancelled → message.status = .cancelled)
  | sent (message : Message) (present : db.chat ≠ none)
      (fresh : db.message? message.id = none) (queued : message.status = .queued)
      (messages : next.messages.Perm (message :: db.messages)) (events : next.events = db.events)
  | delivered (message : Message) (event : UserEvent) (found : db.message? message.id = some message)
      (pending : message.isPending = true)
      (messages : next.messages = db.messages.map fun row =>
        if row.id = message.id then { row with status := .delivered } else row)
      (events : next.events = db.events ++ [event]) (named : event.messageId = message.id)
  | withdrawn (message : Message) (isStep : step = .edit message.id none)
      (found : db.message? message.id = some message) (queued : message.status = .queued)
      (messages : next.messages = db.messages.filter fun row => row.id ≠ message.id)
      (events : next.events = db.events)
  | purged (isStep : step = .forget) (messages : next.messages = []) (gone : next.chat = none)

/-! ### The transactions -/

variable {db next : Db}

theorem getChat_eq_ok {chat : Chat} : db.getChat = .ok chat ↔ db.chat = some chat := by
  unfold Db.getChat
  cases db.chat <;> simp

@[simp] theorem putChat_messages (chat : Chat) : (db.putChat chat).messages = db.messages := rfl

@[simp] theorem putChat_events (chat : Chat) : (db.putChat chat).events = db.events := rfl

@[simp] theorem saveQuestion_messages (question : Question) :
    (db.saveQuestion question).messages = db.messages := rfl

@[simp] theorem saveQuestion_events (question : Question) :
    (db.saveQuestion question).events = db.events := rfl

@[simp] theorem saveQuestion_chat (question : Question) :
    (db.saveQuestion question).chat = db.chat := rfl

@[simp] theorem putMessage_events (message : Message) :
    (db.putMessage message).events = db.events := rfl

@[simp] theorem putMessage_chat (message : Message) : (db.putMessage message).chat = db.chat := rfl

theorem putRun_of_ok {run : Run} (stored : db.putRun run = .ok next) :
    next = { db with runs := put Run.id run db.runs } := by
  unfold Db.putRun at stored
  split at stored
  · simp at stored
  · exact (Except.ok.inj stored).symm

/-- Storing a known message rewrites its row. -/
theorem putMessage_of_found {message stored : Message}
    (found : db.message? message.id = some stored) :
    (db.putMessage message).messages = db.messages.map fun row =>
      if row.id = message.id then { message with insertedAt := row.insertedAt } else row := by
  simp [Db.putMessage, found]

/-- Storing a new message adds a row. -/
theorem putMessage_of_absent {message : Message} (absent : db.message? message.id = none) :
    (db.putMessage message).messages.Perm
      ({ message with insertedAt := message.createdAt } :: db.messages) := by
  simp only [Db.putMessage, absent, Option.isSome_none, Bool.false_eq_true, if_false]
  refine List.perm_middle.trans ?_
  rw [List.takeWhile_append_dropWhile]

/-- A submission finds the message it already made or adds one. -/
theorem send_of_ok {now : Int} {values : Values} {answer : Option (Question × Answers)}
    {sent : Message} (ok : send db now values answer = .ok (next, sent)) :
    (next = db ∧ db.message? values.id = some sent) ∨
      ∃ (middle : Db) (content : Content), db.chat ≠ none ∧ middle.chat ≠ none ∧
        db.message? values.id = none ∧ middle.messages = db.messages ∧
        middle.events = db.events ∧ next = middle.putMessage (newMessage values content now answer) := by
  unfold send at ok
  obtain ⟨chat, isChat, ok⟩ := bind_eq_ok.mp ok
  obtain ⟨_, _, ok⟩ := bind_eq_ok.mp ok
  obtain ⟨content, _, ok⟩ := bind_eq_ok.mp ok
  cases found : db.message? values.id with
  | some existing =>
      rw [found] at ok
      dsimp only at ok
      split at ok
      · simp at ok
      · obtain ⟨rfl, rfl⟩ := Prod.mk.inj (Except.ok.inj ok)
        exact .inl ⟨rfl, rfl⟩
  | none =>
      rw [found] at ok
      dsimp only at ok
      obtain ⟨_, _, ok⟩ := bind_eq_ok.mp ok
      obtain ⟨_, _, ok⟩ := bind_eq_ok.mp ok
      obtain ⟨rfl, _⟩ := Prod.mk.inj (Except.ok.inj ok)
      have present : db.chat ≠ none := by
        rw [getChat_eq_ok.mp isChat]
        simp
      refine .inr ⟨_, content, present, ?_, rfl, ?_, ?_, rfl⟩
      · cases answer <;> simp [Db.putChat]
      · cases answer <;> rfl
      · cases answer <;> rfl

theorem send_change {step : Step} {now : Int} {values : Values}
    {answer : Option (Question × Answers)} {sent : Message}
    (ok : send db now values answer = .ok (next, sent)) : MessageChange step db next := by
  rcases send_of_ok ok with ⟨rfl, _⟩ | ⟨middle, content, present, _, fresh, messages, events, rfl⟩
  · exact .kept rfl rfl
  · have absent : middle.message? (newMessage values content now answer).id = none := by
      rw [Db.message?, messages]
      exact fresh
    refine .sent { newMessage values content now answer with
      insertedAt := (newMessage values content now answer).createdAt } present fresh rfl ?_ events
    rw [← messages]
    exact putMessage_of_absent absent

theorem answer_change {step : Step} {now : Int} {question message : String} {answers : Answers}
    {stored : Question} (ok : answer db now question message answers = .ok (next, stored)) :
    MessageChange step db next := by
  unfold answer at ok
  obtain ⟨_, _, ok⟩ := bind_eq_ok.mp ok
  split at ok
  · simp at ok
  · dsimp only at ok
    split at ok
    · obtain ⟨rfl, _⟩ := Prod.mk.inj (Except.ok.inj ok)
      exact .kept rfl rfl
    · split at ok
      · simp at ok
      · split at ok
        · simp at ok
        · obtain ⟨⟨sent, message⟩, isSent, ok⟩ := bind_eq_ok.mp ok
          dsimp only at ok
          split at ok
          · simp at ok
          · obtain ⟨rfl, _⟩ := Prod.mk.inj (Except.ok.inj ok)
            exact send_change isSent

/-- The row of an id is the one that is found. -/
theorem eq_of_found {row stored : Message} (keyed : Keyed Message.id db.messages)
    (member : row ∈ db.messages) (found : db.message? row.id = some stored) : row = stored :=
  Option.some.inj ((find_of_mem keyed member).symm.trans found)

/-- A transaction on the other tables keeps the messages. -/
structure KeepsMessages (db next : Db) : Prop where
  messages : next.messages = db.messages
  events : next.events = db.events
  present : db.chat = none → next.chat = none

theorem KeepsMessages.refl (db : Db) : KeepsMessages db db := ⟨rfl, rfl, id⟩

/-- Storing a message again moves it, unless it was or becomes delivered. -/
theorem put_change {step : Step} {message stored : Message} (keeps : KeepsMessages db next)
    (keyed : Keyed Message.id db.messages) (found : db.message? message.id = some stored)
    (moves : stored.status.moves message.status = true) (open_ : stored.status ≠ .delivered)
    (undelivered : message.status ≠ .delivered) (kept : message.status ≠ .cancelled) :
    MessageChange step db (next.putMessage message) := by
  have rows := @putMessage_of_found next message _ (by rw [Db.message?, keeps.messages]; exact found)
  rw [keeps.messages] at rows
  refine .rewritten _ rows keeps.events (fun row => ?_) (fun row member => ?_)
    (fun row member => ?_) (.inr fun row member => ?_)
  · split
    · rename_i same
      exact same.symm
    · rfl
  · split
    · rename_i same
      obtain rfl := eq_of_found keyed member (same ▸ found)
      exact moves
    · exact row.status.moves_refl
  · split
    · rename_i same
      obtain rfl := eq_of_found keyed member (same ▸ found)
      exact ⟨fun delivered => absurd delivered undelivered,
        fun delivered => absurd delivered open_⟩
    · rfl
  · split
    · exact fun cancelled => absurd cancelled kept
    · exact id

theorem withdraw_messages (message : Message) :
    (withdraw db message).messages = db.messages.filter fun row => row.id ≠ message.id := by
  unfold withdraw
  split <;> rfl

theorem withdraw_events (message : Message) : (withdraw db message).events = db.events := by
  unfold withdraw
  split <;> rfl

theorem edit_change {message : String} {values : Option Values}
    (keyed : Keyed Message.id db.messages) (ok : edit db message values = .ok next) :
    MessageChange (.edit message values) db next := by
  unfold edit at ok
  obtain ⟨chat, _, restored⟩ := bind_eq_ok.mp ok
  obtain ⟨_, _, edited⟩ := bind_eq_ok.mp restored
  clear ok restored
  cases found : db.message? message with
  | none => simp [found] at edited
  | some current =>
      obtain rfl : current.id = message := (mem_of_find found).2
      rw [found] at edited
      dsimp only at edited
      split at edited
      · simp at edited
      · rename_i queued
        have queued : current.status = .queued := not_not.mp queued
        cases values with
        | none =>
            obtain rfl := Except.ok.inj edited
            exact .withdrawn current rfl found queued (withdraw_messages current)
              (withdraw_events current)
        | some values =>
            dsimp only at edited
            split at edited
            · simp at edited
            · obtain ⟨content, _, validated⟩ := bind_eq_ok.mp edited
              obtain ⟨_, _, stored⟩ := bind_eq_ok.mp validated
              obtain rfl := Except.ok.inj stored
              refine @put_change db db _ _ current (.refl db) keyed found ?_ ?_ ?_ ?_
              · exact current.status.moves_refl
              · simp [queued]
              · simp [queued]
              · simp [queued]

theorem acknowledge_change {step : Step} {now : Int} {run message : String}
    (keyed : Keyed Message.id db.messages) :
    MessageChange step db (acknowledge db now run message) := by
  unfold acknowledge
  split
  · exact .kept rfl rfl
  · split
    · exact .kept rfl rfl
    · rename_i chat _ current found
      obtain rfl : current.id = message := (mem_of_find found).2
      split
      · exact .kept rfl rfl
      · rename_i unsettled
        have pending : current.isPending = true := by
          cases status : current.status <;> simp [status] at unsettled <;>
            simp [Message.isPending, status]
        have rows : (db.putMessage { current with status := .delivered }).messages =
            db.messages.map fun row =>
              if row.id = current.id then { row with status := .delivered } else row := by
          rw [@putMessage_of_found db { current with status := .delivered } current found]
          refine List.map_congr_left fun row member => ?_
          split
          · rename_i same
            obtain rfl := eq_of_found keyed member (same ▸ found)
            rfl
          · rfl
        refine .delivered current (userEvent run current (current.questionId.bind db.question?)) found
          pending ?_ ?_ rfl
        · cases current.questionId.bind db.question? <;> exact rows
        · cases current.questionId.bind db.question? <;> rfl

theorem isPending_iff {message : Message} :
    message.isPending = true ↔ message.status = .queued ∨ message.status = .sending := by
  simp [Message.isPending]

theorem claimSteering_change {step : Step} (paused : Bool) (delivering : Option String) :
    MessageChange step db (claimSteering db paused delivering).1 := by
  unfold claimSteering
  split
  · exact .kept rfl rfl
  · refine .rewritten _ rfl rfl (fun row => ?_) (fun row _ => ?_) (fun row _ => ?_)
      (.inr fun row _ => ?_)
    · split <;> rfl
    · split
      · rename_i steering
        simp only [Message.isSteering, Bool.and_eq_true] at steering
        rcases isPending_iff.mp steering.1.1.2 with status | status <;> rw [status] <;> rfl
      · exact row.status.moves_refl
    · split
      · rename_i steering
        simp only [Message.isSteering, Bool.and_eq_true] at steering
        rcases isPending_iff.mp steering.1.1.2 with status | status <;> simp [status]
      · rfl
    · split
      · simp
      · exact id

theorem nextQueued_change {step : Step} : MessageChange step db (nextQueued db).1 := by
  refine .rewritten _ rfl rfl (fun row => ?_) (fun row _ => ?_) (fun row _ => ?_)
    (.inr fun row _ => ?_)
  · split <;> rfl
  · split
    · rename_i sending
      rw [sending]
      rfl
    · exact row.status.moves_refl
  · split
    · rename_i sending
      simp [sending]
    · rfl
  · split
    · simp
    · exact id

theorem cancelPendingInput_change {now : Int} {confirmed : Bool} :
    MessageChange (.trash now confirmed) db (cancelPendingInput db) := by
  refine .rewritten _ rfl rfl (fun row => ?_) (fun row _ => ?_) (fun row _ => ?_)
    (.inl ⟨now, confirmed, rfl⟩)
  · split <;> rfl
  · split
    · rename_i pending
      rcases isPending_iff.mp pending with status | status <;> rw [status] <;> rfl
    · exact row.status.moves_refl
  · split
    · rename_i pending
      rcases isPending_iff.mp pending with status | status <;> simp [status]
    · rfl

theorem MessageChange.trans_kept {step : Step} {last : Db} (change : MessageChange step db next)
    (keeps : KeepsMessages next last) : MessageChange step db last := by
  obtain ⟨messages, events, present⟩ := keeps
  cases change with
  | kept sameMessages sameEvents =>
      exact .kept (messages.trans sameMessages) (events.trans sameEvents)
  | rewritten update sameMessages sameEvents ids moves undelivered kept =>
      exact .rewritten update (messages.trans sameMessages) (events.trans sameEvents) ids moves
        undelivered kept
  | sent message present fresh queued sameMessages sameEvents =>
      exact .sent message present fresh queued (messages ▸ sameMessages) (events.trans sameEvents)
  | delivered message event found pending sameMessages sameEvents named =>
      exact .delivered message event found pending (messages.trans sameMessages)
        (events.trans sameEvents) named
  | withdrawn message isStep found queued sameMessages sameEvents =>
      exact .withdrawn message isStep found queued (messages.trans sameMessages)
        (events.trans sameEvents)
  | purged isStep sameMessages gone =>
      exact .purged isStep (messages.trans sameMessages) (present gone)

namespace KeepsMessages

theorem trans {middle : Db} (first : KeepsMessages db middle) (second : KeepsMessages middle next) :
    KeepsMessages db next :=
  ⟨second.messages.trans first.messages, second.events.trans first.events,
    fun none => second.present (first.present none)⟩

theorem change {step : Step} (keeps : KeepsMessages db next) : MessageChange step db next :=
  .kept keeps.messages keeps.events

theorem putRun {run : Run} (stored : db.putRun run = .ok next) : KeepsMessages db next := by
  rw [putRun_of_ok stored]
  exact ⟨rfl, rfl, id⟩

theorem continueRun {chat : Chat} {run snapshot : Run} {execution : ChatExecution}
    {context : String} (ok : continueRun db chat run snapshot execution context = .ok next) :
    KeepsMessages db next := by
  unfold Chats.continueRun at ok
  split at ok
  · simp at ok
  · dsimp only at ok
    split at ok
    · simp at ok
    · simp at ok
    · have stored := putRun ok
      exact ⟨stored.messages, stored.events, stored.present⟩

theorem addRun {run : Run} (ok : addRun db run = .ok next) : KeepsMessages db next := by
  unfold Chats.addRun at ok
  split at ok
  · simp at ok
  · exact putRun ok

theorem chatPause {now : Int} {paused : Bool} (ok : chatPause db now paused = .ok next) :
    KeepsMessages db next := by
  unfold Chats.chatPause at ok
  obtain ⟨chat, isChat, restored⟩ := bind_eq_ok.mp ok
  obtain ⟨_, _, stored⟩ := bind_eq_ok.mp restored
  obtain rfl := Except.ok.inj stored
  refine ⟨rfl, rfl, fun none => ?_⟩
  rw [getChat_eq_ok.mp isChat] at none
  simp at none

theorem restore {now : Int} (ok : restore db now = .ok next) : KeepsMessages db next := by
  unfold Chats.restore at ok
  obtain ⟨chat, isChat, restored⟩ := bind_eq_ok.mp ok
  split at restored
  · simp at restored
  · split at restored
    · simp at restored
    · split at restored
      · simp at restored
      · obtain rfl := Except.ok.inj restored
        refine ⟨rfl, rfl, fun none => ?_⟩
        rw [getChat_eq_ok.mp isChat] at none
        simp at none

theorem markPurging {claimed : Bool} (ok : markPurging db = .ok (next, claimed)) :
    KeepsMessages db next := by
  unfold Chats.markPurging at ok
  obtain ⟨chat, isChat, marked⟩ := bind_eq_ok.mp ok
  split at marked
  · obtain ⟨rfl, _⟩ := Prod.mk.inj (Except.ok.inj marked)
    exact refl _
  · obtain ⟨rfl, _⟩ := Prod.mk.inj (Except.ok.inj marked)
    refine ⟨rfl, rfl, fun none => ?_⟩
    rw [getChat_eq_ok.mp isChat] at none
    simp at none

theorem requestNewSession (ok : requestNewSession db = .ok next) : KeepsMessages db next := by
  unfold Chats.requestNewSession at ok
  obtain ⟨chat, isChat, requested⟩ := bind_eq_ok.mp ok
  obtain ⟨_, _, granted⟩ := bind_eq_ok.mp requested
  clear ok requested
  split at granted
  · simp at granted
  · split at granted
    · simp at granted
    · split at granted
      · simp at granted
      · obtain ⟨stopped, isStopped, stored⟩ := bind_eq_ok.mp granted
        obtain rfl := Except.ok.inj stored
        have kept := putRun isStopped
        refine ⟨kept.messages, kept.events, fun none => ?_⟩
        rw [getChat_eq_ok.mp isChat] at none
        simp at none

theorem cancel {id : String} {isActive : Bool} {now : Int}
    (ok : cancel db id isActive now = .ok next) : KeepsMessages db next := by
  unfold Worker.cancel at ok
  split at ok
  · simp at ok
  · obtain ⟨_, _, stored⟩ := bind_eq_ok.mp ok
    exact putRun stored

theorem requeue {id : String} (ok : requeue db id = .ok next) : KeepsMessages db next := by
  unfold Worker.requeue at ok
  split at ok
  · simp at ok
  · dsimp only at ok
    split at ok
    · simp at ok
    · split at ok
      · simp at ok
      · split at ok
        · simp at ok
        · split at ok
          · simp at ok
          · refine trans ?_ (putRun ok)
            split
            · exact ⟨rfl, rfl, fun none => none⟩
            · exact refl _

theorem resume {id : String} {isActive : Bool} (ok : resume db id isActive = .ok next) :
    KeepsMessages db next := by
  unfold Worker.resume at ok
  split at ok
  · simp at ok
  · exact requeue ok

theorem resumeUnpaused {chat : Chat} {executing : Option String}
    (ok : resumeUnpaused db chat executing = .ok next) : KeepsMessages db next := by
  unfold Worker.resumeUnpaused at ok
  split at ok
  · exact Except.ok.inj ok ▸ refl _
  · split at ok
    · simp at ok
    · split at ok
      · exact resume ok
      · exact Except.ok.inj ok ▸ refl _

theorem pauseChat {executing : Option String} {now : Int} {paused : Bool}
    (ok : pauseChat db executing now paused = .ok next) : KeepsMessages db next := by
  unfold Worker.pauseChat at ok
  obtain ⟨chat, _, restored⟩ := bind_eq_ok.mp ok
  obtain ⟨_, _, resumed⟩ := bind_eq_ok.mp restored
  clear ok restored
  split at resumed
  · exact chatPause resumed
  · obtain ⟨middle, isResumed, stored⟩ := bind_eq_ok.mp resumed
    exact (resumeUnpaused isResumed).trans (chatPause stored)

theorem queueTurn {chat : Chat} {run : Option Run} {snapshot : Run} {execution : ChatExecution}
    {context : String} (ok : queueTurn db chat run snapshot execution context = .ok next) :
    KeepsMessages db next := by
  unfold Chats.queueTurn at ok
  split at ok
  · exact continueRun ok
  · exact addRun ok

end KeepsMessages

/-- A turn starts with a message that is queued with the content it was selected with. -/
theorem launchTurn_of_ok {run : Option Run} {message : Message} {snapshot : Snapshot}
    {context : String} {launched : Bool}
    (ok : launchTurn db run message snapshot context = .ok (next, launched)) :
    (next = db ∧ launched = false) ∨
      ∃ (chat : Chat) (stored : Message) (middle : Db), launched = true ∧ db.chat = some chat ∧
        chat.isActive = true ∧ db.message? message.id = some stored ∧
        stored.status = .queued ∧ stored.content = message.content ∧
        queueTurn db chat run snapshot.run (turnOf message snapshot.mentions) context = .ok middle ∧
        next = (middle.putChat { chat with
          runId := if run.isSome then chat.runId else some snapshot.run.id
          cancelledByDeletion := false
          sessionRestartRequested := false }).putMessage { message with status := .sending } := by
  unfold launchTurn at ok
  obtain ⟨chat, isChat, entered⟩ := bind_eq_ok.mp ok
  split at entered
  · obtain ⟨rfl, rfl⟩ := Prod.mk.inj (Except.ok.inj entered)
    exact .inl ⟨rfl, rfl⟩
  · rename_i allowed
    dsimp only at entered
    obtain ⟨middle, isMiddle, stored⟩ := bind_eq_ok.mp entered
    obtain ⟨rfl, rfl⟩ := Prod.mk.inj (Except.ok.inj stored)
    simp only [Bool.or_eq_true, Bool.not_eq_true', not_or, Bool.not_eq_false] at allowed
    obtain ⟨⟨active, _⟩, unchanged⟩ := allowed
    obtain ⟨current, found, same⟩ := (Option.any_eq_true _ _).mp unchanged
    simp only [sameContent, Bool.and_eq_true, decide_eq_true_eq] at same
    exact .inr ⟨chat, current, middle, rfl, getChat_eq_ok.mp isChat, active, found, same.1, same.2,
      isMiddle, rfl⟩

theorem launchTurn_change {step : Step} {run : Option Run} {message : Message}
    {snapshot : Snapshot} {context : String} {launched : Bool}
    (keyed : Keyed Message.id db.messages)
    (ok : launchTurn db run message snapshot context = .ok (next, launched)) :
    MessageChange step db next := by
  rcases launchTurn_of_ok ok with ⟨rfl, _⟩ |
    ⟨chat, stored, middle, _, isChat, _, found, queued, _, started, rfl⟩
  · exact .kept rfl rfl
  · have kept := KeepsMessages.queueTurn started
    have present : db.chat ≠ none := by simp [isChat]
    refine put_change ⟨kept.messages, kept.events, fun none => absurd none present⟩ keyed found
      ?_ ?_ ?_ ?_
    · rw [queued]
      rfl
    · simp [queued]
    · simp
    · simp

theorem requestStop_keeps (chat : Chat) (now : Int) : KeepsMessages db (requestStop db chat now) := by
  unfold requestStop
  split
  · split
    · exact ⟨rfl, rfl, id⟩
    · exact .refl db
  · exact .refl db

theorem trash_change {now : Int} {confirmed : Bool} (ok : trash db now confirmed = .ok next) :
    MessageChange (.trash now confirmed) db next := by
  unfold trash at ok
  obtain ⟨chat, isChat, entered⟩ := bind_eq_ok.mp ok
  split at entered
  · obtain rfl := Except.ok.inj entered
    exact .kept rfl rfl
  · dsimp only at entered
    split at entered
    · simp at entered
    · obtain rfl := Except.ok.inj entered
      have stopped := @requestStop_keeps (cancelPendingInput db) chat now
      have present : (cancelPendingInput db).chat ≠ none := by
        rw [cancelPendingInput, getChat_eq_ok.mp isChat]
        simp
      exact cancelPendingInput_change.trans_kept
        ⟨stopped.messages, stopped.events, fun none => absurd none present⟩

/-! ### The steps -/

/-- What a step does to the messages; a purged chat stays purged. -/
structure Changes (step : Step) (db next : Db) : Prop where
  change : MessageChange step db next
  present : db.chat = none → next.chat = none

theorem KeepsMessages.changes {step : Step} (keeps : KeepsMessages db next) : Changes step db next :=
  ⟨.kept keeps.messages keeps.events, keeps.present⟩

theorem chat_of_bind {Value : Type} {rest : Chat → Except Error Value} {value : Value}
    (ok : (db.getChat >>= rest) = .ok value) : db.chat ≠ none := by
  obtain ⟨chat, isChat, _⟩ := bind_eq_ok.mp ok
  simp [getChat_eq_ok.mp isChat]

theorem commit_changes {step : Step} {state : State} {result : Except Error Db}
    (changes : ∀ next, result = .ok next → Changes step state.db next) :
    Changes step state.db (state.commit result).db := by
  unfold State.commit
  split
  · exact changes _ rfl
  · exact (KeepsMessages.refl _).changes

theorem launch_changes {step : Step} {state : State} {tick : Tick} {message : Message} {now : Int}
    {snapshot : Snapshot} {context : String} {launched : Bool}
    (keyed : Keyed Message.id state.db.messages)
    (ok : state.launch tick message now snapshot context = .ok (next, launched)) :
    Changes step state.db next := by
  unfold State.launch at ok
  dsimp only at ok
  split at ok
  · rename_i started isStarted
    obtain rfl := Except.ok.inj ok
    exact ⟨launchTurn_change keyed isStarted, fun none => absurd none (chat_of_bind isStarted)⟩
  · obtain ⟨paused, isPaused, same⟩ := map_eq_ok.mp ok
    obtain ⟨rfl, _⟩ := Prod.mk.inj same
    exact (KeepsMessages.chatPause isPaused).changes

theorem step_changes {state after : State} {step : Step}
    (keyed : Keyed Message.id state.db.messages) (taken : state.step step = some after) :
    Changes step state.db after.db := by
  cases step with
  | send now values =>
      obtain rfl := Option.some.inj taken
      refine commit_changes fun next ok => ?_
      obtain ⟨⟨_, sent⟩, ran, rfl⟩ := map_eq_ok.mp ok
      exact ⟨send_change ran, fun none => absurd none (chat_of_bind ran)⟩
  | answer now question message answers =>
      obtain rfl := Option.some.inj taken
      refine commit_changes fun next ok => ?_
      obtain ⟨⟨_, stored⟩, ran, rfl⟩ := map_eq_ok.mp ok
      exact ⟨answer_change ran, fun none => absurd none (chat_of_bind ran)⟩
  | edit message values =>
      obtain rfl := Option.some.inj taken
      exact commit_changes fun next ok =>
        ⟨edit_change keyed ok, fun none => absurd none (chat_of_bind ok)⟩
  | acknowledge now run message =>
      obtain rfl := Option.some.inj taken
      refine ⟨acknowledge_change keyed, fun none => ?_⟩
      have unknown : state.db.chatForRun run = Option.none := by simp [Db.chatForRun, none]
      simp only [acknowledge, unknown]
      exact none
  | claimSteering paused delivering =>
      obtain rfl := Option.some.inj taken
      refine ⟨claimSteering_change paused delivering, fun none => ?_⟩
      unfold claimSteering
      split <;> exact none
  | tick =>
      obtain ⟨_, _, rfl⟩ := Option.map_eq_some_iff.mp taken
      exact (KeepsMessages.refl _).changes
  | nextQueued =>
      simp only [State.step] at taken
      split at taken
      · obtain rfl := Option.some.inj taken
        exact ⟨nextQueued_change, id⟩
      · simp at taken
  | launchTurn now snapshot context =>
      simp only [State.step] at taken
      split at taken
      · obtain rfl := Option.some.inj taken
        refine commit_changes fun next ok => ?_
        obtain ⟨⟨_, launched⟩, ran, rfl⟩ := map_eq_ok.mp ok
        exact launch_changes keyed ran
      · simp at taken
  | hold now =>
      obtain rfl := Option.some.inj taken
      exact commit_changes fun next ok => (KeepsMessages.chatPause ok).changes
  | pause now paused =>
      obtain rfl := Option.some.inj taken
      exact commit_changes fun next ok => (KeepsMessages.pauseChat ok).changes
  | trash now confirmed =>
      obtain rfl := Option.some.inj taken
      unfold State.trash
      split
      · exact (KeepsMessages.refl _).changes
      · rename_i db ok
        have present : state.db.chat ≠ none := chat_of_bind ok
        refine ⟨?_, fun none => absurd none present⟩
        dsimp only
        split
        · rename_i run _
          refine (trash_change ok).trans_kept ?_
          unfold State.commit
          split
          · exact KeepsMessages.cancel ‹_›
          · exact .refl _
        · exact trash_change ok
  | restore now =>
      obtain rfl := Option.some.inj taken
      exact commit_changes fun next ok => (KeepsMessages.restore ok).changes
  | purge now =>
      simp only [State.step] at taken
      split at taken
      · obtain rfl := Option.some.inj taken
        refine commit_changes fun next ok => ?_
        obtain ⟨⟨_, claimed⟩, ran, rfl⟩ := map_eq_ok.mp ok
        exact (KeepsMessages.markPurging ran).changes
      · simp at taken
  | forget =>
      simp only [State.step] at taken
      split at taken
      · split at taken
        · obtain rfl := Option.some.inj taken
          exact ⟨.purged rfl rfl rfl, fun _ => rfl⟩
        · simp at taken
      · simp at taken
  | newSession =>
      obtain rfl := Option.some.inj taken
      exact commit_changes fun next ok => (KeepsMessages.requestNewSession ok).changes
  | cancel now =>
      simp only [State.step] at taken
      split at taken
      · obtain rfl := Option.some.inj taken
        exact commit_changes fun next ok => (KeepsMessages.cancel ok).changes
      · simp at taken
  | resume =>
      simp only [State.step] at taken
      split at taken
      · obtain rfl := Option.some.inj taken
        exact commit_changes fun next ok => (KeepsMessages.resume ok).changes
      · simp at taken
  | schedule now admission =>
      simp only [State.step] at taken
      split at taken
      · split at taken
        · split at taken
          · obtain rfl := Option.some.inj taken
            exact (KeepsMessages.putRun ‹_›).changes
          · obtain rfl := Option.some.inj taken
            exact (KeepsMessages.refl _).changes
        · simp at taken
      · simp at taken
  | progress checkpoint session resumeAvailable =>
      simp only [State.step] at taken
      split at taken
      · obtain rfl := Option.some.inj taken
        refine commit_changes fun next ok => ?_
        have stored := KeepsMessages.putRun ok
        exact ⟨.kept stored.messages stored.events, stored.present⟩
      · simp at taken
  | finish now ending =>
      simp only [State.step] at taken
      split at taken
      · split at taken
        · obtain rfl := Option.some.inj taken
          refine commit_changes fun next ok => ?_
          have stored := KeepsMessages.putRun ok
          cases ending with
          | settled => exact ⟨.kept stored.messages stored.events, stored.present⟩
          | recovering => exact ⟨.kept stored.messages stored.events, stored.present⟩
        · simp at taken
      · simp at taken
  | restart now =>
      obtain rfl := Option.some.inj taken
      exact ⟨.kept rfl rfl, id⟩
  | ask run question =>
      obtain rfl := Option.some.inj taken
      refine KeepsMessages.changes ?_
      unfold receive
      split
      · split <;> exact ⟨rfl, rfl, id⟩
      · exact .refl _
  | otherRun run =>
      simp only [State.step] at taken
      split at taken
      · obtain rfl := Option.some.inj taken
        exact commit_changes fun next ok => (KeepsMessages.putRun ok).changes
      · simp at taken
  | configure agents projects attachments usedElsewhere =>
      obtain rfl := Option.some.inj taken
      exact ⟨.kept rfl rfl, id⟩

/-! ### What every run keeps -/

/-- Whether a message of an id is delivered. -/
def Db.isDelivered (db : Db) (id : String) : Bool :=
  db.messages.any fun message => message.id = id && message.status = .delivered

theorem isDelivered_iff {id : String} : db.isDelivered id = true ↔
    ∃ message ∈ db.messages, message.id = id ∧ message.status = .delivered := by
  simp [Db.isDelivered, List.any_eq_true]

/-- Messages have their own ids, and one event each once they are delivered, until the
chat is purged. -/
structure Db.Recorded (db : Db) : Prop where
  keyed : Keyed Message.id db.messages
  events : (∀ id, db.deliveries id = if db.isDelivered id then 1 else 0) ∨
    (db.chat = none ∧ db.messages = [])

theorem isDelivered_congr
    (same : ∀ id, (∃ message ∈ next.messages, message.id = id ∧ message.status = .delivered) ↔
      ∃ message ∈ db.messages, message.id = id ∧ message.status = .delivered) (id : String) :
    next.isDelivered id = db.isDelivered id := by
  rw [Bool.eq_iff_iff, isDelivered_iff, isDelivered_iff]
  exact same id

theorem keyed_map {update : Message → Message} (keyed : Keyed Message.id db.messages)
    (ids : ∀ message, (update message).id = message.id) :
    Keyed Message.id (db.messages.map update) := by
  unfold Keyed
  rw [List.map_map]
  exact (List.map_congr_left fun message _ => ids message : _ = db.messages.map Message.id) ▸ keyed

namespace MessageChange

variable {step : Step}

theorem keyed (change : MessageChange step db next) (keyed : Keyed Message.id db.messages) :
    Keyed Message.id next.messages := by
  cases change with
  | kept messages => exact messages ▸ keyed
  | rewritten update messages _ ids => exact messages ▸ keyed_map keyed ids
  | sent message _ fresh _ messages =>
      refine ((messages.map Message.id).nodup_iff).mpr (List.nodup_cons.mpr ⟨fun member => ?_, keyed⟩)
      obtain ⟨other, stored, same⟩ := List.mem_map.mp member
      exact find_none_iff.mp fresh other stored same
  | delivered message _ _ _ messages =>
      refine messages ▸ keyed_map keyed fun row => ?_
      split <;> rfl
  | withdrawn _ _ _ _ messages =>
      exact messages ▸ keyed.sublist (List.filter_sublist.map Message.id)
  | purged _ messages =>
      rw [messages]
      exact List.nodup_nil

/-- Every delivery adds the one event of its message. -/
theorem counted (change : MessageChange step db next) (keyed : Keyed Message.id db.messages)
    (counted : ∀ id, db.deliveries id = if db.isDelivered id then 1 else 0) :
    (∀ id, next.deliveries id = if next.isDelivered id then 1 else 0) ∨
      (next.chat = none ∧ next.messages = []) := by
  have congr : next.events = db.events → (∀ id, next.isDelivered id = db.isDelivered id) →
      ∀ id, next.deliveries id = if next.isDelivered id then 1 else 0 := by
    intro events same id
    rw [same, ← counted id, Db.deliveries, events, Db.deliveries]
  cases change with
  | kept messages events =>
      exact .inl (congr events fun id => by rw [Db.isDelivered, messages, Db.isDelivered])
  | rewritten update messages events ids _ undelivered =>
      refine .inl (congr events (isDelivered_congr fun id => ?_))
      simp only [messages, List.mem_map, exists_exists_and_eq_and]
      refine exists_congr fun message => and_congr_right fun member => ?_
      rw [ids, undelivered message member]
  | sent message _ _ queued messages events =>
      refine .inl (congr events (isDelivered_congr fun id => ?_))
      simp [messages.mem_iff, queued]
  | delivered message event found pending messages events named =>
      left
      intro id
      have open_ : db.isDelivered message.id = false := by
        rw [Bool.eq_false_iff]
        intro delivered
        obtain ⟨other, stored, same, status⟩ := isDelivered_iff.mp delivered
        obtain rfl := eq_of_found keyed stored (same ▸ found)
        rcases isPending_iff.mp pending with pending | pending <;> simp [status] at pending
      have before := counted id
      by_cases same : id = message.id
      · subst same
        have after : next.isDelivered message.id = true := isDelivered_iff.mpr
          ⟨{ message with status := .delivered }, by
            rw [messages]
            exact List.mem_map.mpr ⟨message, (mem_of_find found).1, if_pos rfl⟩, rfl, rfl⟩
        rw [after, if_pos rfl, Db.deliveries, events, List.countP_append]
        rw [open_] at before
        simpa [Db.deliveries, named] using before
      · have after : next.isDelivered id = db.isDelivered id := by
          rw [Bool.eq_iff_iff, isDelivered_iff, isDelivered_iff]
          simp only [messages, List.mem_map, exists_exists_and_eq_and]
          refine exists_congr fun row => and_congr_right fun _ => ?_
          split
          · rename_i own
            simp [own, Ne.symm same]
          · rfl
        rw [after, ← before, Db.deliveries, events, List.countP_append]
        simp [Db.deliveries, named, Ne.symm same]
  | withdrawn message _ found queued messages events =>
      refine .inl (congr events (isDelivered_congr fun id => ?_))
      simp only [messages, List.mem_filter, decide_eq_true_eq]
      refine exists_congr fun row => ?_
      constructor
      · rintro ⟨⟨member, _⟩, same, status⟩
        exact ⟨member, same, status⟩
      · rintro ⟨member, same, status⟩
        refine ⟨⟨member, fun own => ?_⟩, same, status⟩
        obtain rfl := eq_of_found keyed member (own ▸ found)
        simp [queued] at status
  | purged _ messages gone => exact .inr ⟨gone, messages⟩

/-- No message comes back to a purged chat. -/
theorem empty (change : MessageChange step db next) (gone : db.chat = none)
    (none : db.messages = []) : next.messages = [] := by
  cases change with
  | kept messages => rw [messages, none]
  | rewritten _ messages => rw [messages, none, List.map_nil]
  | sent _ present => exact absurd gone present
  | delivered _ _ _ _ messages => rw [messages, none, List.map_nil]
  | withdrawn _ _ _ _ messages => rw [messages, none, List.filter_nil]
  | purged _ messages => exact messages

/-- How a step moves a message. -/
theorem moves (change : MessageChange step db next) (keyed : Keyed Message.id db.messages)
    {message later : Message} (member : message ∈ db.messages) (kept : later ∈ next.messages)
    (same : later.id = message.id) : message.status.moves later.status = true := by
  have own : ∀ other ∈ db.messages, other.id = message.id → other = message := by
    intro other stored equal
    exact eq_of_found keyed stored (equal ▸ find_of_mem keyed member)
  cases change with
  | kept messages =>
      rw [own later (messages ▸ kept) same]
      exact message.status.moves_refl
  | rewritten update messages _ ids moves =>
      rw [messages] at kept
      obtain ⟨row, stored, rfl⟩ := List.mem_map.mp kept
      rw [own row stored ((ids row).symm.trans same)]
      exact moves message member
  | sent sent _ fresh _ messages =>
      rcases List.mem_cons.mp (messages.mem_iff.mp kept) with rfl | stored
      · exact absurd same.symm (find_none_iff.mp fresh message member)
      · rw [own later stored same]
        exact message.status.moves_refl
  | delivered sent _ found pending messages =>
      rw [messages] at kept
      obtain ⟨row, stored, rfl⟩ := List.mem_map.mp kept
      split at same
      · rename_i isSent
        rw [own row stored same] at isSent ⊢
        obtain rfl := eq_of_found keyed member (isSent ▸ found)
        rw [if_pos rfl]
        rcases isPending_iff.mp pending with status | status <;> rw [status] <;> rfl
      · rename_i other
        rw [own row stored same] at other ⊢
        rw [if_neg other]
        exact message.status.moves_refl
  | withdrawn _ _ _ _ messages =>
      rw [messages] at kept
      rw [own later (List.mem_filter.mp kept).1 same]
      exact message.status.moves_refl
  | purged _ messages => simp [messages] at kept

/-- Only a deletion cancels a message. -/
theorem cancelled (change : MessageChange step db next)
    (other : ∀ now confirmed, step ≠ .trash now confirmed) {later : Message}
    (kept : later ∈ next.messages) (cancelled : later.status = .cancelled) :
    ∃ message ∈ db.messages, message.id = later.id ∧ message.status = .cancelled := by
  cases change with
  | kept messages => exact ⟨later, messages ▸ kept, rfl, cancelled⟩
  | rewritten update messages _ ids _ _ keeps =>
      rw [messages] at kept
      obtain ⟨row, stored, rfl⟩ := List.mem_map.mp kept
      rcases keeps with ⟨now, confirmed, isTrash⟩ | keeps
      · exact absurd isTrash (other now confirmed)
      · exact ⟨row, stored, (ids row).symm, keeps row stored cancelled⟩
  | sent sent _ _ queued messages =>
      rcases List.mem_cons.mp (messages.mem_iff.mp kept) with rfl | stored
      · simp [queued] at cancelled
      · exact ⟨later, stored, rfl, cancelled⟩
  | delivered sent _ _ _ messages =>
      rw [messages] at kept
      obtain ⟨row, stored, rfl⟩ := List.mem_map.mp kept
      split at cancelled
      · simp at cancelled
      · rename_i apart
        exact ⟨row, stored, by rw [if_neg apart], cancelled⟩
  | withdrawn _ _ _ _ messages =>
      rw [messages] at kept
      exact ⟨later, (List.mem_filter.mp kept).1, rfl, cancelled⟩
  | purged _ messages => simp [messages] at kept

/-- A message disappears only when it is withdrawn or purged. -/
theorem disappears (change : MessageChange step db next) (keyed : Keyed Message.id db.messages)
    {message : Message} (member : message ∈ db.messages)
    (gone : ∀ later ∈ next.messages, later.id ≠ message.id) :
    (step = .edit message.id none ∧ message.status = .queued) ∨ step = .forget := by
  cases change with
  | kept messages => exact absurd rfl (gone message (messages ▸ member))
  | rewritten update messages _ ids =>
      exact absurd (ids message) (gone _ (messages ▸ List.mem_map_of_mem member))
  | sent sent _ _ _ messages =>
      exact absurd rfl (gone message (messages.mem_iff.mpr (List.mem_cons_of_mem _ member)))
  | delivered sent _ _ _ messages =>
      refine absurd ?_ (gone _ (messages ▸ List.mem_map_of_mem member))
      split <;> rfl
  | withdrawn withdrawn isStep found queued messages =>
      by_cases same : message.id = withdrawn.id
      · obtain rfl := eq_of_found keyed member (same ▸ found)
        exact .inl ⟨isStep, queued⟩
      · refine absurd rfl (gone message ?_)
        rw [messages]
        exact List.mem_filter.mpr ⟨member, by simpa using same⟩
  | purged isStep => exact .inr isStep

end MessageChange

theorem Db.Recorded.step {step : Step} (recorded : db.Recorded) (changes : Changes step db next) :
    next.Recorded := by
  refine ⟨changes.change.keyed recorded.keyed, ?_⟩
  rcases recorded.events with counted | ⟨gone, none⟩
  · exact changes.change.counted recorded.keyed counted
  · exact .inr ⟨changes.present gone, changes.change.empty gone none⟩

theorem Db.Recorded.run {initial final : State} {steps : List Step} (recorded : initial.db.Recorded)
    (executed : execute State.step initial steps = some final) : final.db.Recorded :=
  @execute_invariant _ _ State.step (fun state => state.db.Recorded)
    (fun _ _ _ recorded taken => recorded.step (step_changes recorded.keyed taken)) _ _ _ recorded
    executed

theorem State.Started.recorded {state : State} (started : state.Started) : state.db.Recorded := by
  obtain ⟨messages, _, events, _⟩ := started
  refine ⟨?_, .inl fun id => ?_⟩
  · rw [messages]
    exact List.nodup_nil
  · simp [Db.deliveries, Db.isDelivered, messages, events]

/-! ### The turn that is launched -/

@[simp] theorem commit_tick {state : State} {result : Except Error Db} :
    (state.commit result).tick = state.tick := by
  unfold State.commit
  split <;> rfl

/-- A message is selected by `next_queued`; every other step keeps the selection or drops
it. -/
theorem step_selects {state next : State} {step : Step} {tick : Tick} {message : Message}
    (taken : state.step step = some next) (selected : next.tick = some tick)
    (chosen : tick.message = some message) :
    state.tick = some tick ∨
      (step = .nextQueued ∧ (nextQueued state.db).2 = some message) := by
  cases step with
  | tick =>
      obtain ⟨fresh, read, rfl⟩ := Option.map_eq_some_iff.mp taken
      obtain rfl := Option.some.inj selected
      simp only [State.readChat, Option.bind_eq_bind, Option.bind_eq_some_iff] at read
      obtain ⟨chat, _, read⟩ := read
      split at read
      · simp at read
      · obtain rfl := Option.some.inj read
        simp at chosen
  | nextQueued =>
      simp only [State.step] at taken
      split at taken
      · obtain rfl := Option.some.inj taken
        dsimp only at selected
        split at selected
        · simp at selected
        · obtain ⟨found, isFound, rfl⟩ := Option.map_eq_some_iff.mp selected
          exact .inr ⟨rfl, isFound.trans chosen⟩
      · simp at taken
  | launchTurn now snapshot context =>
      simp only [State.step] at taken
      split at taken
      · obtain rfl := Option.some.inj taken
        simp at selected
      · simp at taken
  | restart now =>
      obtain rfl := Option.some.inj taken
      simp at selected
  | trash now confirmed =>
      obtain rfl := Option.some.inj taken
      left
      rw [← selected]
      unfold State.trash
      split
      · rfl
      · dsimp only
        split
        · simp
        · rfl
  | schedule now admission =>
      simp only [State.step] at taken
      split at taken
      · split at taken
        · split at taken <;> (obtain rfl := Option.some.inj taken; exact .inl selected)
        · simp at taken
      · simp at taken
  | send | answer | edit | acknowledge | claimSteering | hold | pause | restore | newSession | ask
  | configure =>
      obtain rfl := Option.some.inj taken
      exact .inl (by simpa using selected)
  | forget =>
      simp only [State.step] at taken
      split at taken
      · split at taken
        · obtain rfl := Option.some.inj taken
          exact .inl selected
        · simp at taken
      · simp at taken
  | finish now ending =>
      simp only [State.step] at taken
      split at taken
      · split at taken
        · obtain rfl := Option.some.inj taken
          exact .inl (by simpa using selected)
        · simp at taken
      · simp at taken
  | purge | cancel | resume | progress | otherRun =>
      simp only [State.step] at taken
      split at taken
      · obtain rfl := Option.some.inj taken
        exact .inl (by simpa using selected)
      · simp at taken

/-- The message of a turn was selected earlier in the run. -/
theorem selected_earlier {initial state : State} {steps : List Step} {tick : Tick}
    {message : Message} (started : initial.tick = none)
    (executed : execute State.step initial steps = some state) (selected : state.tick = some tick)
    (chosen : tick.message = some message) :
    ∃ earlier later middle, steps = earlier ++ .nextQueued :: later ∧
      execute State.step initial earlier = some middle ∧ (nextQueued middle.db).2 = some message := by
  induction steps using List.reverseRecOn generalizing state with
  | nil =>
      obtain rfl := Option.some.inj executed
      rw [started] at selected
      simp at selected
  | append_singleton earlier last inductionHypothesis =>
      obtain ⟨middle, reached, rest⟩ := execute_append.mp executed
      obtain ⟨next, taken, ended⟩ := execute_cons.mp rest
      obtain rfl := Option.some.inj ended
      rcases step_selects taken selected chosen with before | ⟨rfl, found⟩
      · obtain ⟨first, later, middle, rfl, isMiddle, found⟩ := inductionHypothesis reached before
        exact ⟨first, later ++ [last], middle, by simp, isMiddle, found⟩
      · exact ⟨earlier, [], middle, rfl, reached, found⟩

/-- The run of a turn names the message and its content. -/
theorem queueTurn_of_ok {chat : Chat} {run : Option Run} {snapshot : Run}
    {execution : ChatExecution} {context : String}
    (ok : queueTurn db chat run snapshot execution context = .ok next) :
    ∃ queued : Run, next.runs = put Run.id queued db.runs ∧
      queued.id = (run.map Run.id).getD snapshot.id ∧
      ∃ turn, queued.chatExecution = some turn ∧ turn.messageId = execution.messageId ∧
        turn.text = execution.text ∧ turn.attachments = execution.attachments := by
  unfold queueTurn at ok
  cases run with
  | none =>
      dsimp only [addRun] at ok
      split at ok
      · simp at ok
      · exact ⟨{ snapshot with chatExecution := some execution }, by rw [putRun_of_ok ok], rfl,
          execution, rfl, rfl, rfl, rfl⟩
  | some run =>
      simp only [continueRun] at ok
      split at ok
      · simp at ok
      · split at ok
        · simp at ok
        · simp at ok
        · rename_i checkpoint current saved known
          have named : current.id = run.id := (mem_of_find known).2
          refine ⟨_, by rw [putRun_of_ok ok]; rfl, ?_, ?_⟩
          · unfold continuedRun
            split <;> exact named
          · unfold continuedRun
            refine ⟨_, rfl, ?_⟩
            split <;> exact ⟨rfl, rfl, rfl⟩

/-! ### The lifecycle of a message -/

/-- How messages move, are delivered and disappear, what a submission repeats and what a
turn starts with, over a run. -/
structure MessageLifecycle (initial : State) (steps : List Step) : Prop where
  moves : ∀ before step after state next, steps = before ++ step :: after →
    execute State.step initial before = some state → state.step step = some next →
    ∀ message ∈ state.db.messages, ∀ later ∈ next.db.messages, later.id = message.id →
      message.status.moves later.status = true
  deliveries : ∀ before after state, steps = before ++ after →
    execute State.step initial before = some state → ∀ message ∈ state.db.messages,
      state.db.deliveries message.id = if message.status = .delivered then 1 else 0
  disappears : ∀ before step after state next, steps = before ++ step :: after →
    execute State.step initial before = some state → state.step step = some next →
    ∀ message ∈ state.db.messages, (∀ later ∈ next.db.messages, later.id ≠ message.id) →
      (step = .edit message.id none ∧ message.status = .queued) ∨ step = .forget
  single : ∀ before after state, steps = before ++ after →
    execute State.step initial before = some state → (state.db.messages.map Message.id).Nodup
  repeated : ∀ before after state now values answer existing next sent, steps = before ++ after →
    execute State.step initial before = some state →
    state.db.message? values.id = some existing →
    send state.db now values answer = .ok (next, sent) → next = state.db ∧ sent = existing
  accepted : ∀ before after state now values existing chat, steps = before ++ after →
    execute State.step initial before = some state →
    state.db.message? values.id = some existing → state.db.chat = some chat →
    chat.isActive = true → attachmentsMessage state.db.attachments values = .ok existing.content →
    send state.db now values none = .ok (state.db, existing)
  turn : ∀ before after state now snapshot context tick message next,
    steps = before ++ .launchTurn now snapshot context :: after →
    execute State.step initial before = some state → state.tick = some tick →
    tick.message = some message →
    state.launch tick message now snapshot context = .ok (next, true) →
    (∃ earlier later selected, before = earlier ++ .nextQueued :: later ∧
      execute State.step initial earlier = some selected ∧
      (nextQueued selected.db).1.messages.find? (fun message => message.status = .queued) =
        some message) ∧
    ∃ stored run turn, state.db.message? message.id = some stored ∧ stored.status = .queued ∧
      next.run? ((tick.run.map Run.id).getD snapshot.run.id) = some run ∧
      run.chatExecution = some turn ∧ turn.messageId = stored.id ∧
      turn.text = withInvokedSkills stored.content.text snapshot.mentions ∧
      turn.attachments = stored.content.attachments

/-- A message that was submitted before is answered with what is stored. -/
theorem send_of_existing {now : Int} {values : Values} {existing : Message} {chat : Chat}
    (found : db.message? values.id = some existing) (isChat : db.chat = some chat)
    (active : chat.isActive = true)
    (same : attachmentsMessage db.attachments values = .ok existing.content) :
    send db now values none = .ok (db, existing) := by
  simp [send, Db.getChat, isChat, Chat.requireActive, active, same, found, bind, Except.bind]

/-- The turn that a launch queues. -/
theorem launch_turn {state : State} {tick : Tick} {message : Message} {now : Int}
    {snapshot : Snapshot} {context : String}
    (ok : state.launch tick message now snapshot context = .ok (next, true)) :
    ∃ stored run turn, state.db.message? message.id = some stored ∧ stored.status = .queued ∧
      next.run? ((tick.run.map Run.id).getD snapshot.run.id) = some run ∧
      run.chatExecution = some turn ∧ turn.messageId = stored.id ∧
      turn.text = withInvokedSkills stored.content.text snapshot.mentions ∧
      turn.attachments = stored.content.attachments := by
  unfold State.launch at ok
  dsimp only at ok
  split at ok
  · rename_i launched isLaunched
    obtain rfl := Except.ok.inj ok
    rcases launchTurn_of_ok isLaunched with ⟨_, impossible⟩ |
      ⟨chat, stored, middle, _, _, _, found, queued, content, started, rfl⟩
    · simp at impossible
    · obtain ⟨run, runs, named, turn, isTurn, isMessage, text, attachments⟩ :=
        queueTurn_of_ok started
      refine ⟨stored, run, turn, found, queued, ?_, isTurn, ?_, ?_, ?_⟩
      · change find Run.id _ middle.runs = some run
        rw [runs, find_put]
        exact if_pos named.symm
      · exact isMessage.trans (mem_of_find found).2.symm
      · rw [text, content]
        rfl
      · rw [attachments, content]
        rfl
  · obtain ⟨_, _, same⟩ := map_eq_ok.mp ok
    simp at same

theorem message_lifecycle {initial : State} {steps : List Step} (started : initial.Started) :
    MessageLifecycle initial steps := by
  have recorded : ∀ {before state}, execute State.step initial before = some state →
      state.db.Recorded := fun reached => started.recorded.run reached
  refine ⟨?_, ?_, ?_, ?_, ?_, ?_, ?_⟩
  · intro before step after state next _ reached taken message member later kept same
    have keyed := (recorded reached).keyed
    exact (step_changes keyed taken).change.moves keyed member kept same
  · intro before after state _ reached message member
    obtain ⟨keyed, counted | ⟨_, none⟩⟩ := recorded reached
    · rw [counted]
      refine if_congr ?_ rfl rfl
      rw [isDelivered_iff]
      constructor
      · rintro ⟨other, stored, same, delivered⟩
        obtain rfl := eq_of_found keyed stored (same ▸ find_of_mem keyed member)
        exact delivered
      · exact fun delivered => ⟨message, member, rfl, delivered⟩
    · simp [none] at member
  · intro before step after state next _ reached taken message member gone
    have keyed := (recorded reached).keyed
    exact (step_changes keyed taken).change.disappears keyed member gone
  · exact fun before after state _ reached => (recorded reached).keyed
  · intro before after state now values answer existing next sent _ _ found ok
    rcases send_of_ok ok with ⟨rfl, same⟩ | ⟨_, _, _, _, absent, _⟩
    · exact ⟨rfl, Option.some.inj (same.symm.trans found)⟩
    · rw [absent] at found
      simp at found
  · exact fun before after state now values existing chat _ _ found isChat active same =>
      send_of_existing found isChat active same
  · intro before after state now snapshot context tick message next _ reached selected chosen ok
    refine ⟨?_, launch_turn ok⟩
    exact selected_earlier started.2.2.2.2.2.2 reached selected chosen

/-! ### A message that is delivered while it waits, and one that is sent again -/

/-- An agent of a chat. -/
def chatAgent : Agent where
  id := "agent"

/-- A new chat. -/
def newChat : State where
  db := { chat := some { id := "chat", agentId := "agent" }, agents := [chatAgent] }

/-- The turn of the chat as the scheduler prepares it. -/
def firstTurn : Snapshot where
  run := { id := "run", taskId := "chat", agent := chatAgent }

/-- A turn that fails before its message is delivered. -/
def failedTurn : List Step :=
  [.send 1 { id := "first", text := "Hello" }, .tick, .nextQueued, .launchTurn 2 firstTurn "",
    .schedule 3 {}, .finish 4 (.settled .failed "Failed"), .tick, .nextQueued]

/-- A message withdrawn and sent again behind another one. -/
def sentAgain : List Step :=
  [.send 1 { id := "first", text := "Hello" }, .send 2 { id := "second", text := "More" }, .tick,
    .nextQueued, .edit "first" none, .send 3 { id := "first", text := "Hello" }]

theorem newChat_started : newChat.Started :=
  ⟨rfl, rfl, rfl, rfl, List.nodup_nil, rfl, rfl⟩

theorem delivered_while_queued :
    (¬ ∀ (initial : State) (before : List Step) (step : Step) (state next : State),
      initial.Started → execute State.step initial before = some state →
      state.step step = some next → ∀ message ∈ state.db.messages,
        ∀ later ∈ next.db.messages, later.id = message.id → later.status = .delivered →
          message.status = .sending ∨ message.status = .delivered) ∧
    ¬ ∀ (initial : State) (before : List Step) (state : State) (now : Int) (snapshot : Snapshot)
      (context : String) (tick : Tick) (message : Message) (next : Db), initial.Started →
      execute State.step initial before = some state → state.tick = some tick →
      tick.message = some message →
      state.launch tick message now snapshot context = .ok (next, true) →
      (state.db.messages.find? fun message => message.status = .queued).map Message.id =
        some message.id := by
  constructor
  · intro claimed
    have strict := claimed newChat (failedTurn ++ [.resume, .schedule 5 {}])
      (.acknowledge 6 "run" "first") _ _ newChat_started rfl rfl
    exact absurd strict (by decide)
  · intro claimed
    have earliest := claimed newChat sentAgain _ 4 firstTurn "" _ _ _ newChat_started rfl rfl rfl rfl
    exact absurd earliest (by decide)

theorem message_lifecycle_failed :
    MessageLifecycle newChat (failedTurn ++ [.resume, .schedule 5 {}, .acknowledge 6 "run" "first"]) :=
  message_lifecycle newChat_started

end Cairn.Chats

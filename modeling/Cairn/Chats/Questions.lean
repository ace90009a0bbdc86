import Cairn.Chats.Lifecycle
import Cairn.Library.Transactions

/-!
Owns the requests on the questions and answers of one chat and what links the two: a
question names the message that answers it, the message names the question, and their
statuses move together.

Does not own the messages without a question.
-/

set_option autoImplicit false

namespace Cairn.Chats

open Cairn.Library.Records
open Cairn.Library.Results
open Cairn.Library.Transactions
open Cairn.Worker

/-! ### Requests -/

/-- `release`. -/
def release (db : Db) (run : String) (id : Option String) : Db :=
  match db.chatForRun run with
  | none => db
  | some _ =>
      { db with
        questions := db.questions.map fun question =>
          if question.blocking && id.all fun id => question.id = id then
            { question with blocking := false }
          else question }

/-- The question `question_receive` makes of what the agent asked. -/
def askedQuestion (now : Int) (id : String) (blocking : Bool) (fields : List QuestionField) :
    Question where
  id := id
  blocking := blocking
  status := .pending
  fields := fields
  createdAt := now
  messageId := none

/-- A request on a chat, or a change of the tables that hold neither its messages nor its
questions. -/
inductive Request where
  | receive (now : Int) (run id : String) (blocking : Bool) (fields : List QuestionField)
  | release (run : String) (id : Option String)
  | answer (now : Int) (question message : String) (answers : Answers)
  | send (now : Int) (values : Values)
  | edit (message : String) (values : Values)
  | withdraw (message : String)
  | acknowledge (now : Int) (run message : String)
  | claimSteering (paused : Bool) (delivering : Option String)
  | nextQueued
  | trash (now : Int) (confirmed : Bool)
  | restore (now : Int)
  | elsewhere (chat : Option Chat) (runs : List Run) (agents : List Agent)
      (projects : List String) (attachments : List Attachment) (usedElsewhere : List String)

/-- The transaction of a request. -/
def Request.apply : Request → Db → Except Error Db
  | .receive now run id blocking fields, db =>
      .ok (Chats.receive db run (askedQuestion now id blocking fields))
  | .release run id, db => .ok (Chats.release db run id)
  | .answer now question message answers, db =>
      (Chats.answer db now question message answers).map Prod.fst
  | .send now values, db => (Chats.send db now values none).map Prod.fst
  | .edit message values, db => Chats.edit db message (some values)
  | .withdraw message, db => Chats.edit db message none
  | .acknowledge now run message, db => .ok (Chats.acknowledge db now run message)
  | .claimSteering paused delivering, db => .ok (Chats.claimSteering db paused delivering).1
  | .nextQueued, db => .ok (Chats.nextQueued db).1
  | .trash now confirmed, db => Chats.trash db now confirmed
  | .restore now, db => Chats.restore db now
  | .elsewhere chat runs agents projects attachments usedElsewhere, db =>
      .ok { db with chat, runs, agents, projects, attachments, usedElsewhere }

/-- The tables after a run of requests. -/
def afterRequests (db : Db) (requests : List Request) : Db := runs Request.apply db requests

/-! ### Links -/

/-- A message that is queued or being sent belongs to a question that waits for its
delivery, a delivered one to a question that is answered, and no second answer is
delivered. -/
structure Db.Linked (db : Db) : Prop where
  messages : Keyed Message.id db.messages
  questions : Keyed Question.id db.questions
  answering : ∀ question ∈ db.questions, question.status = .answering →
    ∃ message ∈ db.messages, question.messageId = some message.id ∧ message.isPending = true ∧
      message.questionId = some question.id
  carried : ∀ message ∈ db.messages, ∀ id, message.questionId = some id →
    message.isPending = true → ∃ question ∈ db.questions, question.id = id ∧
      question.status = .answering ∧ question.messageId = some message.id
  answered : ∀ question ∈ db.questions, question.status = .answered →
    ∃ message ∈ db.messages, message.status = .delivered ∧ message.questionId = some question.id
  delivered : ∀ message ∈ db.messages, ∀ id, message.questionId = some id →
    message.status = .delivered → ∃ question ∈ db.questions, question.id = id ∧
      question.status = .answered
  single : ∀ first ∈ db.messages, ∀ second ∈ db.messages, ∀ id, first.questionId = some id →
    second.questionId = some id → first.status = .delivered → second.status = .delivered →
    first.id = second.id
  blocking : ∀ question ∈ db.questions, question.isOpen = false → question.blocking = false

/-- What is settled for good after a request: a delivered message, and a question that is
answered or cancelled. Only a deletion cancels a question. -/
structure Settles (request : Request) (db next : Db) : Prop where
  delivered : ∀ message ∈ db.messages, message.status = .delivered →
    ∃ later ∈ next.messages, later.id = message.id ∧ later.questionId = message.questionId ∧
      later.status = .delivered
  settled : ∀ question ∈ db.questions, question.isOpen = false →
    ∃ later ∈ next.questions, later.id = question.id ∧ later.status = question.status
  cancelled : ∀ later ∈ next.questions, later.status = .cancelled →
    (∃ question ∈ db.questions, question.id = later.id ∧ question.status = .cancelled) ∨
      ∃ now confirmed chat, request = .trash now confirmed ∧ db.chat = some chat ∧
        chat.inTrash = false ∧ ∃ deleted, next.chat = some deleted ∧ deleted.lifecycle = .trash

variable {db next : Db}

/-- The row of an id is the only one. -/
theorem question_unique (linked : db.Linked) {first second : Question}
    (isFirst : first ∈ db.questions) (isSecond : second ∈ db.questions)
    (same : first.id = second.id) : first = second := by
  have found := find_of_mem linked.questions isSecond
  rw [← same, find_of_mem linked.questions isFirst] at found
  exact Option.some.inj found

theorem message_unique (linked : db.Linked) {first second : Message}
    (isFirst : first ∈ db.messages) (isSecond : second ∈ db.messages)
    (same : first.id = second.id) : first = second :=
  eq_of_found linked.messages isFirst (same ▸ find_of_mem linked.messages isSecond)

theorem Question.isOpen_iff {question : Question} :
    question.isOpen = true ↔ question.status = .pending ∨ question.status = .answering := by
  simp [Question.isOpen]

/-! ### Rows that keep their links -/

/-- A message is rewritten without a change to what its question depends on. -/
structure Message.SameLink (message later : Message) : Prop where
  id : later.id = message.id
  question : later.questionId = message.questionId
  pending : message.questionId.isSome = true → later.isPending = message.isPending
  delivered : message.status = .delivered → later.status = .delivered
  undelivered : message.questionId.isSome = true → later.status = .delivered →
    message.status = .delivered

theorem Message.SameLink.refl (message : Message) : message.SameLink message :=
  ⟨rfl, rfl, fun _ => rfl, fun delivered => delivered, fun _ delivered => delivered⟩

/-- A question is rewritten without a change to what its answers depend on. -/
structure Question.SameLink (question later : Question) : Prop where
  id : later.id = question.id
  status : later.status = question.status
  message : later.messageId = question.messageId
  blocking : question.isOpen = false → question.blocking = false → later.blocking = false

theorem Question.SameLink.refl (question : Question) : question.SameLink question :=
  ⟨rfl, rfl, rfl, fun _ kept => kept⟩

/-- Rows that keep their links keep the tables linked. -/
theorem Db.Linked.of_map (linked : db.Linked) {update : Message → Message}
    {change : Question → Question} (messages : next.messages = db.messages.map update)
    (questions : next.questions = db.questions.map change)
    (sameMessage : ∀ message ∈ db.messages, message.SameLink (update message))
    (sameQuestion : ∀ question ∈ db.questions, question.SameLink (change question)) :
    next.Linked := by
  constructor
  · rw [messages, Keyed, List.map_map]
    exact (List.map_congr_left fun message member => (sameMessage message member).id :
      _ = db.messages.map Message.id) ▸ linked.messages
  · rw [questions, Keyed, List.map_map]
    exact (List.map_congr_left fun question member => (sameQuestion question member).id :
      _ = db.questions.map Question.id) ▸ linked.questions
  · intro later member answering
    obtain ⟨question, known, rfl⟩ := List.mem_map.mp (questions ▸ member)
    have same := sameQuestion question known
    obtain ⟨message, stored, named, pending, carries⟩ :=
      linked.answering question known (same.status ▸ answering)
    have kept := sameMessage message stored
    exact ⟨update message, messages ▸ List.mem_map_of_mem stored,
      by rw [same.message, kept.id, named], (kept.pending (by simp [carries])).trans pending,
      by rw [kept.question, same.id, carries]⟩
  · intro later member id carries pending
    obtain ⟨message, stored, rfl⟩ := List.mem_map.mp (messages ▸ member)
    have kept := sameMessage message stored
    rw [kept.question] at carries
    rw [kept.pending (by simp [carries])] at pending
    obtain ⟨question, known, isQuestion, answering, named⟩ :=
      linked.carried message stored id carries pending
    have same := sameQuestion question known
    exact ⟨change question, questions ▸ List.mem_map_of_mem known, same.id.trans isQuestion,
      same.status.trans answering, by rw [same.message, kept.id, named]⟩
  · intro later member answered
    obtain ⟨question, known, rfl⟩ := List.mem_map.mp (questions ▸ member)
    have same := sameQuestion question known
    obtain ⟨message, stored, delivered, carries⟩ :=
      linked.answered question known (same.status ▸ answered)
    have kept := sameMessage message stored
    exact ⟨update message, messages ▸ List.mem_map_of_mem stored, kept.delivered delivered,
      by rw [kept.question, same.id, carries]⟩
  · intro later member id carries delivered
    obtain ⟨message, stored, rfl⟩ := List.mem_map.mp (messages ▸ member)
    have kept := sameMessage message stored
    rw [kept.question] at carries
    obtain ⟨question, known, isQuestion, answered⟩ := linked.delivered message stored id carries
      (kept.undelivered (by simp [carries]) delivered)
    have same := sameQuestion question known
    exact ⟨change question, questions ▸ List.mem_map_of_mem known, same.id.trans isQuestion,
      same.status.trans answered⟩
  · intro first isFirst second isSecond id carriesFirst carriesSecond deliveredFirst deliveredSecond
    obtain ⟨one, storedOne, rfl⟩ := List.mem_map.mp (messages ▸ isFirst)
    obtain ⟨two, storedTwo, rfl⟩ := List.mem_map.mp (messages ▸ isSecond)
    have keptOne := sameMessage one storedOne
    have keptTwo := sameMessage two storedTwo
    rw [keptOne.question] at carriesFirst
    rw [keptTwo.question] at carriesSecond
    rw [keptOne.id, keptTwo.id]
    exact linked.single one storedOne two storedTwo id carriesFirst carriesSecond
      (keptOne.undelivered (by simp [carriesFirst]) deliveredFirst)
      (keptTwo.undelivered (by simp [carriesSecond]) deliveredSecond)
  · intro later member closed
    obtain ⟨question, known, rfl⟩ := List.mem_map.mp (questions ▸ member)
    have same := sameQuestion question known
    have wasClosed : question.isOpen = false := by
      rw [← closed, Question.isOpen, Question.isOpen, same.status]
    exact same.blocking wasClosed (linked.blocking question known wasClosed)

theorem Settles.of_map {request : Request} {update : Message → Message}
    {change : Question → Question} (messages : next.messages = db.messages.map update)
    (questions : next.questions = db.questions.map change)
    (sameMessage : ∀ message ∈ db.messages, message.SameLink (update message))
    (sameQuestion : ∀ question ∈ db.questions, question.SameLink (change question)) :
    Settles request db next := by
  refine ⟨fun message stored delivered => ?_, fun question known _ => ?_,
    fun later member cancelled => .inl ?_⟩
  · have kept := sameMessage message stored
    exact ⟨update message, messages ▸ List.mem_map_of_mem stored, kept.id, kept.question,
      kept.delivered delivered⟩
  · have same := sameQuestion question known
    exact ⟨change question, questions ▸ List.mem_map_of_mem known, same.id, same.status⟩
  · obtain ⟨question, known, rfl⟩ := List.mem_map.mp (questions ▸ member)
    have same := sameQuestion question known
    exact ⟨question, known, same.id.symm, same.status ▸ cancelled⟩

/-- A request keeps the links, and what is settled stays so. -/
structure Keeps (request : Request) (db next : Db) : Prop where
  linked : next.Linked
  settles : Settles request db next

theorem Keeps.of_map {request : Request} (linked : db.Linked) {update : Message → Message}
    {change : Question → Question} (messages : next.messages = db.messages.map update)
    (questions : next.questions = db.questions.map change)
    (sameMessage : ∀ message ∈ db.messages, message.SameLink (update message))
    (sameQuestion : ∀ question ∈ db.questions, question.SameLink (change question)) :
    Keeps request db next :=
  ⟨linked.of_map messages questions sameMessage sameQuestion,
    .of_map messages questions sameMessage sameQuestion⟩

/-- A request on the other tables. -/
theorem Keeps.of_same {request : Request} (linked : db.Linked)
    (messages : next.messages = db.messages) (questions : next.questions = db.questions) :
    Keeps request db next :=
  .of_map linked (messages.trans (List.map_id' _).symm) (questions.trans (List.map_id' _).symm)
    (fun message _ => .refl message) fun question _ => .refl question

/-! ### The requests on a question -/

/-- Storing a known question rewrites its row. -/
theorem saveQuestion_of_found {question stored : Question}
    (found : db.question? question.id = some stored) :
    (db.saveQuestion question).questions = db.questions.map fun row =>
      if row.id = question.id then question else row := by
  simp [Db.saveQuestion, found]

theorem release_keeps {request : Request} (linked : db.Linked) (run : String)
    (id : Option String) : Keeps request db (release db run id) := by
  unfold release
  split
  · exact .of_same linked rfl rfl
  · refine .of_map linked (List.map_id' _).symm rfl (fun message _ => .refl message)
      fun question _ => ?_
    split
    · exact ⟨rfl, rfl, rfl, fun _ _ => rfl⟩
    · exact .refl question

/-- A question that is asked for the first time has no answer yet. -/
theorem asked_keeps {request : Request} {question : Question} (linked : db.Linked)
    (absent : db.question? question.id = none) (pending : question.status = .pending) :
    Keeps request db (db.saveQuestion question) := by
  have questions : (db.saveQuestion question).questions = db.questions ++ [question] := by
    simp [Db.saveQuestion, absent]
  have kept : ∀ other ∈ db.questions, other ∈ (db.saveQuestion question).questions :=
    fun other member => questions ▸ List.mem_append_left _ member
  have cases : ∀ other ∈ (db.saveQuestion question).questions,
      other ∈ db.questions ∨ other = question := fun other member => by
    rw [questions] at member
    simpa using member
  refine ⟨⟨linked.messages, ?_, ?_, ?_, ?_, ?_, linked.single, ?_⟩, ?_, ?_, ?_⟩
  · rw [questions, Keyed, List.map_append]
    refine List.nodup_append.mpr ⟨linked.questions, List.nodup_singleton _, ?_⟩
    intro first isFirst second isSecond same
    obtain ⟨other, known, rfl⟩ := List.mem_map.mp isFirst
    obtain rfl := List.mem_singleton.mp isSecond
    exact find_none_iff.mp absent other known same
  · intro other member answering
    rcases cases other member with known | rfl
    · exact linked.answering other known answering
    · simp [pending] at answering
  · intro message stored id carries isPending
    obtain ⟨other, known, rest⟩ := linked.carried message stored id carries isPending
    exact ⟨other, kept other known, rest⟩
  · intro other member answered
    rcases cases other member with known | rfl
    · exact linked.answered other known answered
    · simp [pending] at answered
  · intro message stored id carries delivered
    obtain ⟨other, known, rest⟩ := linked.delivered message stored id carries delivered
    exact ⟨other, kept other known, rest⟩
  · intro other member closed
    rcases cases other member with known | rfl
    · exact linked.blocking other known closed
    · simp [Question.isOpen, pending] at closed
  · exact fun message stored delivered => ⟨message, stored, rfl, rfl, delivered⟩
  · exact fun other known _ => ⟨other, kept other known, rfl, rfl⟩
  · intro other member cancelled
    rcases cases other member with known | rfl
    · exact .inl ⟨other, known, rfl, cancelled⟩
    · simp [pending] at cancelled

theorem receive_keeps {request : Request} (linked : db.Linked) (now : Int) (run id : String)
    (blocking : Bool) (fields : List QuestionField) :
    Keeps request db (receive db run (askedQuestion now id blocking fields)) := by
  unfold receive
  split
  · split
    · rename_i existing found
      obtain ⟨member, isAsked⟩ := mem_of_find found
      refine .of_map linked (List.map_id' _).symm
        (saveQuestion_of_found (by exact isAsked ▸ found)) (fun message _ => .refl message)
        fun question known => ?_
      split
      · rename_i same
        obtain rfl := question_unique linked known member same
        refine ⟨rfl, rfl, rfl, fun closed _ => ?_⟩
        have settled : question.status ≠ .pending := fun pending => by
          simp [Question.isOpen, pending] at closed
        simp [settled]
      · exact .refl question
    · rename_i absent
      exact asked_keeps linked absent rfl
  · exact .of_same linked rfl rfl

/-! ### Sending and answering -/

/-- What a submission stores. -/
theorem send_stores {now : Int} {values : Values} {answer : Option (Question × Answers)}
    {sent : Message} (ok : send db now values answer = .ok (next, sent)) :
    next = db ∨ ∃ content, db.message? values.id = none ∧
      next.messages.Perm (newMessage values content now answer :: db.messages) ∧
      next.questions = (answer.elim db fun answer => db.saveQuestion
        { answer.1 with status := .answering, messageId := some values.id }).questions := by
  unfold send at ok
  obtain ⟨chat, _, entered⟩ := bind_eq_ok.mp ok
  obtain ⟨_, _, resolved⟩ := bind_eq_ok.mp entered
  obtain ⟨content, _, submitted⟩ := bind_eq_ok.mp resolved
  clear ok entered resolved
  cases found : db.message? values.id with
  | some existing =>
      rw [found] at submitted
      dsimp only at submitted
      split at submitted
      · simp at submitted
      · obtain ⟨rfl, _⟩ := Prod.mk.inj (Except.ok.inj submitted)
        exact .inl rfl
  | none =>
      rw [found] at submitted
      dsimp only at submitted
      obtain ⟨_, _, accepted⟩ := bind_eq_ok.mp submitted
      obtain ⟨_, _, stored⟩ := bind_eq_ok.mp accepted
      obtain ⟨rfl, _⟩ := Prod.mk.inj (Except.ok.inj stored)
      refine .inr ⟨content, rfl, ?_, ?_⟩
      · cases answer <;>
          exact @putMessage_of_absent _ (newMessage values content now _) found
      · cases answer <;> rfl

/-- A message without a question links to nothing. -/
theorem sent_keeps {request : Request} {message : Message} (linked : db.Linked)
    (absent : db.message? message.id = none) (free : message.questionId = none)
    (undelivered : message.status ≠ .delivered)
    (messages : next.messages.Perm (message :: db.messages))
    (questions : next.questions = db.questions) : Keeps request db next := by
  have kept : ∀ other ∈ db.messages, other ∈ next.messages :=
    fun other member => messages.mem_iff.mpr (List.mem_cons_of_mem _ member)
  have cases : ∀ other ∈ next.messages, other = message ∨ other ∈ db.messages :=
    fun other member => List.mem_cons.mp (messages.mem_iff.mp member)
  have carries : ∀ other ∈ next.messages, ∀ id, other.questionId = some id →
      other ∈ db.messages := fun other member id carries => by
    rcases cases other member with rfl | stored
    · simp [free] at carries
    · exact stored
  refine ⟨⟨?_, questions ▸ linked.questions, ?_, ?_, ?_, ?_, ?_, ?_⟩, ?_, ?_, ?_⟩
  · refine ((messages.map Message.id).nodup_iff).mpr (List.nodup_cons.mpr ⟨fun member => ?_,
      linked.messages⟩)
    obtain ⟨other, stored, same⟩ := List.mem_map.mp member
    exact find_none_iff.mp absent other stored same
  · intro question known answering
    obtain ⟨other, stored, rest⟩ := linked.answering question (questions ▸ known) answering
    exact ⟨other, kept other stored, rest⟩
  · intro other member id isCarried pending
    rw [questions]
    exact linked.carried other (carries other member id isCarried) id isCarried pending
  · intro question known answered
    obtain ⟨other, stored, rest⟩ := linked.answered question (questions ▸ known) answered
    exact ⟨other, kept other stored, rest⟩
  · intro other member id isCarried delivered
    rw [questions]
    exact linked.delivered other (carries other member id isCarried) id isCarried delivered
  · intro first isFirst second isSecond id carriesFirst carriesSecond
    exact linked.single first (carries first isFirst id carriesFirst) second
      (carries second isSecond id carriesSecond) id carriesFirst carriesSecond
  · exact fun question known => linked.blocking question (questions ▸ known)
  · exact fun other stored delivered => ⟨other, kept other stored, rfl, rfl, delivered⟩
  · exact fun question known _ => ⟨question, questions ▸ known, rfl, rfl⟩
  · exact fun question known cancelled => .inl ⟨question, questions ▸ known, rfl, cancelled⟩

theorem send_keeps {request : Request} {now : Int} {values : Values} {sent : Message}
    (linked : db.Linked) (ok : send db now values none = .ok (next, sent)) :
    Keeps request db next := by
  rcases send_stores ok with rfl | ⟨content, absent, messages, questions⟩
  · exact .of_same linked rfl rfl
  · exact @sent_keeps db next _ (newMessage values content now none) linked absent rfl (by simp [newMessage])
      messages questions

/-- A rewritten question stands in place of the one with its id. -/
theorem mem_replace {question stored other : Question}
    (found : db.question? question.id = some stored) :
    (other ∈ db.questions.map fun row => if row.id = question.id then question else row) ↔
      other = question ∨ other ∈ db.questions ∧ other.id ≠ question.id := by
  obtain ⟨member, named⟩ := mem_of_find found
  constructor
  · intro replaced
    obtain ⟨row, known, rfl⟩ := List.mem_map.mp replaced
    split
    · exact .inl rfl
    · rename_i apart
      exact .inr ⟨known, apart⟩
  · rintro (rfl | ⟨known, apart⟩)
    · exact List.mem_map.mpr ⟨stored, member, if_pos named⟩
    · exact List.mem_map.mpr ⟨other, known, if_neg apart⟩

theorem keyed_replace {question : Question} (keyed : Keyed Question.id db.questions) :
    Keyed Question.id
      (db.questions.map fun row => if row.id = question.id then question else row) := by
  unfold Keyed
  rw [List.map_map]
  refine (List.map_congr_left fun row _ => ?_ : _ = db.questions.map Question.id) ▸ keyed
  dsimp only [Function.comp]
  split
  · rename_i same
    exact same.symm
  · rfl

/-- The answer of a pending question is its first. -/
theorem answered_keeps {request : Request} {question : Question} {message : Message}
    (linked : db.Linked) (found : db.question? question.id = some question)
    (pending : question.status = .pending) (absent : db.message? message.id = none)
    (queued : message.status = .queued) (carries : message.questionId = some question.id)
    (messages : next.messages.Perm (message :: db.messages))
    (questions : next.questions = (db.saveQuestion
      { question with status := .answering, messageId := some message.id }).questions) :
    Keeps request db next := by
  obtain ⟨stored, _⟩ := mem_of_find found
  have rows := questions.trans (saveQuestion_of_found (by exact found))
  have isKnown : ∀ other, other ∈ next.questions ↔
      other = { question with status := .answering, messageId := some message.id } ∨
        other ∈ db.questions ∧ other.id ≠ question.id := fun other => by
    rw [rows]
    exact mem_replace found
  have isStored : ∀ other, other ∈ next.messages ↔ other = message ∨ other ∈ db.messages :=
    fun other => messages.mem_iff.trans List.mem_cons
  -- No message that may still be delivered, or was, carries a question that is pending.
  have apart : ∀ other ∈ db.questions, other.status ≠ .pending → other.id ≠ question.id :=
    fun other known status same => status (question_unique linked known stored same ▸ pending)
  refine ⟨⟨?_, rows ▸ keyed_replace linked.questions, ?_, ?_, ?_, ?_, ?_, ?_⟩, ?_, ?_, ?_⟩
  · refine ((messages.map Message.id).nodup_iff).mpr (List.nodup_cons.mpr ⟨fun member => ?_,
      linked.messages⟩)
    obtain ⟨other, stored, same⟩ := List.mem_map.mp member
    exact find_none_iff.mp absent other stored same
  · intro other known answering
    rcases (isKnown other).mp known with rfl | ⟨known, _⟩
    · exact ⟨message, (isStored _).mpr (.inl rfl), rfl, isPending_iff.mpr (.inl queued), carries⟩
    · obtain ⟨own, member, rest⟩ := linked.answering other known answering
      exact ⟨own, (isStored _).mpr (.inr member), rest⟩
  · intro other member id isCarried isPending
    rcases (isStored other).mp member with rfl | member
    · obtain rfl := Option.some.inj (carries.symm.trans isCarried)
      exact ⟨_, (isKnown _).mpr (.inl rfl), rfl, rfl, rfl⟩
    · obtain ⟨own, known, rfl, answering, named⟩ :=
        linked.carried other member id isCarried isPending
      exact ⟨own, (isKnown _).mpr (.inr ⟨known, apart own known (by simp [answering])⟩), rfl,
        answering, named⟩
  · intro other known answered
    rcases (isKnown other).mp known with rfl | ⟨known, _⟩
    · simp at answered
    · obtain ⟨own, member, rest⟩ := linked.answered other known answered
      exact ⟨own, (isStored _).mpr (.inr member), rest⟩
  · intro other member id isCarried delivered
    rcases (isStored other).mp member with rfl | member
    · simp [queued] at delivered
    · obtain ⟨own, known, rfl, answered⟩ := linked.delivered other member id isCarried delivered
      exact ⟨own, (isKnown _).mpr (.inr ⟨known, apart own known (by simp [answered])⟩), rfl,
        answered⟩
  · intro first isFirst second isSecond id carriesFirst carriesSecond deliveredFirst deliveredSecond
    rcases (isStored first).mp isFirst with rfl | isFirst
    · simp [queued] at deliveredFirst
    · rcases (isStored second).mp isSecond with rfl | isSecond
      · simp [queued] at deliveredSecond
      · exact linked.single first isFirst second isSecond id carriesFirst carriesSecond
          deliveredFirst deliveredSecond
  · intro other known closed
    rcases (isKnown other).mp known with rfl | ⟨known, _⟩
    · simp [Question.isOpen] at closed
    · exact linked.blocking other known closed
  · exact fun other member delivered => ⟨other, (isStored _).mpr (.inr member), rfl, rfl, delivered⟩
  · intro other known closed
    refine ⟨other, (isKnown _).mpr (.inr ⟨known, apart other known fun pending => ?_⟩), rfl, rfl⟩
    simp [Question.isOpen, pending] at closed
  · intro other known cancelled
    rcases (isKnown other).mp known with rfl | ⟨known, _⟩
    · simp at cancelled
    · exact .inl ⟨other, known, rfl, cancelled⟩

theorem answer_keeps {request : Request} {now : Int} {id message : String} {answers : Answers}
    {stored : Question} (linked : db.Linked)
    (ok : answer db now id message answers = .ok (next, stored)) : Keeps request db next := by
  unfold answer at ok
  obtain ⟨_, _, entered⟩ := bind_eq_ok.mp ok
  clear ok
  split at entered
  · simp at entered
  · rename_i question found
    obtain rfl : question.id = id := (mem_of_find found).2
    dsimp only at entered
    split at entered
    · obtain ⟨rfl, _⟩ := Prod.mk.inj (Except.ok.inj entered)
      exact .of_same linked rfl rfl
    · split at entered
      · simp at entered
      · rename_i pending
        split at entered
        · simp at entered
        · obtain ⟨⟨sent, message⟩, isSent, replied⟩ := bind_eq_ok.mp entered
          dsimp only at replied
          split at replied
          · simp at replied
          · obtain ⟨rfl, _⟩ := Prod.mk.inj (Except.ok.inj replied)
            rcases send_stores isSent with rfl | ⟨content, absent, messages, questions⟩
            · exact .of_same linked rfl rfl
            · exact answered_keeps linked found (not_not.mp pending)
                (by exact absent) rfl rfl messages questions

/-! ### Changing a queued message -/

/-- What a change of a queued message stores. -/
theorem edit_stores {message : String} {values : Option Values}
    (ok : edit db message values = .ok next) :
    ∃ current, db.message? message = some current ∧ current.status = .queued ∧
      ((values = none ∧ next = withdraw db current) ∨
        ∃ content mode, next = db.putMessage { current with content, mode }) := by
  unfold edit at ok
  obtain ⟨chat, _, entered⟩ := bind_eq_ok.mp ok
  obtain ⟨_, _, edited⟩ := bind_eq_ok.mp entered
  clear ok entered
  split at edited
  · simp at edited
  · rename_i current found
    split at edited
    · simp at edited
    · rename_i queued
      refine ⟨current, found, not_not.mp queued, ?_⟩
      cases values with
      | none => exact .inl ⟨rfl, (Except.ok.inj edited).symm⟩
      | some values =>
          right
          dsimp only at edited
          split at edited
          · simp at edited
          · obtain ⟨content, _, validated⟩ := bind_eq_ok.mp edited
            obtain ⟨_, _, stored⟩ := bind_eq_ok.mp validated
            exact ⟨content, values.mode, (Except.ok.inj stored).symm⟩

/-- Messages that leave, and none of them delivered or of a question that waits, take no
link away. -/
theorem removed_keeps {request : Request} {message : Message} (linked : db.Linked)
    (stored : message ∈ db.messages) (queued : message.status = .queued)
    (free : message.questionId = none)
    (messages : next.messages = db.messages.filter fun row => row.id ≠ message.id)
    (questions : next.questions = db.questions) : Keeps request db next := by
  have isKept : ∀ other, other ∈ next.messages ↔ other ∈ db.messages ∧ other.id ≠ message.id :=
    fun other => by simp [messages]
  have kept : ∀ other ∈ db.messages, other.questionId.isSome = true → other ∈ next.messages :=
    fun other member carries => (isKept other).mpr ⟨member, fun same => by
      simp [message_unique linked member stored same, free] at carries⟩
  refine ⟨⟨messages ▸ linked.messages.sublist (List.filter_sublist.map Message.id),
    questions ▸ linked.questions, ?_, ?_, ?_, ?_, ?_, ?_⟩, ?_, ?_, ?_⟩
  · intro question known answering
    obtain ⟨other, member, named, pending, carries⟩ :=
      linked.answering question (questions ▸ known) answering
    exact ⟨other, kept other member (by simp [carries]), named, pending, carries⟩
  · intro other member id
    rw [questions]
    exact linked.carried other ((isKept other).mp member).1 id
  · intro question known answered
    obtain ⟨other, member, delivered, carries⟩ :=
      linked.answered question (questions ▸ known) answered
    exact ⟨other, kept other member (by simp [carries]), delivered, carries⟩
  · intro other member id
    rw [questions]
    exact linked.delivered other ((isKept other).mp member).1 id
  · exact fun first isFirst second isSecond =>
      linked.single first ((isKept first).mp isFirst).1 second ((isKept second).mp isSecond).1
  · exact fun question known => linked.blocking question (questions ▸ known)
  · intro other member delivered
    refine ⟨other, (isKept other).mpr ⟨member, fun same => ?_⟩, rfl, rfl, delivered⟩
    simp [message_unique linked member stored same, queued] at delivered
  · exact fun question known _ => ⟨question, questions ▸ known, rfl, rfl⟩
  · exact fun question known cancelled => .inl ⟨question, questions ▸ known, rfl, cancelled⟩

/-- A withdrawn answer reopens its question. -/
theorem reopened_keeps {request : Request} {message : Message} {question : Question}
    (linked : db.Linked) (stored : message ∈ db.messages) (queued : message.status = .queued)
    (carries : message.questionId = some question.id)
    (found : db.question? question.id = some question)
    (messages : next.messages = db.messages.filter fun row => row.id ≠ message.id)
    (questions : next.questions = (db.saveQuestion
      { question with status := .pending, messageId := none }).questions) :
    Keeps request db next := by
  have known := (mem_of_find found).1
  -- The question of a queued message waits for it.
  have owner : question.status = .answering ∧ question.messageId = some message.id := by
    obtain ⟨own, isOwn, same, rest⟩ :=
      linked.carried message stored _ carries (isPending_iff.mpr (.inl queued))
    exact question_unique linked isOwn known same ▸ rest
  have rows := questions.trans (saveQuestion_of_found (by exact found))
  have isKnown : ∀ other, other ∈ next.questions ↔
      other = { question with status := .pending, messageId := none } ∨
        other ∈ db.questions ∧ other.id ≠ question.id := fun other => by
    rw [rows]
    exact mem_replace found
  have isKept : ∀ other, other ∈ next.messages ↔ other ∈ db.messages ∧ other.id ≠ message.id :=
    fun other => by simp [messages]
  have apart : ∀ other ∈ db.questions, other.isOpen = false → other.id ≠ question.id :=
    fun other member closed same => by
      simp [question_unique linked member known same, Question.isOpen, owner.1] at closed
  refine ⟨⟨messages ▸ linked.messages.sublist (List.filter_sublist.map Message.id),
    rows ▸ keyed_replace linked.questions, ?_, ?_, ?_, ?_, ?_, ?_⟩, ?_, ?_, ?_⟩
  · intro other member answering
    rcases (isKnown other).mp member with rfl | ⟨member, different⟩
    · simp at answering
    · obtain ⟨own, isStored, named, pending, carried⟩ := linked.answering other member answering
      refine ⟨own, (isKept own).mpr ⟨isStored, fun same => different ?_⟩, named, pending, carried⟩
      rw [message_unique linked isStored stored same, carries] at carried
      exact (Option.some.inj carried).symm
  · intro other member id isCarried pending
    obtain ⟨isStored, different⟩ := (isKept other).mp member
    obtain ⟨own, isOwn, rfl, answering, named⟩ := linked.carried other isStored id isCarried pending
    refine ⟨own, (isKnown own).mpr (.inr ⟨isOwn, fun same => different ?_⟩), rfl, answering, named⟩
    rw [question_unique linked isOwn known same, owner.2] at named
    exact (Option.some.inj named).symm
  · intro other member answered
    rcases (isKnown other).mp member with rfl | ⟨member, _⟩
    · simp at answered
    · obtain ⟨own, isStored, delivered, carried⟩ := linked.answered other member answered
      refine ⟨own, (isKept own).mpr ⟨isStored, fun same => ?_⟩, delivered, carried⟩
      simp [message_unique linked isStored stored same, queued] at delivered
  · intro other member id isCarried delivered
    obtain ⟨own, isOwn, rfl, answered⟩ :=
      linked.delivered other ((isKept other).mp member).1 id isCarried delivered
    exact ⟨own, (isKnown own).mpr (.inr ⟨isOwn, apart own isOwn (by
      simp [Question.isOpen, answered])⟩), rfl, answered⟩
  · exact fun first isFirst second isSecond =>
      linked.single first ((isKept first).mp isFirst).1 second ((isKept second).mp isSecond).1
  · intro other member closed
    rcases (isKnown other).mp member with rfl | ⟨member, _⟩
    · simp [Question.isOpen] at closed
    · exact linked.blocking other member closed
  · intro other member delivered
    refine ⟨other, (isKept other).mpr ⟨member, fun same => ?_⟩, rfl, rfl, delivered⟩
    simp [message_unique linked member stored same, queued] at delivered
  · exact fun other member closed =>
      ⟨other, (isKnown other).mpr (.inr ⟨member, apart other member closed⟩), rfl, rfl⟩
  · intro other member cancelled
    rcases (isKnown other).mp member with rfl | ⟨member, _⟩
    · simp at cancelled
    · exact .inl ⟨other, member, rfl, cancelled⟩

theorem edit_keeps {request : Request} {message : String} {values : Option Values}
    (linked : db.Linked) (ok : edit db message values = .ok next) : Keeps request db next := by
  obtain ⟨current, found, queued, ⟨_, rfl⟩ | ⟨content, mode, rfl⟩⟩ := edit_stores ok
  · obtain ⟨stored, _⟩ := mem_of_find found
    cases isQuestion : current.questionId with
    | none =>
        exact removed_keeps linked stored queued isQuestion (withdraw_messages current)
          (by simp [withdraw, isQuestion])
    | some id =>
        obtain ⟨question, known, rfl, _⟩ :=
          linked.carried current stored id isQuestion (isPending_iff.mpr (.inl queued))
        have isFound : db.question? question.id = some question :=
          find_of_mem linked.questions known
        exact reopened_keeps linked stored queued isQuestion isFound (withdraw_messages current)
          (by simp [withdraw, isQuestion, isFound])
  · obtain ⟨stored, rfl⟩ := mem_of_find found
    refine .of_map linked (putMessage_of_found (by exact found)) (List.map_id' _).symm
      (fun row member => ?_) fun question _ => .refl question
    split
    · rename_i same
      obtain rfl := message_unique linked member stored same
      exact ⟨rfl, rfl, fun _ => rfl, fun delivered => delivered, fun _ delivered => delivered⟩
    · exact .refl row

/-! ### Delivery -/

/-- What a delivery stores. -/
theorem acknowledge_stores (keyed : Keyed Message.id db.messages) (now : Int)
    (run message : String) :
    acknowledge db now run message = db ∨
      ∃ current, db.message? message = some current ∧ current.isPending = true ∧
        (acknowledge db now run message).messages = (db.messages.map fun row =>
          if row.id = current.id then { row with status := .delivered } else row) ∧
        (acknowledge db now run message).questions =
          ((current.questionId.bind db.question?).elim db fun question =>
            db.saveQuestion { question with blocking := false, status := .answered }).questions := by
  unfold acknowledge
  split
  · exact .inl rfl
  · split
    · exact .inl rfl
    · rename_i chat _ current found
      obtain rfl : current.id = message := (mem_of_find found).2
      split
      · exact .inl rfl
      · rename_i unsettled
        have pending : current.isPending = true := by
          cases status : current.status <;> simp [status] at unsettled <;>
            simp [Message.isPending, status]
        have rows : (db.putMessage { current with status := .delivered }).messages =
            db.messages.map fun row =>
              if row.id = current.id then { row with status := .delivered } else row := by
          rw [@putMessage_of_found db { current with status := .delivered } current found]
          refine List.map_congr_left fun row member => ?_
          split
          · rename_i same
            obtain rfl := eq_of_found keyed member (same ▸ found)
            rfl
          · rfl
        refine .inr ⟨current, found, pending, ?_, ?_⟩
        · cases current.questionId.bind db.question? <;> exact rows
        · cases current.questionId.bind db.question? <;> rfl

/-- The delivered answer settles its question. -/
theorem delivered_keeps {request : Request} {message : Message} {question : Question}
    (linked : db.Linked) (stored : message ∈ db.messages) (pending : message.isPending = true)
    (carries : message.questionId = some question.id)
    (found : db.question? question.id = some question)
    (messages : next.messages = db.messages.map fun row =>
      if row.id = message.id then { row with status := .delivered } else row)
    (questions : next.questions = (db.saveQuestion
      { question with blocking := false, status := .answered }).questions) :
    Keeps request db next := by
  have known := (mem_of_find found).1
  have owner : question.status = .answering ∧ question.messageId = some message.id := by
    obtain ⟨own, isOwn, same, rest⟩ := linked.carried message stored _ carries pending
    exact question_unique linked isOwn known same ▸ rest
  have rows := questions.trans (saveQuestion_of_found (by exact found))
  have isKnown : ∀ other, other ∈ next.questions ↔
      other = { question with blocking := false, status := .answered } ∨
        other ∈ db.questions ∧ other.id ≠ question.id := fun other => by
    rw [rows]
    exact mem_replace found
  have isStored : ∀ other, other ∈ next.messages ↔
      other = { message with status := .delivered } ∨ other ∈ db.messages ∧ other.id ≠ message.id :=
    fun other => by
      rw [messages]
      constructor
      · intro replaced
        obtain ⟨row, member, rfl⟩ := List.mem_map.mp replaced
        split
        · rename_i same
          exact .inl (by rw [message_unique linked member stored same])
        · rename_i different
          exact .inr ⟨member, different⟩
      · rintro (rfl | ⟨member, different⟩)
        · exact List.mem_map.mpr ⟨message, stored, if_pos rfl⟩
        · exact List.mem_map.mpr ⟨other, member, if_neg different⟩
  -- No answer of the question was delivered before.
  have first : ∀ other ∈ db.messages, other.questionId = some question.id →
      other.status ≠ .delivered := fun other member carried delivered => by
    obtain ⟨own, isOwn, same, answered⟩ :=
      linked.delivered other member question.id carried delivered
    simp [question_unique linked isOwn known same, owner.1] at answered
  have closed : ∀ other ∈ db.questions, other.isOpen = false → other.id ≠ question.id :=
    fun other member closed same => by
      simp [question_unique linked member known same, Question.isOpen, owner.1] at closed
  refine ⟨⟨?_, rows ▸ keyed_replace linked.questions, ?_, ?_, ?_, ?_, ?_, ?_⟩, ?_, ?_, ?_⟩
  · rw [messages]
    exact keyed_map linked.messages fun row => by split <;> rfl
  · intro other member answering
    rcases (isKnown other).mp member with rfl | ⟨member, different⟩
    · simp at answering
    · obtain ⟨own, isOwn, named, isPending, carried⟩ := linked.answering other member answering
      refine ⟨own, (isStored own).mpr (.inr ⟨isOwn, fun same => different ?_⟩), named, isPending,
        carried⟩
      rw [message_unique linked isOwn stored same, carries] at carried
      exact (Option.some.inj carried).symm
  · intro other member id isCarried isPending
    rcases (isStored other).mp member with rfl | ⟨member, different⟩
    · simp [Message.isPending] at isPending
    · obtain ⟨own, isOwn, rfl, answering, named⟩ :=
        linked.carried other member id isCarried isPending
      refine ⟨own, (isKnown own).mpr (.inr ⟨isOwn, fun same => different ?_⟩), rfl, answering, named⟩
      rw [question_unique linked isOwn known same, owner.2] at named
      exact (Option.some.inj named).symm
  · intro other member answered
    rcases (isKnown other).mp member with rfl | ⟨member, _⟩
    · exact ⟨_, (isStored _).mpr (.inl rfl), rfl, carries⟩
    · obtain ⟨own, isOwn, delivered, carried⟩ := linked.answered other member answered
      refine ⟨own, (isStored own).mpr (.inr ⟨isOwn, fun same => ?_⟩), delivered, carried⟩
      rw [message_unique linked isOwn stored same] at delivered
      simp [Message.isPending, delivered] at pending
  · intro other member id isCarried delivered
    rcases (isStored other).mp member with rfl | ⟨member, _⟩
    · exact ⟨_, (isKnown _).mpr (.inl rfl), Option.some.inj (carries.symm.trans isCarried), rfl⟩
    · obtain ⟨own, isOwn, rfl, answered⟩ := linked.delivered other member id isCarried delivered
      exact ⟨own, (isKnown own).mpr (.inr ⟨isOwn, closed own isOwn (by
        simp [Question.isOpen, answered])⟩), rfl, answered⟩
  · intro one isOne two isTwo id carriesOne carriesTwo deliveredOne deliveredTwo
    rcases (isStored one).mp isOne with rfl | ⟨isOne, _⟩
    · rcases (isStored two).mp isTwo with rfl | ⟨isTwo, _⟩
      · rfl
      · obtain rfl := Option.some.inj (carries.symm.trans carriesOne)
        exact absurd deliveredTwo (first two isTwo carriesTwo)
    · rcases (isStored two).mp isTwo with rfl | ⟨isTwo, _⟩
      · obtain rfl := Option.some.inj (carries.symm.trans carriesTwo)
        exact absurd deliveredOne (first one isOne carriesOne)
      · exact linked.single one isOne two isTwo id carriesOne carriesTwo deliveredOne deliveredTwo
  · intro other member isClosed
    rcases (isKnown other).mp member with rfl | ⟨member, _⟩
    · rfl
    · exact linked.blocking other member isClosed
  · intro other member delivered
    refine ⟨other, (isStored other).mpr (.inr ⟨member, fun same => ?_⟩), rfl, rfl, delivered⟩
    rw [message_unique linked member stored same] at delivered
    simp [Message.isPending, delivered] at pending
  · exact fun other member isClosed =>
      ⟨other, (isKnown other).mpr (.inr ⟨member, closed other member isClosed⟩), rfl, rfl⟩
  · intro other member cancelled
    rcases (isKnown other).mp member with rfl | ⟨member, _⟩
    · simp at cancelled
    · exact .inl ⟨other, member, rfl, cancelled⟩

theorem acknowledge_keeps {request : Request} (linked : db.Linked) (now : Int)
    (run message : String) : Keeps request db (acknowledge db now run message) := by
  rcases acknowledge_stores linked.messages now run message with same |
    ⟨current, found, pending, messages, questions⟩
  · rw [same]
    exact .of_same linked rfl rfl
  · obtain ⟨stored, rfl⟩ := mem_of_find found
    cases isQuestion : current.questionId with
    | none =>
        rw [isQuestion] at questions
        refine .of_map linked messages (questions.trans (List.map_id' _).symm) (fun row member => ?_)
          fun question _ => .refl question
        split
        · rename_i same
          obtain rfl := message_unique linked member stored same
          exact ⟨rfl, rfl, fun carries => by simp [isQuestion] at carries, fun _ => rfl,
            fun carries => by simp [isQuestion] at carries⟩
        · exact .refl row
    | some id =>
        obtain ⟨question, known, rfl, _⟩ := linked.carried current stored id isQuestion pending
        have isFound : db.question? question.id = some question :=
          find_of_mem linked.questions known
        rw [isQuestion, Option.bind_some, isFound] at questions
        exact delivered_keeps linked stored pending isQuestion isFound messages questions

/-- A message that moves between the queue and the sender keeps its link. -/
theorem sameLink_of_pending {message : Message} {status : MessageStatus}
    (before : message.isPending = true) (after : status = .queued ∨ status = .sending) :
    message.SameLink { message with status } := by
  have open_ : message.status ≠ .delivered := fun delivered => by
    simp [Message.isPending, delivered] at before
  refine ⟨rfl, rfl, fun _ => (isPending_iff.mpr after).trans before.symm,
    fun delivered => absurd delivered open_, fun _ delivered => ?_⟩
  rcases after with rfl | rfl <;> simp at delivered

theorem claimSteering_keeps {request : Request} (linked : db.Linked) (paused : Bool)
    (delivering : Option String) : Keeps request db (claimSteering db paused delivering).1 := by
  unfold claimSteering
  split
  · exact .of_same linked rfl rfl
  · refine .of_map linked rfl (List.map_id' _).symm (fun message _ => ?_)
      fun question _ => .refl question
    split
    · rename_i steering
      simp only [Message.isSteering, Bool.and_eq_true] at steering
      exact sameLink_of_pending steering.1.1.2 (.inr rfl)
    · exact .refl message

theorem nextQueued_keeps {request : Request} (linked : db.Linked) :
    Keeps request db (nextQueued db).1 := by
  refine .of_map linked rfl (List.map_id' _).symm (fun message _ => ?_)
    fun question _ => .refl question
  split
  · rename_i sending
    exact sameLink_of_pending (isPending_iff.mpr (.inr sending)) (.inl rfl)
  · exact .refl message

/-! ### Deletion -/

/-- What a deletion stores. -/
theorem trash_stores {now : Int} {confirmed : Bool} (ok : trash db now confirmed = .ok next) :
    next = db ∨ ∃ chat deleted, db.chat = some chat ∧ chat.inTrash = false ∧
      next.chat = some deleted ∧ deleted.lifecycle = .trash ∧
      next.messages = (cancelPendingInput db).messages ∧
      next.questions = (cancelPendingInput db).questions := by
  unfold trash at ok
  obtain ⟨chat, isChat, entered⟩ := bind_eq_ok.mp ok
  split at entered
  · exact .inl (Except.ok.inj entered).symm
  · rename_i present
    dsimp only at entered
    split at entered
    · simp at entered
    · obtain rfl := Except.ok.inj entered
      refine .inr ⟨chat, _, getChat_eq_ok.mp isChat, Bool.eq_false_iff.mpr present, rfl, rfl,
        (@requestStop_keeps (cancelPendingInput db) chat now).messages, ?_⟩
      simp only [Db.putChat, requestStop]
      split
      · split <;> rfl
      · rfl

/-- A deletion cancels what is open on both sides. -/
theorem trash_keeps {now : Int} {confirmed : Bool} (linked : db.Linked)
    (ok : trash db now confirmed = .ok next) : Keeps (.trash now confirmed) db next := by
  rcases trash_stores ok with rfl |
    ⟨chat, deleted, isChat, present, isDeleted, lifecycle, messages, questions⟩
  · exact .of_same linked rfl rfl
  have isStored : ∀ later ∈ next.messages, later.isPending = false ∧
      (later.status ≠ .cancelled → later ∈ db.messages) := fun later member => by
    obtain ⟨message, stored, rfl⟩ := List.mem_map.mp (messages ▸ member)
    split
    · exact ⟨rfl, fun kept => absurd rfl kept⟩
    · rename_i settled
      exact ⟨Bool.eq_false_iff.mpr settled, fun _ => stored⟩
  have isKnown : ∀ later ∈ next.questions, later.isOpen = false ∧
      (later.status ≠ .cancelled → later ∈ db.questions) ∧
      (later ∈ db.questions ∨ later.blocking = false) := fun later member => by
    obtain ⟨question, known, rfl⟩ := List.mem_map.mp (questions ▸ member)
    split
    · exact ⟨rfl, fun kept => absurd rfl kept, .inr rfl⟩
    · rename_i settled
      exact ⟨Bool.eq_false_iff.mpr settled, fun _ => known, .inl known⟩
  have keptMessage : ∀ message ∈ db.messages, message.status = .delivered →
      message ∈ next.messages := fun message stored delivered => by
    rw [messages]
    exact List.mem_map.mpr ⟨message, stored, if_neg (by simp [Message.isPending, delivered])⟩
  have keptQuestion : ∀ question ∈ db.questions, question.isOpen = false →
      question ∈ next.questions := fun question known closed => by
    rw [questions]
    exact List.mem_map.mpr ⟨question, known, if_neg (by simp [closed])⟩
  refine ⟨⟨?_, ?_, ?_, ?_, ?_, ?_, ?_, ?_⟩, ?_, ?_, ?_⟩
  · rw [messages]
    exact keyed_map linked.messages fun row => by split <;> rfl
  · rw [questions, Keyed, cancelPendingInput, List.map_map]
    refine (List.map_congr_left fun row _ => ?_ : _ = db.questions.map Question.id) ▸
      linked.questions
    dsimp only [Function.comp]
    split <;> rfl
  · intro later member answering
    have closed := (isKnown later member).1
    simp [Question.isOpen, answering] at closed
  · intro later member id _ pending
    rw [(isStored later member).1] at pending
    simp at pending
  · intro later member answered
    obtain ⟨message, stored, delivered, carries⟩ :=
      linked.answered later ((isKnown later member).2.1 (by simp [answered])) answered
    exact ⟨message, keptMessage message stored delivered, delivered, carries⟩
  · intro later member id carries delivered
    obtain ⟨question, known, named, answered⟩ := linked.delivered later
      ((isStored later member).2 (by simp [delivered])) id carries delivered
    exact ⟨question, keptQuestion question known (by simp [Question.isOpen, answered]), named,
      answered⟩
  · intro first isFirst second isSecond id carriesFirst carriesSecond deliveredFirst deliveredSecond
    exact linked.single first ((isStored first isFirst).2 (by simp [deliveredFirst])) second
      ((isStored second isSecond).2 (by simp [deliveredSecond])) id carriesFirst carriesSecond
      deliveredFirst deliveredSecond
  · intro later member closed
    rcases (isKnown later member).2.2 with known | unblocked
    · exact linked.blocking later known closed
    · exact unblocked
  · exact fun message stored delivered =>
      ⟨message, keptMessage message stored delivered, rfl, rfl, delivered⟩
  · exact fun question known closed => ⟨question, keptQuestion question known closed, rfl, rfl⟩
  · exact fun _ _ _ =>
      .inr ⟨now, confirmed, chat, rfl, isChat, present, deleted, isDeleted, lifecycle⟩

theorem restore_keeps {request : Request} {now : Int} (linked : db.Linked)
    (ok : restore db now = .ok next) : Keeps request db next := by
  unfold restore at ok
  obtain ⟨chat, _, entered⟩ := bind_eq_ok.mp ok
  split at entered
  · simp at entered
  · split at entered
    · simp at entered
    · split at entered
      · simp at entered
      · obtain rfl := Except.ok.inj entered
        exact .of_same linked rfl rfl

/-! ### Runs of requests -/

theorem apply_keeps {request : Request} (linked : db.Linked)
    (applied : request.apply db = .ok next) : Keeps request db next := by
  cases request with
  | receive now run id blocking fields =>
      exact Except.ok.inj applied ▸ receive_keeps linked now run id blocking fields
  | release run id => exact Except.ok.inj applied ▸ release_keeps linked run id
  | answer now question message answers =>
      obtain ⟨⟨_, _⟩, ok, rfl⟩ := map_eq_ok.mp applied
      exact answer_keeps linked ok
  | send now values =>
      obtain ⟨⟨_, _⟩, ok, rfl⟩ := map_eq_ok.mp applied
      exact send_keeps linked ok
  | edit message values => exact @edit_keeps _ _ _ message (some values) linked applied
  | withdraw message => exact @edit_keeps _ _ _ message none linked applied
  | acknowledge now run message =>
      exact Except.ok.inj applied ▸ acknowledge_keeps linked now run message
  | claimSteering paused delivering =>
      exact Except.ok.inj applied ▸ claimSteering_keeps linked paused delivering
  | nextQueued => exact Except.ok.inj applied ▸ nextQueued_keeps linked
  | trash now confirmed => exact trash_keeps linked applied
  | restore now => exact restore_keeps linked applied
  | elsewhere => exact Except.ok.inj applied ▸ .of_same linked rfl rfl

/-- A failed request changes nothing. -/
theorem attempt_keeps {request : Request} (linked : db.Linked) :
    Keeps request db (attempt Request.apply db request) := by
  cases applied : request.apply db with
  | ok next => exact attempt_of_ok applied ▸ apply_keeps linked applied
  | error =>
      rw [attempt_of_error applied]
      exact .of_same linked rfl rfl

theorem after_linked {requests : List Request} (linked : db.Linked) :
    (afterRequests db requests).Linked :=
  runs_invariant (fun _ _ _ holds applied => (apply_keeps holds applied).linked)
    requests linked

end Cairn.Chats

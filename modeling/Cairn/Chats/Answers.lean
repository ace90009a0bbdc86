import Cairn.Chats.Questions

/-!
Owns what a question and its answers say about each other after any requests on a chat:
what each status means for the messages, what a deletion leaves for good and how often an
answer is delivered.

Does not own what one request changes.
-/

set_option autoImplicit false

namespace Cairn.Chats

open Cairn.Library.Transactions

/-! ### What the statuses mean -/

/-- The answers of a question that were delivered. -/
def Db.deliveredAnswers (db : Db) (id : String) : List Message :=
  db.messages.filter fun message => message.questionId = some id && message.status = .delivered

/-- Questions and messages tell the same. -/
structure Db.Agrees (db : Db) : Prop where
  answering : ∀ question ∈ db.questions, (question.status = .answering ↔
    ∃ message ∈ db.messages, question.messageId = some message.id ∧ message.isPending = true ∧
      message.questionId = some question.id)
  answered : ∀ question ∈ db.questions,
    (question.status = .answered ↔ (db.deliveredAnswers question.id).length = 1)
  pending : ∀ question ∈ db.questions, (question.status = .pending ↔
    question.status ≠ .cancelled ∧ ∀ message ∈ db.messages,
      message.questionId = some question.id → message.status = .cancelled)
  delivered : ∀ id, (db.deliveredAnswers id).length ≤ 1
  blocking : ∀ question ∈ db.questions,
    question.status = .answered ∨ question.status = .cancelled → question.blocking = false

variable {db : Db}

theorem mem_deliveredAnswers {id : String} {message : Message} :
    message ∈ db.deliveredAnswers id ↔ message ∈ db.messages ∧ message.questionId = some id ∧
      message.status = .delivered := by
  simp [Db.deliveredAnswers]

/-- At most one row satisfies what only one row satisfies. -/
theorem deliveredAnswers_le (linked : db.Linked) (id : String) :
    (db.deliveredAnswers id).length ≤ 1 := by
  have distinct : (db.deliveredAnswers id).Nodup := linked.messages.of_map.filter _
  rcases answers : db.deliveredAnswers id with _ | ⟨first, _ | ⟨second, rest⟩⟩
  · simp
  · simp
  · obtain ⟨isFirst, carriesFirst, deliveredFirst⟩ := mem_deliveredAnswers.mp (by
      rw [answers]
      exact List.mem_cons_self : first ∈ db.deliveredAnswers id)
    obtain ⟨isSecond, carriesSecond, deliveredSecond⟩ := mem_deliveredAnswers.mp (by
      rw [answers]
      simp : second ∈ db.deliveredAnswers id)
    have same := message_unique linked isFirst isSecond (linked.single first isFirst second isSecond
      id carriesFirst carriesSecond deliveredFirst deliveredSecond)
    rw [answers, same] at distinct
    simp at distinct

theorem Db.Linked.agrees (linked : db.Linked) : db.Agrees := by
  have unanswered : ∀ question ∈ db.questions, question.status ≠ .answered →
      ∀ message ∈ db.messages, message.questionId = some question.id →
        message.status ≠ .delivered := fun question known status message stored carries delivered => by
    obtain ⟨own, isOwn, same, answered⟩ :=
      linked.delivered message stored question.id carries delivered
    exact status (question_unique linked isOwn known same ▸ answered)
  have unlinked : ∀ question ∈ db.questions, question.status ≠ .answering →
      ∀ message ∈ db.messages, message.questionId = some question.id →
        message.isPending = false := fun question known status message stored carries => by
    rw [Bool.eq_false_iff]
    intro pending
    obtain ⟨own, isOwn, same, answering, _⟩ :=
      linked.carried message stored question.id carries pending
    exact status (question_unique linked isOwn known same ▸ answering)
  refine ⟨fun question known => ⟨linked.answering question known, ?_⟩, fun question known => ?_,
    fun question known => ⟨fun pending => ⟨by simp [pending], fun message stored carries => ?_⟩,
      ?_⟩, deliveredAnswers_le linked, fun question known settled => ?_⟩
  · rintro ⟨message, stored, _, pending, carries⟩
    by_contra status
    rw [unlinked question known status message stored carries] at pending
    simp at pending
  · constructor
    · intro answered
      obtain ⟨message, stored, delivered, carries⟩ := linked.answered question known answered
      have found := List.length_pos_of_mem (mem_deliveredAnswers.mpr ⟨stored, carries, delivered⟩)
      have atMost := deliveredAnswers_le linked question.id
      omega
    · intro single
      obtain ⟨message, alone⟩ := List.length_eq_one_iff.mp single
      obtain ⟨stored, carries, delivered⟩ := mem_deliveredAnswers.mp (by
        rw [alone]
        exact List.mem_singleton_self _ : message ∈ db.deliveredAnswers question.id)
      by_contra status
      exact unanswered question known status message stored carries delivered
  · have open_ := unlinked question known (by simp [pending]) message stored carries
    have undelivered := unanswered question known (by simp [pending]) message stored carries
    cases status : message.status <;> simp_all [Message.isPending]
  · rintro ⟨kept, settled⟩
    cases status : question.status with
    | pending => rfl
    | answering =>
        obtain ⟨message, stored, _, pending, carries⟩ := linked.answering question known status
        simp [Message.isPending, settled message stored carries] at pending
    | answered =>
        obtain ⟨message, stored, delivered, carries⟩ := linked.answered question known status
        simp [settled message stored carries] at delivered
    | cancelled => exact absurd status kept
  · refine linked.blocking question known ?_
    rcases settled with status | status <;> simp [Question.isOpen, status]

/-! ### What a run keeps -/

/-- What questions and answers tell in every state of a run, and what lasts. -/
structure QuestionsAgree (initial : Db) (requests : List Request) : Prop where
  agrees : ∀ before after, requests = before ++ after → (afterRequests initial before).Agrees
  deletion : ∀ before after, requests = before ++ after →
    ∀ question ∈ (afterRequests initial before).questions, question.status = .cancelled →
    ∃ earlier now confirmed later chat deleted, before = earlier ++ .trash now confirmed :: later ∧
      (afterRequests initial earlier).chat = some chat ∧ chat.inTrash = false ∧
      (afterRequests initial (earlier ++ [.trash now confirmed])).chat = some deleted ∧
      deleted.lifecycle = .trash
  lasting : ∀ before middle after, requests = before ++ middle ++ after →
    ∀ question ∈ (afterRequests initial before).questions,
    question.status = .answered ∨ question.status = .cancelled →
    ∃ later ∈ (afterRequests initial (before ++ middle)).questions, later.id = question.id ∧
      later.status = question.status ∧ later.blocking = false
  once : ∀ before middle after, requests = before ++ middle ++ after →
    ∀ id, ∀ first ∈ (afterRequests initial before).deliveredAnswers id,
    ∀ second ∈ (afterRequests initial (before ++ middle)).deliveredAnswers id,
    first.id = second.id

theorem afterRequests_append (first second : List Request) :
    afterRequests db (first ++ second) = afterRequests (afterRequests db first) second :=
  runs_append db first second

theorem afterRequests_concat (earlier : List Request) (request : Request) :
    afterRequests db (earlier ++ [request]) =
      attempt Request.apply (afterRequests db earlier) request :=
  afterRequests_append earlier [request]

theorem empty_linked (messages : db.messages = []) (questions : db.questions = []) :
    db.Linked := by
  constructor <;> simp [messages, questions, Cairn.Library.Records.Keyed]

/-- What is settled stays settled. -/
theorem settled_lasts {requests : List Request} (linked : db.Linked) {question : Question}
    (known : question ∈ db.questions) (closed : question.isOpen = false) :
    ∃ later ∈ (afterRequests db requests).questions, later.id = question.id ∧
      later.status = question.status := by
  induction requests generalizing db question with
  | nil => exact ⟨question, known, rfl, rfl⟩
  | cons request rest inductionHypothesis =>
      have keeps := @attempt_keeps db request linked
      obtain ⟨later, isLater, same, status⟩ := keeps.settles.settled question known closed
      obtain ⟨last, isLast, sameLast, statusLast⟩ := inductionHypothesis keeps.linked isLater
        (by rw [← closed, Question.isOpen, Question.isOpen, status])
      exact ⟨last, isLast, sameLast.trans same, statusLast.trans status⟩

/-- A delivered message stays delivered. -/
theorem delivered_lasts {requests : List Request} (linked : db.Linked) {message : Message}
    (stored : message ∈ db.messages) (delivered : message.status = .delivered) :
    ∃ later ∈ (afterRequests db requests).messages, later.id = message.id ∧
      later.questionId = message.questionId ∧ later.status = .delivered := by
  induction requests generalizing db message with
  | nil => exact ⟨message, stored, rfl, rfl, delivered⟩
  | cons request rest inductionHypothesis =>
      have keeps := @attempt_keeps db request linked
      obtain ⟨later, isLater, same, carries, status⟩ :=
        keeps.settles.delivered message stored delivered
      obtain ⟨last, isLast, sameLast, carriesLast, statusLast⟩ :=
        inductionHypothesis keeps.linked isLater status
      exact ⟨last, isLast, sameLast.trans same, carriesLast.trans carries, statusLast⟩

/-- A cancelled question was cancelled by a deletion. -/
theorem cancelled_by_trash {initial : Db} {requests : List Request} (linked : initial.Linked)
    (none : initial.questions = []) {question : Question}
    (known : question ∈ (afterRequests initial requests).questions)
    (cancelled : question.status = .cancelled) :
    ∃ earlier now confirmed later chat deleted,
      requests = earlier ++ .trash now confirmed :: later ∧
      (afterRequests initial earlier).chat = some chat ∧ chat.inTrash = false ∧
      (afterRequests initial (earlier ++ [.trash now confirmed])).chat = some deleted ∧
      deleted.lifecycle = .trash := by
  induction requests using List.reverseRecOn generalizing question with
  | nil =>
      change question ∈ initial.questions at known
      simp [none] at known
  | append_singleton earlier request inductionHypothesis =>
      have keeps := @attempt_keeps _ request (@after_linked initial earlier linked)
      rw [afterRequests_concat] at known
      rcases keeps.settles.cancelled question known cancelled with
        ⟨before, isBefore, _, wasCancelled⟩ |
        ⟨now, confirmed, chat, rfl, isChat, present, deleted, isDeleted, lifecycle⟩
      · obtain ⟨first, now, confirmed, later, chat, deleted, rfl, rest⟩ :=
          inductionHypothesis isBefore wasCancelled
        exact ⟨first, now, confirmed, later ++ [request], chat, deleted, by simp, rest⟩
      · exact ⟨earlier, now, confirmed, [], chat, deleted, rfl, isChat, present,
          by rw [afterRequests_concat, isDeleted], lifecycle⟩

/-- Questions and answers agree in every state of every run, what is settled lasts, and no
second answer of a question is delivered. -/
theorem questions_agree {initial : Db} (requests : List Request)
    (messages : initial.messages = []) (questions : initial.questions = []) :
    QuestionsAgree initial requests := by
  have linked : ∀ before, (afterRequests initial before).Linked :=
    fun _ => after_linked (empty_linked messages questions)
  refine ⟨fun before _ _ => (linked before).agrees, ?_, ?_, ?_⟩
  · intro before after _ question known cancelled
    exact cancelled_by_trash (empty_linked messages questions) questions known cancelled
  · intro before middle after _ question known settled
    have closed : question.isOpen = false := by
      rcases settled with status | status <;> simp [Question.isOpen, status]
    rw [afterRequests_append]
    obtain ⟨later, isLater, same, status⟩ := @settled_lasts _ middle (linked before) _ known closed
    refine ⟨later, isLater, same, status, ?_⟩
    refine (after_linked (linked before)).blocking later isLater ?_
    rw [← closed, Question.isOpen, Question.isOpen, status]
  · intro before middle after _ id first isFirst second isSecond
    obtain ⟨stored, carries, delivered⟩ := mem_deliveredAnswers.mp isFirst
    obtain ⟨later, isLater, same, sameQuestion, status⟩ :=
      @delivered_lasts _ middle (linked before) _ stored delivered
    rw [← afterRequests_append] at isLater
    obtain ⟨isSecond, carriesSecond, deliveredSecond⟩ := mem_deliveredAnswers.mp isSecond
    rw [← same]
    exact (linked (before ++ middle)).single later isLater second isSecond id
      (sameQuestion.trans carries) carriesSecond status deliveredSecond

/-! ### A question that is cancelled before it is answered -/

/-- A chat with a run. -/
def askedChat : Db where
  chat := some { id := "chat", agentId := "agent", runId := some "run" }
  agents := [chatAgent]

/-- A question that a deletion cancels before anyone answers it. -/
def cancelledUnanswered : List Request :=
  [.receive 1 "run" "question" true [⟨"field", "Which?", false⟩], .trash 2 true]

theorem cancelled_before_answered :
    ¬ ∀ (initial : Db) (requests : List Request), initial.messages = [] →
      initial.questions = [] → ∀ question ∈ (afterRequests initial requests).questions,
        (question.status = .pending ↔ ∀ message ∈ (afterRequests initial requests).messages,
          message.questionId = some question.id → message.status = .cancelled) := by
  intro claimed
  have literal := claimed askedChat cancelledUnanswered rfl rfl
  exact absurd literal (by decide)

/-- An answer that is withdrawn, sent again and delivered, and its question repeated. -/
def answeredTwice : List Request :=
  [.receive 1 "run" "question" true [⟨"field", "Which?", false⟩],
    .answer 2 "question" "first" [("field", ["This"])], .withdraw "first",
    .answer 3 "question" "second" [("field", ["That"])], .claimSteering false none,
    .acknowledge 4 "run" "second", .receive 5 "run" "question" true [], .trash 6 true]

theorem questions_agree_answered_twice :
    (afterRequests askedChat answeredTwice).questions.map Question.status = [.answered] ∧
      QuestionsAgree askedChat answeredTwice :=
  ⟨by decide, questions_agree answeredTwice rfl rfl⟩

end Cairn.Chats

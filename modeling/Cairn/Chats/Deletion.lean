import Cairn.Chats.Lifecycle

/-!
Owns what a deletion leaves behind: when the turn of a chat names a message that was
cancelled, nothing queues its run again and nothing executes it, as long as no further
deletion of the idle chat forgets that.

Does not own the messages themselves.
-/

set_option autoImplicit false

namespace Cairn.Chats

open Cairn.Library.Records
open Cairn.Library.Results
open Cairn.Library.Steps
open Cairn.Worker

/-! ### Cancelled turns -/

/-- A run names a message that was cancelled. -/
def Db.CancelledTurn (db : Db) (run : Run) : Prop :=
  ∃ turn message, run.chatExecution = some turn ∧ db.message? turn.messageId = some message ∧
    message.status = .cancelled

/-- The flags that keep `requeue` from replaying. -/
def Chat.refuses (chat : Chat) : Bool := chat.cancelledByDeletion || chat.sessionRestartRequested

/-- A deletion of an idle chat whose run stopped in a cancelled turn that was not replaced,
and which is not marked for a fresh session. -/
def Overwrites (state : State) (step : Step) : Prop :=
  ∃ now confirmed chat run, step = .trash now confirmed ∧ state.db.chat = some chat ∧
    chat.inTrash = false ∧ state.db.busy chat = false ∧ chat.sessionRestartRequested = false ∧
    state.db.chatRun? chat = some run ∧ run.status.isResumable = true ∧
    state.db.CancelledTurn run

variable {db next : Db} {state after : State}

/-- What a step may do to the run of a chat. -/
structure RunKept (run later : Run) : Prop where
  turn : later.chatExecution = run.chatExecution
  succeeded : run.status = .succeeded → later.status = .succeeded
  active : later.status.isActive = true → run.status.isActive = true ∧
    (run.cancelRequestedAt.isSome = true → later.cancelRequestedAt.isSome = true)
  queued : later.status = .queued → run.status = .queued ∧
    (run.recoveryPending = true → later.recoveryPending = true)

theorem RunKept.refl (run : Run) : RunKept run run :=
  ⟨rfl, id, fun active => ⟨active, id⟩, fun queued => ⟨queued, id⟩⟩

/-- What keeps the cancelled turn of a run from being replayed. -/
structure Held (chat : Chat) (run : Run) : Prop where
  flagged : run.status = .succeeded ∨ chat.refuses = true
  requested : run.status.isActive = true → run.cancelRequestedAt.isSome = true
  pending : run.status = .queued → run.recoveryPending = true

theorem Held.kept {chat later : Chat} {run next : Run} (held : Held chat run)
    (kept : RunKept run next) (refuses : chat.refuses = true → later.refuses = true) :
    Held later next :=
  ⟨held.flagged.imp kept.succeeded refuses,
    fun active => (kept.active active).2 (held.requested (kept.active active).1),
    fun queued => (kept.queued queued).2 (held.pending (kept.queued queued).1)⟩

/-- The state of the scheduler agrees with the run of the chat, and a cancelled turn is
refused until it is replaced. -/
structure State.Sound (state : State) : Prop where
  keyed : Keyed Message.id state.db.messages
  executing : ∀ chat id, state.db.chat = some chat → state.executing = some id →
    chat.runId = some id ∧ ∃ run, state.db.run? id = some run ∧ run.status = .running
  tick : ∀ chat tick, state.db.chat = some chat → state.tick = some tick →
    state.executing = none ∧ tick.run.map Run.id = chat.runId
  held : ∀ chat run, state.db.chat = some chat → state.db.chatRun? chat = some run →
    state.db.CancelledTurn run → Held chat run

theorem chatRun_eq_some {chat : Chat} {run : Run} (found : db.chatRun? chat = some run) :
    chat.runId = some run.id ∧ db.run? run.id = some run := by
  obtain ⟨id, isId, known⟩ := Option.bind_eq_some_iff.mp found
  obtain rfl : run.id = id := (mem_of_find known).2
  exact ⟨isId, known⟩

/-- A cancelled turn was cancelled before, unless the step is a deletion. -/
theorem cancelledTurn_before {step : Step} {run later : Run}
    (change : MessageChange step db next) (keyed : Keyed Message.id db.messages)
    (other : ∀ now confirmed, step ≠ .trash now confirmed)
    (turn : later.chatExecution = run.chatExecution) (cancelled : next.CancelledTurn later) :
    db.CancelledTurn run := by
  obtain ⟨execution, message, named, found, status⟩ := cancelled
  obtain ⟨member, isMessage⟩ := mem_of_find found
  obtain ⟨before, stored, same, wasCancelled⟩ := change.cancelled other member status
  refine ⟨execution, before, turn ▸ named, ?_, wasCancelled⟩
  rw [← isMessage, ← same]
  exact find_of_mem keyed stored

/-- What a cancellation stores. -/
theorem cancel_of_ok {id : String} {isActive : Bool} {now : Int}
    (ok : Worker.cancel db id isActive now = .ok next) :
    ∃ run later, db.run? id = some run ∧ run.status.isActive = true ∧
      next = { db with runs := put Run.id later db.runs } ∧ later.id = run.id ∧
      later.chatExecution = run.chatExecution ∧ later.cancelRequestedAt.isSome = true ∧
      ((later.status = run.status ∧ later.recoveryPending = run.recoveryPending ∧
          (isActive = true ∨ run.recoveryPending = true)) ∨
        (later.status = .cancelled ∧ isActive = false)) := by
  unfold Worker.cancel at ok
  split at ok
  · simp at ok
  · rename_i run found
    obtain ⟨later, cancelled, put⟩ := bind_eq_ok.mp ok
    unfold requestCancel at cancelled
    split at cancelled
    · simp at cancelled
    · rename_i active
      have active : run.status.isActive = true := by simpa using active
      refine ⟨run, later, found, active, putRun_of_ok put, ?_⟩
      dsimp only at cancelled
      split at cancelled
      · rename_i settled
        obtain rfl := Except.ok.inj cancelled
        exact ⟨rfl, rfl, rfl, .inr ⟨rfl, by simp at settled; exact settled.1⟩⟩
      · rename_i settled
        obtain rfl := Except.ok.inj cancelled
        refine ⟨rfl, rfl, rfl, .inl ⟨rfl, rfl, ?_⟩⟩
        cases isActive <;> simp_all

/-- An active run is stored again whatever its task. -/
theorem putRun_ok {stored run : Run} (found : db.run? run.id = some stored)
    (active : stored.status.isActive = true) : ∃ next, db.putRun run = .ok next := by
  unfold Db.putRun
  rw [if_neg (by simp [found, active])]
  exact ⟨_, rfl⟩

theorem requestCancel_ok {run : Run} (active : run.status.isActive = true) (isActive : Bool)
    (now : Int) : ∃ later, requestCancel run isActive now = .ok later ∧ later.id = run.id := by
  unfold requestCancel
  rw [if_neg (by simp [active])]
  dsimp only
  split <;> exact ⟨_, rfl, rfl⟩

/-- An active run is always cancelled. -/
theorem cancel_ok {id : String} {run : Run} (found : db.run? id = some run)
    (active : run.status.isActive = true) (isActive : Bool) (now : Int) :
    ∃ next, Worker.cancel db id isActive now = .ok next := by
  obtain rfl : run.id = id := (mem_of_find found).2
  obtain ⟨later, cancelled, named⟩ := requestCancel_ok active isActive now
  obtain ⟨next, stored⟩ := @putRun_ok db run later (named ▸ found) active
  refine ⟨next, ?_⟩
  simp only [Worker.cancel, found]
  exact bind_eq_ok.mpr ⟨later, cancelled, stored⟩

/-- A held run is not queued again. -/
theorem requeue_held {chat : Chat} {run : Run} (isChat : db.chat = some chat)
    (own : chat.runId = some run.id) (found : db.run? run.id = some run)
    (flagged : run.status = .succeeded ∨ chat.refuses = true) :
    ∃ error, requeue db run.id = .error error := by
  have forRun : db.chatForRun run.id = some chat := by
    rw [Db.chatForRun, isChat]
    exact Option.filter_eq_some_iff.mpr ⟨rfl, by simpa using own⟩
  unfold requeue
  simp only [found, forRun, Option.any_some]
  cases active : chat.isActive with
  | false => exact ⟨_, rfl⟩
  | true =>
      rw [if_neg (by simp)]
      split
      · exact ⟨_, rfl⟩
      · rename_i unflagged
        -- A run that succeeded has nothing to go on with.
        have succeeded : run.status = .succeeded := flagged.resolve_right unflagged
        have starts : beforeLaunch run (db.checkpoints run.id) = false := by
          simp [beforeLaunch, succeeded]
        have saved : resumable run (db.checkpoints run.id) = false := by
          simp [resumable, succeeded, RunStatus.isResumable]
        rw [starts, saved]
        exact ⟨_, rfl⟩

/-- What `requeue` stores. -/
theorem requeue_of_ok {id : String} (ok : requeue db id = .ok next) :
    ∃ run later, db.run? id = some run ∧ later.id = run.id ∧
      later.chatExecution = run.chatExecution ∧ next.runs = put Run.id later db.runs ∧
      next.chat = db.chat := by
  unfold requeue at ok
  split at ok
  · simp at ok
  · rename_i run found
    dsimp only at ok
    split at ok
    · simp at ok
    · split at ok
      · simp at ok
      · split at ok
        · simp at ok
        · split at ok
          · simp at ok
          · refine ⟨run, resumedRun run (beforeLaunch run (db.checkpoints id)), found, rfl, rfl,
              ?_, ?_⟩
            · rw [putRun_of_ok ok]
              split <;> rfl
            · rw [putRun_of_ok ok]
              split <;> rfl

/-- What `request_new_session` stores. -/
theorem requestNewSession_of_ok (ok : requestNewSession db = .ok next) :
    ∃ chat run later stopped, db.chat = some chat ∧ db.chatRun? chat = some run ∧
      run.status.isActive = false ∧ next.chat = some later ∧ later.runId = chat.runId ∧
      later.refuses = true ∧ next.runs = put Run.id stopped db.runs ∧ stopped.id = run.id ∧
      stopped.chatExecution = run.chatExecution ∧ stopped.status = run.status := by
  unfold requestNewSession at ok
  obtain ⟨chat, isChat, entered⟩ := bind_eq_ok.mp ok
  obtain ⟨_, _, requested⟩ := bind_eq_ok.mp entered
  clear ok entered
  split at requested
  · simp at requested
  · rename_i run found
    split at requested
    · simp at requested
    · rename_i failed
      split at requested
      · simp at requested
      · obtain ⟨stopped, isStopped, stored⟩ := bind_eq_ok.mp requested
        obtain rfl := Except.ok.inj stored
        have inactive : run.status.isActive = false := by
          simp only [Bool.not_eq_true', Bool.not_eq_false, Bool.and_eq_true, Bool.or_eq_true,
            decide_eq_true_eq] at failed
          rcases failed.2 with status | status <;> rw [status] <;> rfl
        refine ⟨chat, run, _, { run with sessionId := none, resumeAvailable := false },
          getChat_eq_ok.mp isChat, found, inactive, rfl, rfl, by simp [Chat.refuses], ?_, rfl, rfl,
          rfl⟩
        rw [putRun_of_ok isStopped]
        rfl

/-- What a deletion stores. -/
theorem trash_of_ok {now : Int} {confirmed : Bool} (ok : trash db now confirmed = .ok next) :
    ∃ chat, db.chat = some chat ∧ ((chat.inTrash = true ∧ next = db) ∨
      (chat.inTrash = false ∧ next.runs = (requestStop (cancelPendingInput db) chat now).runs ∧
        next.messages = (cancelPendingInput db).messages ∧
        ∃ later, next.chat = some later ∧ later.runId = chat.runId ∧
          later.cancelledByDeletion = db.busy chat ∧
          later.sessionRestartRequested = chat.sessionRestartRequested)) := by
  unfold trash at ok
  obtain ⟨chat, isChat, entered⟩ := bind_eq_ok.mp ok
  refine ⟨chat, getChat_eq_ok.mp isChat, ?_⟩
  split at entered
  · rename_i deleted
    exact .inl ⟨deleted, (Except.ok.inj entered).symm⟩
  · rename_i present
    dsimp only at entered
    split at entered
    · simp at entered
    · obtain rfl := Except.ok.inj entered
      have messages := (@requestStop_keeps (cancelPendingInput db) chat now).messages
      exact .inr ⟨Bool.eq_false_iff.mpr present, rfl, messages, _, rfl, rfl, rfl, rfl⟩

/-- What a launch attempt does with a run. -/
theorem tryLaunch_run (run : Run) (checkpoint : Option RunCheckpoint) (admission : Admission)
    (now : Int) : (tryLaunch run checkpoint admission now).1.id = run.id ∧
      (tryLaunch run checkpoint admission now).1.chatExecution = run.chatExecution ∧
      ((tryLaunch run checkpoint admission now).2 = true →
        (tryLaunch run checkpoint admission now).1.status = .running) := by
  have recovered : (recover run checkpoint now).1.id = run.id ∧
      (recover run checkpoint now).1.chatExecution = run.chatExecution := by
    unfold recover
    split
    · exact ⟨rfl, rfl⟩
    · split
      · exact ⟨rfl, rfl⟩
      · split <;> exact ⟨rfl, rfl⟩
  unfold tryLaunch
  split
  · exact ⟨rfl, rfl, by simp⟩
  · split
    · exact ⟨rfl, rfl, by simp⟩
    · dsimp only
      generalize isKept : (if run.recoveryPending = true then recover run checkpoint now
        else (run, true)) = kept
      have same : kept.1.id = run.id ∧ kept.1.chatExecution = run.chatExecution := by
        subst isKept
        split
        · exact recovered
        · exact ⟨rfl, rfl⟩
      split
      · exact ⟨same.1, same.2, by simp⟩
      · exact ⟨same.1, same.2, fun _ => rfl⟩

/-- A run whose cancellation was requested is not launched again. -/
theorem tryLaunch_refused {run : Run} (checkpoint : Option RunCheckpoint) (admission : Admission)
    (now : Int) (requested : run.status.isActive = true → run.cancelRequestedAt.isSome = true)
    (pending : run.status = .queued → run.recoveryPending = true) :
    (tryLaunch run checkpoint admission now).2 = false ∧
      RunKept run (tryLaunch run checkpoint admission now).1 := by
  unfold tryLaunch
  split
  · exact ⟨rfl, .refl run⟩
  · rename_i queued
    have queued : run.status = .queued := not_not.mp queued
    split
    · exact ⟨rfl, rfl, id, fun active => ⟨active, id⟩, fun queued => ⟨queued, id⟩⟩
    · rw [if_pos (pending queued), recover, if_pos (requested (by rw [queued]; rfl))]
      exact ⟨rfl, rfl, fun succeeded => by simp [queued] at succeeded,
        fun active => by simp [cancelledRecovery, RunStatus.isActive] at active,
        fun queued => by simp [cancelledRecovery] at queued⟩

/-- A chat that is not stored again keeps its run and its flags. -/
theorem chat_kept (same : next.chat = db.chat) (later : Chat) (isLater : next.chat = some later) :
    ∃ chat, db.chat = some chat ∧ later.runId = chat.runId ∧
      (chat.refuses = true → later.refuses = true) :=
  ⟨later, same.symm.trans isLater, rfl, id⟩

/-- A transaction that keeps the runs, and the run and the flags of the chat. -/
structure KeepsRuns (db next : Db) : Prop where
  runs : next.runs = db.runs
  chat : ∀ later, next.chat = some later → ∃ chat, db.chat = some chat ∧
    later.runId = chat.runId ∧ (chat.refuses = true → later.refuses = true)

namespace KeepsRuns

theorem of_eq (runs : next.runs = db.runs) (chat : next.chat = db.chat) : KeepsRuns db next :=
  ⟨runs, chat_kept chat⟩

theorem refl (db : Db) : KeepsRuns db db := of_eq rfl rfl

theorem of_chat {chat later : Chat} (runs : next.runs = db.runs) (isChat : db.chat = some chat)
    (isLater : next.chat = some later) (runId : later.runId = chat.runId)
    (refuses : chat.refuses = true → later.refuses = true) : KeepsRuns db next :=
  ⟨runs, fun other isOther => by
    obtain rfl := Option.some.inj (isLater.symm.trans isOther)
    exact ⟨chat, isChat, runId, refuses⟩⟩

theorem send {now : Int} {values : Values} {answer : Option (Question × Answers)} {sent : Message}
    (ok : send db now values answer = .ok (next, sent)) : KeepsRuns db next := by
  unfold Chats.send at ok
  obtain ⟨chat, isChat, entered⟩ := bind_eq_ok.mp ok
  obtain ⟨_, _, resolved⟩ := bind_eq_ok.mp entered
  obtain ⟨content, _, submitted⟩ := bind_eq_ok.mp resolved
  clear ok entered resolved
  split at submitted
  · dsimp only at submitted
    split at submitted
    · simp at submitted
    · obtain ⟨rfl, _⟩ := Prod.mk.inj (Except.ok.inj submitted)
      exact refl _
  · obtain ⟨_, _, accepted⟩ := bind_eq_ok.mp submitted
    obtain ⟨_, _, stored⟩ := bind_eq_ok.mp accepted
    obtain ⟨rfl, _⟩ := Prod.mk.inj (Except.ok.inj stored)
    cases answer with
    | none => exact of_chat rfl (getChat_eq_ok.mp isChat) rfl rfl id
    | some => exact of_chat rfl (getChat_eq_ok.mp isChat) rfl rfl id

theorem answer {now : Int} {question message : String} {answers : Answers} {stored : Question}
    (ok : answer db now question message answers = .ok (next, stored)) : KeepsRuns db next := by
  unfold Chats.answer at ok
  obtain ⟨_, _, entered⟩ := bind_eq_ok.mp ok
  clear ok
  split at entered
  · simp at entered
  · dsimp only at entered
    split at entered
    · obtain ⟨rfl, _⟩ := Prod.mk.inj (Except.ok.inj entered)
      exact refl _
    · split at entered
      · simp at entered
      · split at entered
        · simp at entered
        · obtain ⟨⟨sent, message⟩, isSent, found⟩ := bind_eq_ok.mp entered
          dsimp only at found
          split at found
          · simp at found
          · obtain ⟨rfl, _⟩ := Prod.mk.inj (Except.ok.inj found)
            exact send isSent

theorem edit {message : String} {values : Option Values} (ok : edit db message values = .ok next) :
    KeepsRuns db next := by
  unfold Chats.edit at ok
  obtain ⟨chat, _, entered⟩ := bind_eq_ok.mp ok
  obtain ⟨_, _, edited⟩ := bind_eq_ok.mp entered
  clear ok entered
  split at edited
  · simp at edited
  · split at edited
    · simp at edited
    · split at edited
      · obtain rfl := Except.ok.inj edited
        unfold withdraw
        split <;> exact of_eq rfl rfl
      · split at edited
        · simp at edited
        · obtain ⟨_, _, validated⟩ := bind_eq_ok.mp edited
          obtain ⟨_, _, stored⟩ := bind_eq_ok.mp validated
          obtain rfl := Except.ok.inj stored
          exact of_eq rfl rfl

theorem acknowledge (now : Int) (run message : String) :
    KeepsRuns db (acknowledge db now run message) := by
  unfold Chats.acknowledge
  split
  · exact refl db
  · rename_i chat isChat
    have present := (Option.filter_eq_some_iff.mp isChat).1
    split
    · exact refl db
    · rename_i current found
      split
      · exact refl db
      · dsimp only
        cases current.questionId.bind db.question? with
        | none => exact of_chat rfl present rfl rfl id
        | some => exact of_chat rfl present rfl rfl id

theorem claimSteering (paused : Bool) (delivering : Option String) :
    KeepsRuns db (claimSteering db paused delivering).1 := by
  unfold Chats.claimSteering
  split
  · exact refl db
  · exact of_eq rfl rfl

theorem chatPause {now : Int} {paused : Bool} (ok : chatPause db now paused = .ok next) :
    KeepsRuns db next := by
  unfold Chats.chatPause at ok
  obtain ⟨chat, isChat, entered⟩ := bind_eq_ok.mp ok
  obtain ⟨_, _, stored⟩ := bind_eq_ok.mp entered
  obtain rfl := Except.ok.inj stored
  exact of_chat rfl (getChat_eq_ok.mp isChat) rfl rfl id

theorem restore {now : Int} (ok : restore db now = .ok next) : KeepsRuns db next := by
  unfold Chats.restore at ok
  obtain ⟨chat, isChat, entered⟩ := bind_eq_ok.mp ok
  split at entered
  · simp at entered
  · split at entered
    · simp at entered
    · split at entered
      · simp at entered
      · obtain rfl := Except.ok.inj entered
        exact of_chat rfl (getChat_eq_ok.mp isChat) rfl rfl id

theorem markPurging {claimed : Bool} (ok : markPurging db = .ok (next, claimed)) :
    KeepsRuns db next := by
  unfold Chats.markPurging at ok
  obtain ⟨chat, isChat, entered⟩ := bind_eq_ok.mp ok
  split at entered
  · obtain ⟨rfl, _⟩ := Prod.mk.inj (Except.ok.inj entered)
    exact refl _
  · obtain ⟨rfl, _⟩ := Prod.mk.inj (Except.ok.inj entered)
    exact of_chat rfl (getChat_eq_ok.mp isChat) rfl rfl id

theorem receive (run : String) (question : Question) : KeepsRuns db (receive db run question) := by
  unfold Chats.receive
  split
  · split <;> exact of_eq rfl rfl
  · exact refl db

end KeepsRuns

/-- What a restart of the worker leaves of a run. -/
theorem restoreAfterRestart_keeps (checkpoint : Option RunCheckpoint) (now : Int) (run : Run) :
    (restoreAfterRestart checkpoint now run).id = run.id ∧
      (restoreAfterRestart checkpoint now run).chatExecution = run.chatExecution ∧
      ∀ chat, Held chat run → Held chat (restoreAfterRestart checkpoint now run) := by
  unfold restoreAfterRestart
  split
  · exact ⟨rfl, rfl, fun _ held => held⟩
  · rename_i active
    have active : run.status.isActive = true := by simpa using active
    have flagged : ∀ chat, Held chat run → chat.refuses = true := fun chat held =>
      held.flagged.resolve_left fun succeeded => by simp [succeeded, RunStatus.isActive] at active
    split
    · split
      · exact ⟨rfl, rfl, fun _ held => ⟨held.flagged, held.requested, fun _ => rfl⟩⟩
      · exact ⟨rfl, rfl, fun _ held => held⟩
    · split
      · exact ⟨rfl, rfl, fun chat held =>
          ⟨.inr (flagged chat held), by simp [RunStatus.isActive], by simp⟩⟩
      · exact ⟨rfl, rfl, fun chat held =>
          ⟨.inr (flagged chat held), fun _ => held.requested active, fun _ => rfl⟩⟩

namespace State.Sound

/-- A chat that is purged has nothing to replay. -/
theorem gone (keyed : Keyed Message.id after.db.messages) (absent : after.db.chat = none) :
    after.Sound :=
  ⟨keyed, fun chat _ isChat => by simp [absent] at isChat,
    fun chat _ isChat => by simp [absent] at isChat,
    fun chat _ isChat => by simp [absent] at isChat⟩

/-- A step that keeps the run of the chat, but for a deletion. -/
theorem frame {step : Step} (sound : state.Sound) (changes : Changes step state.db after.db)
    (other : ∀ now confirmed, step ≠ .trash now confirmed)
    (executing : after.executing = state.executing)
    (tick : after.tick = none ∨ after.tick = state.tick)
    (chats : ∀ later, after.db.chat = some later → ∃ chat, state.db.chat = some chat ∧
      later.runId = chat.runId ∧ (chat.refuses = true → later.refuses = true))
    (runs : ∀ chat id, state.db.chat = some chat → chat.runId = some id →
      ∃ update, after.db.run? id = (state.db.run? id).map update ∧
        ∀ run, state.db.run? id = some run → RunKept run (update run) ∧
          (state.executing = some id → (update run).status = run.status)) : after.Sound := by
  refine ⟨changes.change.keyed sound.keyed, ?_, ?_, ?_⟩
  · intro later id isLater executes
    obtain ⟨chat, isChat, runId, _⟩ := chats later isLater
    rw [executing] at executes
    obtain ⟨own, run, found, running⟩ := sound.executing chat id isChat executes
    obtain ⟨update, known, kept⟩ := runs chat id isChat own
    refine ⟨runId.trans own, update run, ?_, ((kept run found).2 executes).trans running⟩
    rw [known, found]
    rfl
  · intro later isTick isLater ticks
    obtain ⟨chat, isChat, runId, _⟩ := chats later isLater
    rcases tick with gone | same
    · simp [gone] at ticks
    · rw [executing, runId]
      exact sound.tick chat isTick isChat (same ▸ ticks)
  · intro later run isLater found cancelled
    obtain ⟨chat, isChat, runId, refuses⟩ := chats later isLater
    obtain ⟨own, known⟩ := chatRun_eq_some found
    rw [runId] at own
    obtain ⟨update, isUpdate, kept⟩ := runs chat run.id isChat own
    rw [isUpdate] at known
    obtain ⟨before, isBefore, rfl⟩ := Option.map_eq_some_iff.mp known
    obtain ⟨runKept, _⟩ := kept before isBefore
    have wasFound : state.db.chatRun? chat = some before := by
      rw [Db.chatRun?, own]
      exact isBefore
    have held := sound.held chat before isChat wasFound
      (cancelledTurn_before changes.change sound.keyed other runKept.turn cancelled)
    exact held.kept runKept refuses

/-- A step that touches neither the runs nor the flags of the chat. -/
theorem untouched {step : Step} (sound : state.Sound) (changes : Changes step state.db after.db)
    (other : ∀ now confirmed, step ≠ .trash now confirmed)
    (executing : after.executing = state.executing)
    (tick : after.tick = none ∨ after.tick = state.tick) (keeps : KeepsRuns state.db after.db) :
    after.Sound :=
  sound.frame changes other executing tick keeps.chat fun chat id _ _ =>
    ⟨fun run => run, by simp [Db.run?, keeps.runs], fun run _ => ⟨.refl run, fun _ => rfl⟩⟩

/-- The same for a transaction that may fail. -/
theorem committed {step : Step} {result : Except Error Db} (sound : state.Sound)
    (changes : Changes step state.db (state.commit result).db)
    (other : ∀ now confirmed, step ≠ .trash now confirmed)
    (keeps : ∀ next, result = .ok next → KeepsRuns state.db next) : (state.commit result).Sound := by
  cases result with
  | ok next => exact sound.untouched changes other rfl (.inr rfl) (keeps next rfl)
  | error => exact sound

/-- A step after which nothing executes and no turn is being started. -/
theorem idle (keyed : Keyed Message.id after.db.messages) (executing : after.executing = none)
    (tick : after.tick = none ∨ (after.tick = state.tick ∧ after.db.chat = state.db.chat ∧
      state.Sound))
    (held : ∀ chat run, after.db.chat = some chat → after.db.chatRun? chat = some run →
      after.db.CancelledTurn run → Held chat run) : after.Sound := by
  refine ⟨keyed, fun chat id _ executes => ?_, fun chat isTick isChat ticks => ?_, held⟩
  · simp [executing] at executes
  · rcases tick with gone | ⟨same, chatSame, sound⟩
    · simp [gone] at ticks
    · exact ⟨executing, (sound.tick chat isTick (chatSame ▸ isChat) (same ▸ ticks)).2⟩

/-- The run of the chat is stored again. -/
theorem stored {step : Step} {chat : Chat} {run later : Run} (sound : state.Sound)
    (changes : Changes step state.db after.db) (other : ∀ now confirmed, step ≠ .trash now confirmed)
    (executing : after.executing = state.executing)
    (tick : after.tick = none ∨ after.tick = state.tick)
    (chats : ∀ later, after.db.chat = some later → ∃ chat, state.db.chat = some chat ∧
      later.runId = chat.runId ∧ (chat.refuses = true → later.refuses = true))
    (isChat : state.db.chat = some chat) (own : chat.runId = some run.id)
    (found : state.db.run? run.id = some run) (named : later.id = run.id)
    (kept : RunKept run later)
    (executes : state.executing = some run.id → later.status = run.status)
    (runs : after.db.runs = put Run.id later state.db.runs) : after.Sound := by
  refine sound.frame changes other executing tick chats fun other id isOther ownOther => ?_
  obtain rfl := Option.some.inj (isChat.symm.trans isOther)
  obtain rfl := Option.some.inj (own.symm.trans ownOther)
  refine ⟨fun _ => later, ?_, fun before isBefore => ?_⟩
  · rw [found, Db.run?, runs, find_put]
    exact if_pos named.symm
  · obtain rfl := Option.some.inj (found.symm.trans isBefore)
    exact ⟨kept, executes⟩

theorem cancel {step : Step} {id : String} {now : Int} (sound : state.Sound)
    (changes : Changes step state.db
      (state.commit (Worker.cancel state.db id (state.executing = some id) now)).db)
    (other : ∀ now confirmed, step ≠ .trash now confirmed) (own : state.runId = some id) :
    (state.commit (Worker.cancel state.db id (state.executing = some id) now)).Sound := by
  cases ok : Worker.cancel state.db id (state.executing = some id) now with
  | error => exact sound
  | ok next =>
      rw [ok] at changes
      obtain ⟨chat, isChat, isOwn⟩ := Option.bind_eq_some_iff.mp own
      obtain ⟨run, later, found, active, rfl, named, turn, requested, settled⟩ := cancel_of_ok ok
      obtain rfl : run.id = id := (mem_of_find found).2
      refine sound.stored changes other rfl (.inr rfl) (chat_kept rfl) isChat isOwn found named
        ⟨turn, fun succeeded => ?_, fun _ => ⟨active, fun _ => requested⟩, fun queued => ?_⟩
        (fun executes => ?_) rfl
      · simp [succeeded, RunStatus.isActive] at active
      · rcases settled with ⟨status, pending, _⟩ | ⟨status, _⟩
        · exact ⟨status.symm.trans queued, fun was => pending.trans was⟩
        · simp [status] at queued
      · rcases settled with ⟨status, _, _⟩ | ⟨_, stopped⟩
        · exact status
        · simp [executes] at stopped

/-- A run is queued again only if its turn was not cancelled. -/
theorem requeued {step : Step} {chat : Chat} {id : String} {middle : Db} (sound : state.Sound)
    (changes : Changes step state.db after.db) (other : ∀ now confirmed, step ≠ .trash now confirmed)
    (isChat : state.db.chat = some chat) (own : chat.runId = some id)
    (idle : state.executing ≠ some id) (ok : requeue state.db id = .ok middle)
    (keeps : KeepsRuns middle after.db) (executing : after.executing = state.executing)
    (tick : after.tick = state.tick) : after.Sound := by
  obtain ⟨run, later, found, named, turn, runs, sameChat⟩ := requeue_of_ok ok
  obtain rfl : run.id = id := (mem_of_find found).2
  have unheld : ¬ (run.status = .succeeded ∨ chat.refuses = true) := fun flagged => by
    obtain ⟨error, refused⟩ := requeue_held isChat own found flagged
    rw [refused] at ok
    simp at ok
  have chats : ∀ other, after.db.chat = some other → other.runId = chat.runId := by
    intro other isOther
    obtain ⟨before, isBefore, runId, _⟩ := keeps.chat other isOther
    rw [sameChat, isChat] at isBefore
    rw [runId, Option.some.inj isBefore]
  refine ⟨changes.change.keyed sound.keyed, fun other executed _ executes => ?_,
    fun other ticking isOther ticks => ?_, fun other current isOther isCurrent cancelled => ?_⟩
  · rw [executing] at executes
    obtain ⟨isOwn, _⟩ := sound.executing chat executed isChat executes
    rw [own] at isOwn
    exact absurd (executes.trans isOwn.symm) idle
  · rw [executing, chats other isOther]
    exact sound.tick chat ticking isChat (tick ▸ ticks)
  · exfalso
    obtain ⟨isOwn, known⟩ := chatRun_eq_some isCurrent
    rw [chats other isOther, own] at isOwn
    rw [Db.run?, keeps.runs, runs, find_put, ← Option.some.inj isOwn, if_pos named.symm] at known
    obtain rfl := Option.some.inj known
    have wasFound : state.db.chatRun? chat = some run := by
      rw [Db.chatRun?, own]
      exact found
    exact unheld (sound.held chat run isChat wasFound
      (cancelledTurn_before changes.change sound.keyed ‹_› turn cancelled)).flagged

theorem resume {step : Step} {id : String} (sound : state.Sound)
    (changes : Changes step state.db
      (state.commit (Worker.resume state.db id (state.executing = some id))).db)
    (other : ∀ now confirmed, step ≠ .trash now confirmed) (own : state.runId = some id) :
    (state.commit (Worker.resume state.db id (state.executing = some id))).Sound := by
  cases ok : Worker.resume state.db id (state.executing = some id) with
  | error => exact sound
  | ok next =>
      rw [ok] at changes
      obtain ⟨chat, isChat, isOwn⟩ := Option.bind_eq_some_iff.mp own
      unfold Worker.resume at ok
      split at ok
      · simp at ok
      · rename_i idle
        exact sound.requeued changes other isChat isOwn (by simpa using idle) ok (.refl next) rfl rfl

theorem pause {step : Step} {now : Int} {paused : Bool} (sound : state.Sound)
    (changes : Changes step state.db
      (state.commit (pauseChat state.db state.executing now paused)).db)
    (other : ∀ now confirmed, step ≠ .trash now confirmed) :
    (state.commit (pauseChat state.db state.executing now paused)).Sound := by
  cases ok : pauseChat state.db state.executing now paused with
  | error => exact sound
  | ok next =>
      rw [ok] at changes
      unfold pauseChat at ok
      obtain ⟨chat, isChat, entered⟩ := bind_eq_ok.mp ok
      obtain ⟨_, _, held⟩ := bind_eq_ok.mp entered
      clear ok entered
      split at held
      · exact sound.untouched changes other rfl (.inr rfl)
          (.chatPause held)
      · obtain ⟨middle, resumed, stored⟩ := bind_eq_ok.mp held
        unfold resumeUnpaused at resumed
        split at resumed
        · obtain rfl := Except.ok.inj resumed
          exact sound.untouched changes other rfl (.inr rfl)
            (.chatPause stored)
        · rename_i id own
          split at resumed
          · simp at resumed
          · split at resumed
            · unfold Worker.resume at resumed
              split at resumed
              · simp at resumed
              · rename_i idle
                exact sound.requeued changes other
                  (getChat_eq_ok.mp isChat) own (by simpa using idle) resumed (.chatPause stored) rfl
                  rfl
            · obtain rfl := Except.ok.inj resumed
              exact sound.untouched changes other rfl (.inr rfl)
                (.chatPause stored)

theorem newSession {step : Step} (sound : state.Sound)
    (changes : Changes step state.db (state.commit (requestNewSession state.db)).db)
    (other : ∀ now confirmed, step ≠ .trash now confirmed) :
    (state.commit (requestNewSession state.db)).Sound := by
  cases ok : requestNewSession state.db with
  | error => exact sound
  | ok next =>
      rw [ok] at changes
      obtain ⟨chat, run, later, stopped, isChat, found, inactive, isLater, runId, refuses, runs,
        named, turn, status⟩ := requestNewSession_of_ok ok
      obtain ⟨own, known⟩ := chatRun_eq_some found
      refine sound.stored changes other rfl (.inr rfl)
        (fun stored isStored => ?_) isChat own known named ⟨turn, status.trans, ?_, ?_⟩
        (fun _ => status) runs
      · obtain rfl := Option.some.inj (isLater.symm.trans isStored)
        exact ⟨chat, isChat, runId, fun _ => refuses⟩
      · intro active
        rw [status, inactive] at active
        simp at active
      · intro queued
        rw [status] at queued
        rw [queued] at inactive
        simp [RunStatus.isActive] at inactive

/-- The turn that is launched is not a cancelled one. -/
theorem launched {step : Step} {tick : Tick} {message : Message} {now : Int} {snapshot : Snapshot}
    {context : String} {started : Bool} (sound : state.Sound)
    (changes : Changes step state.db next) (other : ∀ now confirmed, step ≠ .trash now confirmed)
    (ticks : state.tick = some tick)
    (ok : state.launch tick message now snapshot context = .ok (next, started)) :
    State.Sound { state with db := next, tick := none } := by
  unfold State.launch at ok
  dsimp only at ok
  split at ok
  · rename_i result isResult
    obtain rfl := Except.ok.inj ok
    rcases launchTurn_of_ok isResult with ⟨rfl, _⟩ |
      ⟨chat, stored, middle, _, isChat, _, _, _, _, queued, rfl⟩
    · exact sound.untouched changes other rfl (.inl rfl)
        (.refl _)
    · obtain ⟨run, runs, named, turn, isTurn, isMessage, _⟩ := queueTurn_of_ok queued
      obtain ⟨idle, sameRun⟩ := sound.tick chat tick isChat ticks
      refine @State.Sound.idle state _ (changes.change.keyed sound.keyed) idle (.inl rfl) ?_
      rintro later current isLater isCurrent ⟨execution, cancelled, isExecution, found, status⟩
      exfalso
      obtain rfl := Option.some.inj isLater
      obtain ⟨own, known⟩ := chatRun_eq_some isCurrent
      -- The run of the chat is the one that was queued for the turn.
      have isQueued : current.id = run.id := by
        rw [named]
        cases isRun : tick.run with
        | none =>
            rw [isRun] at own
            exact (Option.some.inj own).symm
        | some before =>
            rw [isRun] at own sameRun
            exact Option.some.inj (own.symm.trans sameRun.symm)
      have isRun : find Run.id current.id middle.runs = some current := known
      rw [runs, find_put, if_pos isQueued] at isRun
      obtain rfl := Option.some.inj isRun
      obtain rfl := Option.some.inj (isTurn.symm.trans isExecution)
      obtain ⟨member, isId⟩ := mem_of_find found
      rw [isMessage] at isId
      have row : cancelled.status = .sending := by
        have stored' : middle.message? message.id = some stored := by
          rw [Db.message?, (KeepsMessages.queueTurn queued).messages]
          exact ‹state.db.message? message.id = some stored›
        have rows := @putMessage_of_found middle { message with status := .sending } stored stored'
        rw [show ((middle.putChat _).putMessage { message with status := .sending }).messages =
          (middle.putMessage { message with status := .sending }).messages from rfl, rows] at member
        obtain ⟨row, _, rfl⟩ := List.mem_map.mp member
        split at isId
        · rename_i same
          rw [if_pos same]
        · rename_i apart
          exact absurd isId apart
      simp [row] at status
  · obtain ⟨paused, isPaused, same⟩ := map_eq_ok.mp ok
    obtain ⟨rfl, _⟩ := Prod.mk.inj same
    exact sound.untouched changes other rfl
      (.inl rfl) (.chatPause isPaused)

/-- Before its cancellation the run of a deleted chat is marked if it is active. -/
theorem requestStop_run {chat : Chat} {now : Int} {run : Run} (own : chat.runId = some run.id)
    (found : db.run? run.id = some run) :
    ∃ marked, find Run.id run.id (requestStop (cancelPendingInput db) chat now).runs = some marked ∧
      marked.status = run.status ∧ marked.chatExecution = run.chatExecution ∧
      marked.recoveryPending = run.recoveryPending ∧
      (run.status.isActive = true → marked.cancelRequestedAt.isSome = true) := by
  have isRun : (cancelPendingInput db).chatRun? chat = some run := by
    rw [Db.chatRun?, own]
    exact found
  unfold requestStop
  simp only [isRun]
  split
  · exact ⟨{ run with cancelRequestedAt := some now }, by rw [find_put]; exact if_pos rfl, rfl, rfl,
      rfl, fun _ => rfl⟩
  · rename_i inactive
    exact ⟨run, found, rfl, rfl, rfl, fun active => absurd active inactive⟩

/-- Nothing is pending in an idle chat, so its deletion changes no message. -/
theorem cancelPending_of_idle {chat : Chat} (idle : db.busy chat = false) :
    (cancelPendingInput db).messages = db.messages := by
  unfold Db.busy at idle
  simp only [Bool.or_eq_false_iff, List.any_eq_false] at idle
  refine (List.map_congr_left fun message member => ?_).trans (List.map_id _)
  exact if_neg (idle.1.2 message member)

/-- The run of an idle chat succeeded or stopped. -/
theorem run_of_idle {chat : Chat} {run : Run} (idle : db.busy chat = false)
    (found : db.chatRun? chat = some run) :
    run.status = .succeeded ∨ run.status.isResumable = true := by
  unfold Db.busy at idle
  rw [found, Option.any_some] at idle
  cases status : run.status <;> simp_all [RunStatus.isActive, RunStatus.isResumable]

/-- What a cancellation leaves of a run that is marked if it is active. -/
theorem commit_cancel {marked : Run} {isActive : Bool} {now : Int}
    (found : state.db.run? marked.id = some marked)
    (requested : marked.status.isActive = true → marked.cancelRequestedAt.isSome = true) :
    ∃ final, (state.commit (Worker.cancel state.db marked.id isActive now)).db.run? marked.id =
        some final ∧ final.id = marked.id ∧ final.chatExecution = marked.chatExecution ∧
      (isActive = true → final.status = marked.status) ∧
      (marked.status = .succeeded → final.status = .succeeded) ∧
      (final.status.isActive = true → final.cancelRequestedAt.isSome = true) ∧
      (final.status = .queued → isActive = false → final.recoveryPending = true) := by
  cases active : marked.status.isActive with
  | true =>
      obtain ⟨next, ok⟩ := cancel_ok found active isActive now
      rw [ok]
      obtain ⟨run, later, isRun, _, rfl, named, turn, marked', settled⟩ := cancel_of_ok ok
      obtain rfl := Option.some.inj (found.symm.trans isRun)
      refine ⟨later, ?_, named, turn, ?_, fun succeeded => ?_, fun _ => marked', ?_⟩
      · change find Run.id marked.id (put Run.id later state.db.runs) = _
        rw [find_put]
        exact if_pos named.symm
      · rintro rfl
        exact (settled.resolve_right (by simp)).1
      · simp [succeeded, RunStatus.isActive] at active
      · rintro queued rfl
        rcases settled with ⟨_, pending, recovering⟩ | ⟨status, _⟩
        · rw [pending]
          simpa using recovering
        · simp [status] at queued
  | false =>
      have failed : ∃ error, Worker.cancel state.db marked.id isActive now = .error error := by
        unfold Worker.cancel requestCancel
        simp only [found, active]
        exact ⟨_, rfl⟩
      obtain ⟨error, failed⟩ := failed
      rw [failed]
      refine ⟨marked, found, rfl, rfl, fun _ => rfl, id, requested, fun queued => ?_⟩
      rw [queued] at active
      simp [RunStatus.isActive] at active

/-- The deleted chat and its stopped run. -/
theorem deleted {step : Step} {chat later : Chat} (sound : state.Sound)
    (changes : Changes step state.db after.db) (isChat : state.db.chat = some chat)
    (isLater : after.db.chat = some later) (runId : later.runId = chat.runId)
    (executing : after.executing = state.executing) (tick : after.tick = state.tick)
    (runs : ∀ id run, chat.runId = some id → state.db.run? id = some run →
      ∃ final, after.db.run? id = some final ∧ final.chatExecution = run.chatExecution ∧
        (state.executing = some id → final.status = run.status) ∧
        (run.status = .succeeded → final.status = .succeeded) ∧
        (final.status.isActive = true → final.cancelRequestedAt.isSome = true) ∧
        (final.status = .queued → state.executing ≠ some id → final.recoveryPending = true))
    (none : ∀ id, chat.runId = some id → state.db.run? id = none → after.db.run? id = none)
    (flagged : ∀ run, state.db.chatRun? chat = some run → after.db.CancelledTurn run →
      run.status = .succeeded ∨ later.refuses = true) : after.Sound := by
  refine ⟨changes.change.keyed sound.keyed, ?_, ?_, ?_⟩
  · intro other id isOther executes
    obtain rfl := Option.some.inj (isLater.symm.trans isOther)
    rw [executing] at executes
    obtain ⟨own, run, found, running⟩ := sound.executing chat id isChat executes
    obtain ⟨final, isFinal, _, status, _⟩ := runs id run own found
    exact ⟨runId.trans own, final, isFinal, (status executes).trans running⟩
  · intro other ticking isOther ticks
    obtain rfl := Option.some.inj (isLater.symm.trans isOther)
    rw [executing, runId]
    exact sound.tick chat ticking isChat (tick ▸ ticks)
  · intro other final isOther isFinal cancelled
    obtain rfl := Option.some.inj (isLater.symm.trans isOther)
    obtain ⟨own, known⟩ := chatRun_eq_some isFinal
    rw [runId] at own
    cases before : state.db.run? final.id with
    | none =>
        rw [none final.id own before] at known
        simp at known
    | some run =>
        obtain ⟨current, isCurrent, turn, status, succeeded, requested, pending⟩ :=
          runs final.id run own before
        obtain rfl := Option.some.inj (isCurrent.symm.trans known)
        have isRun : state.db.chatRun? chat = some run := by
          rw [Db.chatRun?, own]
          exact before
        obtain ⟨execution, message, isExecution, found, isCancelled⟩ := cancelled
        refine ⟨(flagged run isRun ⟨execution, message, turn ▸ isExecution, found,
          isCancelled⟩).imp_left succeeded, requested,
          fun queued => pending queued fun executes => ?_⟩
        obtain ⟨_, other, isOther, running⟩ := sound.executing chat current.id isChat executes
        obtain rfl := Option.some.inj (before.symm.trans isOther)
        rw [status executes, running] at queued
        simp at queued

/-- A cancellation of a run leaves the rest of the state alone. -/
theorem commit_cancel_rest {id : String} {isActive : Bool} {now : Int} :
    (state.commit (Worker.cancel state.db id isActive now)).executing = state.executing ∧
      (state.commit (Worker.cancel state.db id isActive now)).tick = state.tick ∧
      (state.commit (Worker.cancel state.db id isActive now)).db.chat = state.db.chat ∧
      (state.commit (Worker.cancel state.db id isActive now)).db.messages = state.db.messages := by
  cases ok : Worker.cancel state.db id isActive now with
  | error => exact ⟨rfl, rfl, rfl, rfl⟩
  | ok next =>
      obtain ⟨run, later, _, _, rfl, _⟩ := cancel_of_ok ok
      exact ⟨rfl, rfl, rfl, rfl⟩

/-- A run that is missing stays missing. -/
theorem commit_cancel_missing {id : String} {isActive : Bool} {now : Int}
    (missing : state.db.run? id = none) :
    state.commit (Worker.cancel state.db id isActive now) = state := by
  rw [Worker.cancel, missing]
  rfl

/-- The same of the first half of a deletion. -/
theorem requestStop_missing {chat : Chat} {now : Int} {id : String} (own : chat.runId = some id)
    (missing : db.run? id = none) :
    find Run.id id (requestStop (cancelPendingInput db) chat now).runs = none := by
  have isRun : (cancelPendingInput db).chatRun? chat = none := by
    rw [Db.chatRun?, own]
    exact missing
  unfold requestStop
  simp only [isRun]
  exact missing

/-- A deletion marks the chat whose turn it cancels, and stops its run. -/
theorem trash {now : Int} {confirmed : Bool} (sound : state.Sound)
    (changes : Changes (.trash now confirmed) state.db (state.trash now confirmed).db)
    (keeps : ¬ Overwrites state (.trash now confirmed)) : (state.trash now confirmed).Sound := by
  unfold State.trash at changes ⊢
  cases ok : Chats.trash state.db now confirmed with
  | error => exact sound
  | ok db =>
      rw [ok] at changes
      dsimp only at changes ⊢
      obtain ⟨chat, isChat, ⟨_, rfl⟩ | ⟨present, runs, messages, later, isLater, runId, flag,
        session⟩⟩ := trash_of_ok ok
      · -- The chat is deleted already, only its run is cancelled.
        have same : State.runId { state with db := state.db } = state.runId := rfl
        rw [same]
        cases own : state.runId with
        | none => exact sound
        | some id =>
            exact sound.cancel (@commit_changes (.cancel now) state _
              fun next ok => (KeepsMessages.cancel ok).changes) (by simp) own
      · -- A turn that the deletion cancels makes the chat busy.
        have flagged : ∀ run, state.db.chatRun? chat = some run → db.CancelledTurn run →
            run.status = .succeeded ∨ later.refuses = true := by
          rintro run isRun ⟨execution, message, isExecution, found, cancelled⟩
          unfold Chat.refuses
          rw [flag, session]
          cases busy : state.db.busy chat with
          | true => exact .inr rfl
          | false =>
              have inactive := run_of_idle busy isRun
              rw [Db.message?, messages, cancelPending_of_idle busy] at found
              cases restarted : chat.sessionRestartRequested with
              | true => exact .inr rfl
              | false =>
                  refine .inl (inactive.resolve_right fun resumable => ?_)
                  exact keeps ⟨now, confirmed, chat, run, rfl, isChat, present, busy, restarted,
                    isRun, resumable, execution, message, isExecution, found, cancelled⟩
        have ownership : State.runId { state with db } = chat.runId := by
          change db.chat.bind Chat.runId = chat.runId
          rw [isLater]
          exact runId
        rw [ownership] at changes ⊢
        cases own : chat.runId with
        | none =>
            rw [own] at changes
            refine sound.deleted changes isChat isLater runId rfl rfl (fun id run isOwn => ?_)
              (fun id isOwn => ?_) flagged
            · simp [own] at isOwn
            · simp [own] at isOwn
        | some id =>
            rw [own] at changes
            dsimp only at changes ⊢
            obtain ⟨executing, tick, sameChat, sameMessages⟩ := @commit_cancel_rest
              { state with db } id (state.executing = some id) now
            refine sound.deleted changes isChat (sameChat.trans isLater) runId executing tick
              (fun other run isOwn before => ?_) (fun other isOwn before => ?_)
              fun run isRun cancelled => flagged run isRun ?_
            · obtain rfl := Option.some.inj (own.symm.trans isOwn)
              obtain rfl : run.id = id := (mem_of_find before).2
              obtain ⟨marked, isMarked, status, turn, _, requested⟩ :=
                @requestStop_run _ _ now _ own before
              rw [← runs] at isMarked
              have named : marked.id = run.id := (mem_of_find isMarked).2
              rw [← named] at isMarked ⊢
              obtain ⟨final, isFinal, _, sameTurn, sameStatus, succeeded, stopped, pending⟩ :=
                @commit_cancel { state with db } marked (state.executing = some marked.id) now isMarked
                  fun active => requested (status ▸ active)
              exact ⟨final, isFinal, sameTurn.trans turn,
                fun executes => (sameStatus (by simpa using executes)).trans status,
                fun before => succeeded (status.trans before), stopped,
                fun queued idle => pending queued (by simpa using idle)⟩
            · obtain rfl := Option.some.inj (own.symm.trans isOwn)
              have missing := @requestStop_missing _ _ now _ own before
              rw [← runs] at missing
              rw [@commit_cancel_missing { state with db } _ _ _ missing]
              exact missing
            · obtain ⟨execution, message, isExecution, found, status⟩ := cancelled
              rw [Db.message?, sameMessages] at found
              exact ⟨execution, message, isExecution, found, status⟩

/-- The scheduler or an execution stores the run of the chat. -/
theorem reran {step : Step} {chat : Chat} {run later : Run} {executing : Option String}
    (sound : state.Sound) (changes : Changes step state.db next)
    (other : ∀ now confirmed, step ≠ .trash now confirmed) (isChat : state.db.chat = some chat)
    (own : chat.runId = some run.id) (found : state.db.run? run.id = some run)
    (named : later.id = run.id) (turn : later.chatExecution = run.chatExecution)
    (same : next.chat = state.db.chat) (runs : next.runs = put Run.id later state.db.runs)
    (unread : state.tick = none)
    (executes : ∀ id, executing = some id → id = run.id ∧ later.status = .running)
    (stays : Held chat run → Held chat later) :
    State.Sound { state with db := next, executing } := by
  have known : next.run? run.id = some later := by
    rw [Db.run?, runs, find_put]
    exact if_pos named.symm
  refine ⟨changes.change.keyed sound.keyed, fun stored id isStored executed => ?_,
    fun stored ticking _ ticks => ?_, fun stored current isStored isCurrent cancelled => ?_⟩
  · obtain rfl := Option.some.inj (isChat.symm.trans (same.symm.trans isStored))
    obtain ⟨rfl, running⟩ := executes id executed
    exact ⟨own, later, known, running⟩
  · exact absurd (unread.symm.trans ticks) (by simp)
  · obtain rfl := Option.some.inj (isChat.symm.trans (same.symm.trans isStored))
    obtain ⟨isOwn, isKnown⟩ := chatRun_eq_some isCurrent
    have isRun : current.id = run.id := Option.some.inj (isOwn.symm.trans own)
    rw [isRun] at isKnown
    obtain rfl := Option.some.inj (known.symm.trans isKnown)
    have wasFound : state.db.chatRun? chat = some run := by
      rw [Db.chatRun?, own]
      exact found
    exact stays (sound.held chat run isChat wasFound
      (cancelledTurn_before changes.change sound.keyed other turn cancelled))

/-- A launch attempt of the scheduler. -/
theorem schedule {step : Step} {now : Int} {admission : Admission} {chat : Chat} {run : Run}
    (sound : state.Sound) (changes : Changes step state.db next)
    (other : ∀ now confirmed, step ≠ .trash now confirmed) (isChat : state.db.chat = some chat)
    (own : chat.runId = some run.id) (found : state.db.run? run.id = some run)
    (unread : state.tick = none)
    (stored : state.db.putRun (tryLaunch run (state.db.checkpoints run.id) admission now).1 =
      .ok next) :
    State.Sound { state with
      db := next
      executing := if (tryLaunch run (state.db.checkpoints run.id) admission now).2 then
        some run.id else none } := by
  obtain ⟨named, turn, launched⟩ := tryLaunch_run run (state.db.checkpoints run.id) admission now
  have table := putRun_of_ok stored
  refine sound.reran changes other isChat own found named turn (by rw [table]) (by rw [table])
    unread (fun id executed => ?_) fun held => ?_
  · split at executed
    · rename_i started
      exact ⟨(Option.some.inj executed).symm, launched started⟩
    · simp at executed
  · exact held.kept (tryLaunch_refused (state.db.checkpoints run.id) admission now held.requested
      held.pending).2 id

/-- An execution that ends leaves its run settled, or queued for its recovery with its
cancellation still requested. -/
theorem finish {step : Step} {now : Int} {ending : Ending} {chat : Chat} {run : Run}
    (sound : state.Sound) (changes : Changes step state.db next)
    (other : ∀ now confirmed, step ≠ .trash now confirmed) (isChat : state.db.chat = some chat)
    (executing : state.executing = some run.id) (found : state.db.run? run.id = some run)
    (final : ending.isFinal = true)
    (stored : (ending.save state.db run.id).putRun (ending.patch now run) = .ok next) :
    State.Sound { state with db := next, executing := none } := by
  obtain ⟨own, current, isCurrent, running⟩ := sound.executing chat run.id isChat executing
  obtain rfl := Option.some.inj (found.symm.trans isCurrent)
  have table := putRun_of_ok stored
  have saved : (ending.save state.db run.id).chat = state.db.chat ∧
      (ending.save state.db run.id).runs = state.db.runs := by
    cases ending <;> exact ⟨rfl, rfl⟩
  have unread : state.tick = none := by
    cases ticks : state.tick with
    | none => rfl
    | some tick => simp [(sound.tick chat tick isChat ticks).1] at executing
  have named : (ending.patch now run).id = run.id := by cases ending <;> rfl
  refine sound.reran changes other isChat own found named ?_
    (by rw [table]; exact saved.1) (by rw [table, saved.2]) unread (by simp)
    fun held => ?_
  · cases ending <;> rfl
  · cases ending with
    | settled status summary =>
        have settled : status.isActive = false := by simpa [Ending.isFinal] using final
        refine ⟨held.flagged.imp_left fun succeeded => ?_, fun active => ?_, fun queued => ?_⟩
        · simp [running] at succeeded
        · exact absurd (settled.symm.trans active) (by simp)
        · rw [show status = .queued from queued] at settled
          simp [RunStatus.isActive] at settled
    | recovering checkpoint reason =>
        refine ⟨held.flagged.imp_left fun succeeded => ?_,
          fun _ => held.requested (by rw [running]; rfl), fun _ => rfl⟩
        simp [running] at succeeded

/-- A restart of the worker. -/
theorem restart {now : Int} (sound : state.Sound) :
    State.Sound {
      db := { state.db with
        runs := state.db.runs.map fun run =>
          restoreAfterRestart (state.db.checkpoints run.id) now run } } := by
  refine @State.Sound.idle state _ sound.keyed rfl (.inl rfl) ?_
  rintro chat run isChat isRun ⟨execution, message, isExecution, isMessage, status⟩
  obtain ⟨own, known⟩ := chatRun_eq_some isRun
  rw [Db.run?, find_map fun run => (restoreAfterRestart_keeps _ now run).1] at known
  obtain ⟨before, isBefore, rfl⟩ := Option.map_eq_some_iff.mp known
  obtain ⟨named, turn, kept⟩ := restoreAfterRestart_keeps (state.db.checkpoints before.id) now before
  have wasFound : state.db.chatRun? chat = some before := by
    rw [Db.chatRun?, own, named]
    exact named ▸ isBefore
  exact kept chat (sound.held chat before isChat wasFound
    ⟨execution, message, turn ▸ isExecution, isMessage, status⟩)

/-- The scheduler takes an idle chat on. -/
theorem readChat {tick : Tick} (sound : state.Sound) (read : state.readChat = some tick) :
    State.Sound { state with tick := some tick } := by
  refine ⟨sound.keyed, sound.executing, fun chat ticking isChat ticks => ?_, sound.held⟩
  obtain rfl := Option.some.inj ticks
  unfold State.readChat at read
  have isChat : state.db.chat = some chat := isChat
  simp only [isChat, Option.bind_eq_bind, Option.bind_some] at read
  split at read
  · simp at read
  · rename_i idle
    obtain rfl := Option.some.inj read
    simp only [Bool.or_eq_true, Bool.and_eq_true, not_or, not_and] at idle
    obtain ⟨⟨_, free⟩, known⟩ := idle
    cases found : state.db.chatRun? chat with
    | none =>
        have absent : chat.runId = none := by
          cases own : chat.runId with
          | none => rfl
          | some id => exact absurd (by rw [found]; rfl) (known (by rw [own]; rfl))
        refine ⟨?_, absent.symm⟩
        cases executes : state.executing with
        | none => rfl
        | some id =>
            rw [(sound.executing chat id isChat executes).1] at absent
            simp at absent
    | some run =>
        obtain ⟨own, _⟩ := chatRun_eq_some found
        refine ⟨?_, own.symm⟩
        cases executes : state.executing with
        | none => rfl
        | some id =>
            have same := own.symm.trans (sound.executing chat id isChat executes).1
            rw [found, Option.any_some, Bool.or_eq_true, Bool.or_eq_true] at free
            exact absurd (.inl (.inr (by simp [executes, Option.some.inj same]))) free

/-- The scheduler selects the message it sends. -/
theorem selected {step : Step} {tick : Tick} (sound : state.Sound)
    (changes : Changes step state.db (nextQueued state.db).1)
    (other : ∀ now confirmed, step ≠ .trash now confirmed) (ticks : state.tick = some tick) :
    State.Sound { state with
      db := (nextQueued state.db).1
      tick :=
        if needsAttention tick.chat tick.run then none
        else (nextQueued state.db).2.map fun message => { tick with message := some message } } := by
  have kept : State.Sound { state with db := (nextQueued state.db).1 } :=
    sound.untouched changes other rfl (.inr rfl) (.of_eq rfl rfl)
  refine ⟨kept.keyed, kept.executing, fun chat ticking isChat reading => ?_, kept.held⟩
  dsimp only at reading
  split at reading
  · simp at reading
  · obtain ⟨message, _, rfl⟩ := Option.map_eq_some_iff.mp reading
    exact kept.tick chat tick isChat ticks

/-- A turn that is launched, or whose failure holds the chat. -/
theorem launchedOrHeld {step : Step} {chat : Chat} {run : Option Run} {message : Message}
    {now : Int} {snapshot : Snapshot} {context : String} (sound : state.Sound)
    (changes : Changes step state.db (state.commit
      ((state.launch ⟨chat, run, none⟩ message now snapshot context).map Prod.fst)).db)
    (other : ∀ now confirmed, step ≠ .trash now confirmed)
    (ticks : state.tick = some ⟨chat, run, some message⟩) :
    State.Sound { state.commit
      ((state.launch ⟨chat, run, none⟩ message now snapshot context).map Prod.fst) with
      tick := none } := by
  cases ok : state.launch ⟨chat, run, none⟩ message now snapshot context with
  | error =>
      exact ⟨sound.keyed, sound.executing, fun _ _ _ unread => by simp at unread,
        sound.held⟩
  | ok launched =>
      rw [ok] at changes
      exact sound.launched changes other ticks ok

/-- An execution saves what it has done so far. -/
theorem progressed {step : Step} {checkpoint : RunCheckpoint} {session : Option String}
    {resumeAvailable : Bool} {run : Run} (sound : state.Sound)
    (changes : Changes step state.db (state.commit
      ((state.db.setCheckpoint run.id checkpoint).putRun
        { run with sessionId := session, resumeAvailable })).db)
    (other : ∀ now confirmed, step ≠ .trash now confirmed)
    (executing : state.executing = some run.id) (found : state.db.run? run.id = some run) :
    (state.commit ((state.db.setCheckpoint run.id checkpoint).putRun
      { run with sessionId := session, resumeAvailable })).Sound := by
  cases ok : (state.db.setCheckpoint run.id checkpoint).putRun
      { run with sessionId := session, resumeAvailable } with
  | error => exact sound
  | ok next =>
      rw [ok] at changes
      have table := putRun_of_ok ok
      cases isChat : state.db.chat with
      | none =>
          exact gone (changes.change.keyed sound.keyed) (by rw [← isChat]; exact table ▸ rfl)
      | some chat =>
          obtain ⟨own, _⟩ := sound.executing chat run.id isChat executing
          exact sound.stored changes other rfl (.inr rfl)
            (chat_kept (by rw [table]; rfl)) isChat own found
            (rfl : { run with sessionId := session, resumeAvailable : Run }.id = run.id)
            ⟨rfl, id, fun active => ⟨active, id⟩, fun queued => ⟨queued, id⟩⟩ (fun _ => rfl)
            (by rw [table]; rfl)

/-- An execution ends. -/
theorem finished {step : Step} {now : Int} {ending : Ending} {run : Run} (sound : state.Sound)
    (changes : Changes step state.db (state.commit
      ((ending.save state.db run.id).putRun (ending.patch now run))).db)
    (other : ∀ now confirmed, step ≠ .trash now confirmed)
    (executing : state.executing = some run.id) (found : state.db.run? run.id = some run)
    (final : ending.isFinal = true) :
    State.Sound { state.commit ((ending.save state.db run.id).putRun (ending.patch now run)) with
      executing := none } := by
  have saved : (ending.save state.db run.id).chat = state.db.chat ∧
      (ending.save state.db run.id).runs = state.db.runs := by
    cases ending <;> exact ⟨rfl, rfl⟩
  cases isChat : state.db.chat with
  | none =>
      refine gone (changes.change.keyed sound.keyed) ?_
      exact changes.present isChat
  | some chat =>
      -- The run executes, so its document is stored whatever its task.
      obtain ⟨_, current, isCurrent, running⟩ := sound.executing chat run.id isChat executing
      obtain rfl := Option.some.inj (found.symm.trans isCurrent)
      obtain ⟨next, ok⟩ : ∃ next,
          (ending.save state.db run.id).putRun (ending.patch now run) = .ok next := by
        refine @putRun_ok _ run _ ?_ (by rw [running]; rfl)
        have named : (ending.patch now run).id = run.id := by cases ending <;> rfl
        rw [Db.run?, saved.2, named]
        exact found
      rw [ok] at changes ⊢
      exact sound.finish changes other isChat executing found final ok

/-- Another run is stored. -/
theorem otherRun {step : Step} {run : Run} (sound : state.Sound)
    (changes : Changes step state.db (state.commit (state.db.putRun run)).db)
    (other : ∀ now confirmed, step ≠ .trash now confirmed) (foreign : state.runId ≠ some run.id) :
    (state.commit (state.db.putRun run)).Sound := by
  cases ok : state.db.putRun run with
  | error => exact sound
  | ok next =>
      rw [ok] at changes
      have table := putRun_of_ok ok
      refine sound.frame changes other rfl (.inr rfl)
        (chat_kept (by rw [show (state.commit (.ok next)).db = next from rfl, table]))
        fun chat id isChat own =>
          ⟨fun run => run, ?_, fun run _ => ⟨.refl run, fun _ => rfl⟩⟩
      have apart : id ≠ run.id := by
        rintro rfl
        exact foreign (by simp [State.runId, isChat, own])
      change next.run? id = _
      rw [table, Db.run?, find_put, if_neg apart]
      simp [Db.run?]

/-- Every step but an overwriting deletion keeps a state sound. -/
theorem step {step : Step} (sound : state.Sound) (keeps : ¬ Overwrites state step)
    (taken : state.step step = some after) : after.Sound := by
  have changes := step_changes sound.keyed taken
  cases step with
  | send now values =>
      obtain rfl := Option.some.inj taken
      refine sound.committed changes (by simp) fun next ok => ?_
      obtain ⟨⟨_, sent⟩, ran, rfl⟩ := map_eq_ok.mp ok
      exact .send ran
  | answer now question message answers =>
      obtain rfl := Option.some.inj taken
      refine sound.committed changes (by simp) fun next ok => ?_
      obtain ⟨⟨_, stored⟩, ran, rfl⟩ := map_eq_ok.mp ok
      exact .answer ran
  | edit message values =>
      obtain rfl := Option.some.inj taken
      exact sound.committed changes (by simp) fun next ok => .edit ok
  | acknowledge now run message =>
      obtain rfl := Option.some.inj taken
      exact sound.untouched changes (by simp) rfl (.inr rfl) (.acknowledge now run message)
  | claimSteering paused delivering =>
      obtain rfl := Option.some.inj taken
      exact sound.untouched changes (by simp) rfl (.inr rfl) (.claimSteering paused delivering)
  | tick =>
      obtain ⟨tick, read, rfl⟩ := Option.map_eq_some_iff.mp taken
      exact sound.readChat read
  | nextQueued =>
      simp only [State.step] at taken
      split at taken
      · rename_i tick ticks
        obtain rfl := Option.some.inj taken
        exact sound.selected changes (by simp) ticks
      · simp at taken
  | launchTurn now snapshot context =>
      simp only [State.step] at taken
      split at taken
      · rename_i ticks
        obtain rfl := Option.some.inj taken
        exact sound.launchedOrHeld changes (by simp) ticks
      · simp at taken
  | hold now =>
      obtain rfl := Option.some.inj taken
      exact sound.committed changes (by simp) fun next ok => .chatPause ok
  | pause now paused =>
      obtain rfl := Option.some.inj taken
      exact sound.pause changes (by simp)
  | trash now confirmed =>
      obtain rfl := Option.some.inj taken
      exact sound.trash changes keeps
  | restore now =>
      obtain rfl := Option.some.inj taken
      exact sound.committed changes (by simp) fun next ok => .restore ok
  | purge now =>
      simp only [State.step] at taken
      split at taken
      · obtain rfl := Option.some.inj taken
        refine sound.committed changes (by simp) fun next ok => ?_
        obtain ⟨⟨_, claimed⟩, ran, rfl⟩ := map_eq_ok.mp ok
        exact .markPurging ran
      · simp at taken
  | forget =>
      simp only [State.step] at taken
      split at taken
      · split at taken
        · obtain rfl := Option.some.inj taken
          exact ⟨List.nodup_nil, fun chat id isChat => by simp [forget] at isChat,
            fun chat tick isChat => by simp [forget] at isChat,
            fun chat run isChat => by simp [forget] at isChat⟩
        · simp at taken
      · simp at taken
  | newSession =>
      obtain rfl := Option.some.inj taken
      exact sound.newSession changes (by simp)
  | cancel now =>
      simp only [State.step] at taken
      split at taken
      · obtain rfl := Option.some.inj taken
        exact sound.cancel changes (by simp) ‹_›
      · simp at taken
  | resume =>
      simp only [State.step] at taken
      split at taken
      · obtain rfl := Option.some.inj taken
        exact sound.resume changes (by simp) ‹_›
      · simp at taken
  | schedule now admission =>
      simp only [State.step] at taken
      split at taken
      · rename_i run own
        obtain ⟨id, own, found⟩ := Option.bind_eq_some_iff.mp own
        obtain rfl : run.id = id := (mem_of_find found).2
        obtain ⟨chat, isChat, own⟩ := Option.bind_eq_some_iff.mp own
        split at taken
        · rename_i idle
          split at taken
          · rename_i stored
            obtain rfl := Option.some.inj taken
            exact sound.schedule changes (by simp) isChat own found
              (by simpa using (Bool.and_eq_true_iff.mp idle).1) stored
          · obtain rfl := Option.some.inj taken
            exact sound
        · simp at taken
      · simp at taken
  | progress checkpoint session resumeAvailable =>
      simp only [State.step] at taken
      split at taken
      · rename_i run executes
        obtain ⟨id, executes, found⟩ := Option.bind_eq_some_iff.mp executes
        obtain rfl : run.id = id := (mem_of_find found).2
        obtain rfl := Option.some.inj taken
        exact sound.progressed changes (by simp) executes found
      · simp at taken
  | finish now ending =>
      simp only [State.step] at taken
      split at taken
      · rename_i run executes
        obtain ⟨id, executes, found⟩ := Option.bind_eq_some_iff.mp executes
        obtain rfl : run.id = id := (mem_of_find found).2
        split at taken
        · rename_i final
          obtain rfl := Option.some.inj taken
          exact sound.finished changes (by simp) executes found final
        · simp at taken
      · simp at taken
  | restart now =>
      obtain rfl := Option.some.inj taken
      exact sound.restart
  | ask run question =>
      obtain rfl := Option.some.inj taken
      exact sound.untouched changes (by simp) rfl (.inr rfl) (.receive run question)
  | otherRun run =>
      simp only [State.step] at taken
      split at taken
      · rename_i foreign
        obtain rfl := Option.some.inj taken
        simp only [Bool.and_eq_true, decide_eq_true_eq] at foreign
        exact sound.otherRun changes (by simp) foreign.1
      · simp at taken
  | configure agents projects attachments usedElsewhere =>
      obtain rfl := Option.some.inj taken
      exact sound.untouched changes (by simp) rfl (.inr rfl) (.of_eq rfl rfl)

/-- Every run without an overwriting deletion keeps a state sound. -/
theorem run {steps : List Step} (sound : state.Sound)
    (throughout : Throughout State.step (fun state step => ¬ Overwrites state step) state steps)
    (executed : execute State.step state steps = some after) : after.Sound :=
  execute_invariant_where (fun _ _ _ sound keeps taken => sound.step keeps taken) sound throughout
    executed

end State.Sound

theorem State.Started.sound (started : state.Started) : state.Sound := by
  obtain ⟨messages, _, _, unowned, _, executing, tick⟩ := started
  refine @State.Sound.idle state _ (by rw [messages]; exact List.nodup_nil) executing
    (.inl tick) fun chat run isChat found => ?_
  rw [isChat] at unowned
  obtain ⟨own, _⟩ := chatRun_eq_some found
  exact absurd (own.symm.trans unowned) (by simp)

/-! ### Cancelled work -/

end Cairn.Chats

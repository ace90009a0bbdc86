import Cairn.Chats.Cleanup
import Cairn.Chats.Deletion

/-!
Owns what a deletion protects: while a chat is in the trash nothing is delivered, created,
resumed or shared for it, its deletion goes only forward, and a purge starts only after the
chat was in the trash until its time.

Does not own what a purge removes.
-/

set_option autoImplicit false

namespace Cairn.Chats

open Cairn.Library.Records
open Cairn.Library.Results
open Cairn.Library.Steps
open Cairn.Worker

/-! ### What other transactions leave of a deletion -/

/-- The state of the deletion of a chat. -/
def Db.deletion (db : Db) : Option (Lifecycle × Option Int) :=
  db.chat.map fun chat => (chat.lifecycle, chat.purgeAt)

variable {db next : Db}

theorem deletion_of_chat {chat later : Chat} (isChat : db.chat = some chat)
    (isLater : next.chat = some later) (lifecycle : later.lifecycle = chat.lifecycle)
    (purgeAt : later.purgeAt = chat.purgeAt) : next.deletion = db.deletion := by
  rw [Db.deletion, Db.deletion, isChat, isLater, Option.map_some, Option.map_some, lifecycle,
    purgeAt]

theorem deletion_congr (same : next.chat = db.chat) : next.deletion = db.deletion := by
  rw [Db.deletion, Db.deletion, same]

namespace Deletion

theorem send {now : Int} {values : Values} {answer : Option (Question × Answers)} {sent : Message}
    (ok : send db now values answer = .ok (next, sent)) : next.deletion = db.deletion := by
  unfold Chats.send at ok
  obtain ⟨chat, isChat, entered⟩ := bind_eq_ok.mp ok
  obtain ⟨_, _, resolved⟩ := bind_eq_ok.mp entered
  obtain ⟨content, _, submitted⟩ := bind_eq_ok.mp resolved
  clear ok entered resolved
  split at submitted
  · dsimp only at submitted
    split at submitted
    · simp at submitted
    · obtain ⟨rfl, _⟩ := Prod.mk.inj (Except.ok.inj submitted)
      rfl
  · obtain ⟨_, _, accepted⟩ := bind_eq_ok.mp submitted
    obtain ⟨_, _, stored⟩ := bind_eq_ok.mp accepted
    obtain ⟨rfl, _⟩ := Prod.mk.inj (Except.ok.inj stored)
    cases answer <;> exact deletion_of_chat (getChat_eq_ok.mp isChat) rfl rfl rfl

theorem answer {now : Int} {question message : String} {answers : Answers} {stored : Question}
    (ok : answer db now question message answers = .ok (next, stored)) :
    next.deletion = db.deletion := by
  unfold Chats.answer at ok
  obtain ⟨_, _, entered⟩ := bind_eq_ok.mp ok
  clear ok
  split at entered
  · simp at entered
  · dsimp only at entered
    split at entered
    · obtain ⟨rfl, _⟩ := Prod.mk.inj (Except.ok.inj entered)
      rfl
    · split at entered
      · simp at entered
      · split at entered
        · simp at entered
        · obtain ⟨⟨sent, message⟩, isSent, found⟩ := bind_eq_ok.mp entered
          dsimp only at found
          split at found
          · simp at found
          · obtain ⟨rfl, _⟩ := Prod.mk.inj (Except.ok.inj found)
            exact send isSent

theorem edit {message : String} {values : Option Values} (ok : edit db message values = .ok next) :
    next.deletion = db.deletion := by
  obtain ⟨current, _, _, ⟨_, rfl⟩ | ⟨content, mode, rfl⟩⟩ := edit_stores ok
  · unfold withdraw
    split <;> rfl
  · rfl

theorem acknowledge (now : Int) (run message : String) :
    (acknowledge db now run message).deletion = db.deletion := by
  unfold Chats.acknowledge
  split
  · rfl
  · rename_i chat isChat
    have present := (Option.filter_eq_some_iff.mp isChat).1
    split
    · rfl
    · rename_i current found
      split
      · rfl
      · exact deletion_of_chat present rfl rfl rfl

theorem chatPause {now : Int} {paused : Bool} (ok : chatPause db now paused = .ok next) :
    next.deletion = db.deletion := by
  unfold Chats.chatPause at ok
  obtain ⟨chat, isChat, entered⟩ := bind_eq_ok.mp ok
  obtain ⟨_, _, stored⟩ := bind_eq_ok.mp entered
  obtain rfl := Except.ok.inj stored
  exact deletion_of_chat (getChat_eq_ok.mp isChat) rfl rfl rfl

theorem putRun {run : Run} (stored : db.putRun run = .ok next) : next.deletion = db.deletion := by
  rw [putRun_of_ok stored]
  rfl

theorem cancel {id : String} {isActive : Bool} {now : Int}
    (ok : cancel db id isActive now = .ok next) : next.deletion = db.deletion := by
  obtain ⟨_, _, _, _, rfl, _⟩ := cancel_of_ok ok
  rfl

theorem resume {id : String} {isActive : Bool} (ok : resume db id isActive = .ok next) :
    next.deletion = db.deletion := by
  unfold Worker.resume at ok
  split at ok
  · simp at ok
  · obtain ⟨_, _, _, _, _, _, same⟩ := requeue_of_ok ok
    exact deletion_congr same

theorem pauseChat {executing : Option String} {now : Int} {paused : Bool}
    (ok : pauseChat db executing now paused = .ok next) : next.deletion = db.deletion := by
  unfold Worker.pauseChat at ok
  obtain ⟨chat, _, entered⟩ := bind_eq_ok.mp ok
  obtain ⟨_, _, resumed⟩ := bind_eq_ok.mp entered
  clear ok entered
  split at resumed
  · exact chatPause resumed
  · obtain ⟨middle, isResumed, stored⟩ := bind_eq_ok.mp resumed
    refine (chatPause stored).trans ?_
    unfold resumeUnpaused at isResumed
    split at isResumed
    · exact Except.ok.inj isResumed ▸ rfl
    · split at isResumed
      · simp at isResumed
      · split at isResumed
        · exact resume isResumed
        · exact Except.ok.inj isResumed ▸ rfl

theorem requestNewSession (ok : requestNewSession db = .ok next) : next.deletion = db.deletion := by
  unfold Chats.requestNewSession at ok
  obtain ⟨chat, isChat, entered⟩ := bind_eq_ok.mp ok
  obtain ⟨_, _, requested⟩ := bind_eq_ok.mp entered
  clear ok entered
  split at requested
  · simp at requested
  · split at requested
    · simp at requested
    · split at requested
      · simp at requested
      · obtain ⟨stopped, isStopped, stored⟩ := bind_eq_ok.mp requested
        obtain rfl := Except.ok.inj stored
        exact deletion_of_chat (getChat_eq_ok.mp isChat) rfl rfl rfl

theorem launch {state : State} {tick : Tick} {message : Message} {now : Int}
    {snapshot : Snapshot} {context : String} {launched : Bool}
    (ok : state.launch tick message now snapshot context = .ok (next, launched)) :
    next.deletion = state.db.deletion := by
  unfold State.launch at ok
  dsimp only at ok
  split at ok
  · rename_i started isStarted
    obtain rfl := Except.ok.inj ok
    rcases launchTurn_of_ok isStarted with ⟨rfl, _⟩ | ⟨chat, _, _, _, isChat, _, _, _, _, _, rfl⟩
    · rfl
    · exact deletion_of_chat isChat rfl rfl rfl
  · obtain ⟨paused, isPaused, same⟩ := map_eq_ok.mp ok
    obtain ⟨rfl, _⟩ := Prod.mk.inj same
    exact chatPause isPaused

theorem commit {state : State} {result : Except Error Db}
    (kept : ∀ next, result = .ok next → next.deletion = state.db.deletion) :
    (state.commit result).db.deletion = state.db.deletion := by
  unfold State.commit
  split
  · exact kept _ rfl
  · rfl

/-- Only the steps that the cleanup refines change the deletion of a chat. -/
theorem step {state after : State} {step : Step} (other : step.isRefined = false)
    (taken : state.step step = some after) : after.db.deletion = state.db.deletion := by
  cases step with
  | trash | restore | purge | forget => simp [Step.isRefined] at other
  | send now values =>
      obtain rfl := Option.some.inj taken
      refine commit fun next ok => ?_
      obtain ⟨⟨_, sent⟩, ran, rfl⟩ := map_eq_ok.mp ok
      exact send ran
  | answer now question message answers =>
      obtain rfl := Option.some.inj taken
      refine commit fun next ok => ?_
      obtain ⟨⟨_, stored⟩, ran, rfl⟩ := map_eq_ok.mp ok
      exact answer ran
  | edit message values =>
      obtain rfl := Option.some.inj taken
      exact commit fun next ok => edit ok
  | acknowledge now run message =>
      obtain rfl := Option.some.inj taken
      exact acknowledge now run message
  | claimSteering paused delivering =>
      obtain rfl := Option.some.inj taken
      dsimp only [claimSteering]
      split <;> rfl
  | tick =>
      obtain ⟨_, _, rfl⟩ := Option.map_eq_some_iff.mp taken
      rfl
  | nextQueued =>
      simp only [State.step] at taken
      split at taken
      · obtain rfl := Option.some.inj taken
        rfl
      · simp at taken
  | launchTurn now snapshot context =>
      simp only [State.step] at taken
      split at taken
      · obtain rfl := Option.some.inj taken
        refine commit fun next ok => ?_
        obtain ⟨⟨_, launched⟩, ran, rfl⟩ := map_eq_ok.mp ok
        exact launch ran
      · simp at taken
  | hold now =>
      obtain rfl := Option.some.inj taken
      exact commit fun next ok => chatPause ok
  | pause now paused =>
      obtain rfl := Option.some.inj taken
      exact commit fun next ok => pauseChat ok
  | newSession =>
      obtain rfl := Option.some.inj taken
      exact commit fun next ok => requestNewSession ok
  | cancel now =>
      simp only [State.step] at taken
      split at taken
      · obtain rfl := Option.some.inj taken
        exact commit fun next ok => cancel ok
      · simp at taken
  | resume =>
      simp only [State.step] at taken
      split at taken
      · obtain rfl := Option.some.inj taken
        exact commit fun next ok => resume ok
      · simp at taken
  | schedule now admission =>
      simp only [State.step] at taken
      split at taken
      · split at taken
        · split at taken
          · obtain rfl := Option.some.inj taken
            exact putRun ‹_›
          · obtain rfl := Option.some.inj taken
            rfl
        · simp at taken
      · simp at taken
  | progress checkpoint session resumeAvailable =>
      simp only [State.step] at taken
      split at taken
      · obtain rfl := Option.some.inj taken
        exact commit fun next ok => (putRun ok).trans rfl
      · simp at taken
  | finish now ending =>
      simp only [State.step] at taken
      split at taken
      · split at taken
        · obtain rfl := Option.some.inj taken
          refine commit fun next ok => (putRun ok).trans ?_
          cases ending <;> rfl
        · simp at taken
      · simp at taken
  | restart now =>
      obtain rfl := Option.some.inj taken
      rfl
  | ask run question =>
      obtain rfl := Option.some.inj taken
      dsimp only [receive]
      split
      · split <;> rfl
      · rfl
  | otherRun run =>
      simp only [State.step] at taken
      split at taken
      · obtain rfl := Option.some.inj taken
        exact commit fun next ok => putRun ok
      · simp at taken
  | configure agents projects attachments usedElsewhere =>
      obtain rfl := Option.some.inj taken
      rfl

end Deletion

/-! ### A chat in the trash -/

/-- Nothing is created or delivered: no message, question, event or turn is new, and no
message becomes delivered. -/
structure Isolated (db next : Db) : Prop where
  messages : ∀ later ∈ next.messages, ∃ message ∈ db.messages, later.id = message.id ∧
    (later.status = .delivered → message.status = .delivered)
  questions : ∀ later ∈ next.questions, ∃ question ∈ db.questions, later.id = question.id
  events : ∀ event ∈ next.events, event ∈ db.events
  turn : ∀ later run, next.chat = some later → next.chatRun? later = some run →
    ∃ chat before, db.chat = some chat ∧ db.chatRun? chat = some before ∧ run.id = before.id ∧
      run.chatExecution = before.chatExecution

theorem requireActive_of_inTrash {chat : Chat} (deleted : chat.inTrash = true) :
    chat.requireActive = .error (Error.conflict "Restore this conversation before continuing.") := by
  cases lifecycle : chat.lifecycle <;>
    simp_all [Chat.inTrash, Chat.requireActive, Chat.isActive]

theorem isActive_of_inTrash {chat : Chat} (deleted : chat.inTrash = true) :
    chat.isActive = false := by
  cases lifecycle : chat.lifecycle <;> simp_all [Chat.inTrash, Chat.isActive]

namespace Isolated

/-- Only the runs change, and no run of the chat gets another turn. -/
theorem of_runs (messages : next.messages = db.messages) (questions : next.questions = db.questions)
    (events : next.events = db.events) (chat : next.chat = db.chat)
    (turns : ∀ own id run, db.chat = some own → own.runId = some id → next.run? id = some run →
      ∃ before, db.run? id = some before ∧ run.chatExecution = before.chatExecution) :
    Isolated db next := by
  refine ⟨fun later member => ⟨later, messages ▸ member, rfl, id⟩,
    fun later member => ⟨later, questions ▸ member, rfl⟩, fun event member => events ▸ member, ?_⟩
  intro later run isLater isRun
  obtain ⟨id, own, found⟩ := Option.bind_eq_some_iff.mp isRun
  obtain ⟨before, known, turn⟩ := turns later id run (chat ▸ isLater) own found
  refine ⟨later, before, chat ▸ isLater, Option.bind_eq_some_iff.mpr ⟨id, own, known⟩, ?_, turn⟩
  exact (mem_of_find found).2.trans (mem_of_find known).2.symm

theorem of_same (messages : next.messages = db.messages) (questions : next.questions = db.questions)
    (events : next.events = db.events) (chat : next.chat = db.chat) (runs : next.runs = db.runs) :
    Isolated db next :=
  of_runs messages questions events chat fun _ _ run _ _ found =>
    ⟨run, by rw [Db.run?, ← runs]; exact found, rfl⟩

theorem refl (db : Db) : Isolated db db := of_same rfl rfl rfl rfl rfl

/-- A run that is stored again keeps its turn. -/
theorem of_put {stored later : Run} (messages : next.messages = db.messages)
    (questions : next.questions = db.questions) (events : next.events = db.events)
    (chat : next.chat = db.chat) (found : db.run? later.id = some stored)
    (turn : later.chatExecution = stored.chatExecution)
    (runs : next.runs = put Run.id later db.runs) : Isolated db next := by
  refine of_runs messages questions events chat fun _ id run _ _ known => ?_
  rw [Db.run?, runs, find_put] at known
  split at known
  · rename_i same
    obtain rfl := Option.some.inj known
    exact ⟨stored, same ▸ found, turn⟩
  · exact ⟨run, known, rfl⟩

theorem cancel {id : String} {isActive : Bool} {now : Int}
    (ok : cancel db id isActive now = .ok next) : Isolated db next := by
  obtain ⟨run, later, found, _, rfl, named, turn, _⟩ := cancel_of_ok ok
  obtain rfl : run.id = id := (mem_of_find found).2
  exact of_put rfl rfl rfl rfl (named ▸ found) turn rfl

theorem commit {state : State} {result : Except Error Db}
    (isolated : ∀ next, result = .ok next → Isolated state.db next) :
    Isolated state.db (state.commit result).db := by
  unfold State.commit
  split
  · exact isolated _ rfl
  · exact refl _

/-- A request that needs an active chat is refused. -/
theorem refused {Value : Type} {rest : Chat → Unit → Except Error Value} {value : Value} {chat : Chat}
    (isChat : db.chat = some chat) (deleted : chat.inTrash = true)
    (ok : (do
      let chat ← db.getChat
      let active ← chat.requireActive
      rest chat active) = .ok value) : False := by
  obtain ⟨other, isOther, entered⟩ := bind_eq_ok.mp ok
  obtain rfl := Option.some.inj (isChat.symm.trans (getChat_eq_ok.mp isOther))
  obtain ⟨_, active, _⟩ := bind_eq_ok.mp entered
  rw [requireActive_of_inTrash deleted] at active
  simp at active

variable {chat : Chat}

theorem send {now : Int} {values : Values} {answer : Option (Question × Answers)} {sent : Message}
    (isChat : db.chat = some chat) (deleted : chat.inTrash = true) :
    send db now values answer ≠ .ok (next, sent) := fun ok => by
  unfold Chats.send at ok
  exact refused isChat deleted ok

theorem answer {now : Int} {question message : String} {answers : Answers} {stored : Question}
    (isChat : db.chat = some chat) (deleted : chat.inTrash = true)
    (ok : answer db now question message answers = .ok (next, stored)) : next = db := by
  unfold Chats.answer at ok
  obtain ⟨_, _, entered⟩ := bind_eq_ok.mp ok
  clear ok
  split at entered
  · simp at entered
  · dsimp only at entered
    split at entered
    · exact (Prod.mk.inj (Except.ok.inj entered)).1.symm
    · split at entered
      · simp at entered
      · split at entered
        · simp at entered
        · obtain ⟨⟨sent, message⟩, isSent, _⟩ := bind_eq_ok.mp entered
          exact absurd isSent (send isChat deleted)

theorem chatPause {now : Int} {paused : Bool} (isChat : db.chat = some chat)
    (deleted : chat.inTrash = true) : chatPause db now paused ≠ .ok next := fun ok => by
  unfold Chats.chatPause at ok
  exact refused isChat deleted ok

/-- A run of the chat is not queued again. -/
theorem requeue {id : String} (isChat : db.chat = some chat) (deleted : chat.inTrash = true)
    (own : chat.runId = some id) : ∃ error, requeue db id = .error error := by
  have forRun : db.chatForRun id = some chat := by
    rw [Db.chatForRun, isChat]
    exact Option.filter_eq_some_iff.mpr ⟨rfl, by simpa using own⟩
  unfold Worker.requeue
  split
  · exact ⟨_, rfl⟩
  · dsimp only
    rw [forRun, Option.any_some, if_pos (by simp [isActive_of_inTrash deleted])]
    exact ⟨_, rfl⟩

theorem resume {id : String} {isActive : Bool} (isChat : db.chat = some chat)
    (deleted : chat.inTrash = true) (own : chat.runId = some id) :
    ∃ error, Worker.resume db id isActive = .error error := by
  unfold Worker.resume
  split
  · exact ⟨_, rfl⟩
  · exact requeue isChat deleted own

/-- A turn that was being prepared is not launched. -/
theorem launch {state : State} {tick : Tick} {message : Message} {now : Int} {snapshot : Snapshot}
    {context : String} {launched : Bool} (isChat : state.db.chat = some chat)
    (deleted : chat.inTrash = true)
    (ok : state.launch tick message now snapshot context = .ok (next, launched)) :
    next = state.db ∧ launched = false := by
  unfold State.launch at ok
  dsimp only at ok
  split at ok
  · rename_i started isStarted
    obtain rfl := Except.ok.inj ok
    rcases launchTurn_of_ok isStarted with same | ⟨other, _, _, _, isOther, active, _⟩
    · exact same
    · obtain rfl := Option.some.inj (isChat.symm.trans isOther)
      rw [isActive_of_inTrash deleted] at active
      simp at active
  · obtain ⟨paused, isPaused, _⟩ := map_eq_ok.mp ok
    exact absurd isPaused (chatPause isChat deleted)

/-- A step of the chat creates and delivers nothing while it is in the trash. -/
theorem step {state after : State} {step : Step} (isChat : state.db.chat = some chat)
    (deleted : chat.inTrash = true) (other : step.isRefined = false)
    (taken : state.step step = some after) : Isolated state.db after.db := by
  cases step with
  | trash | restore | purge | forget => simp [Step.isRefined] at other
  | send now values =>
      obtain rfl := Option.some.inj taken
      refine commit fun next ok => ?_
      obtain ⟨⟨_, sent⟩, ran, rfl⟩ := map_eq_ok.mp ok
      exact absurd ran (send isChat deleted)
  | answer now question message answers =>
      obtain rfl := Option.some.inj taken
      refine commit fun next ok => ?_
      obtain ⟨⟨_, stored⟩, ran, rfl⟩ := map_eq_ok.mp ok
      rw [answer isChat deleted ran]
      exact refl _
  | edit message values =>
      obtain rfl := Option.some.inj taken
      refine commit fun next ok => ?_
      unfold edit at ok
      exact (refused isChat deleted ok).elim
  | acknowledge now run message =>
      obtain rfl := Option.some.inj taken
      dsimp only [acknowledge]
      split
      · exact refl _
      · rename_i own isOwn
        obtain rfl := Option.some.inj (isChat.symm.trans (Option.filter_eq_some_iff.mp isOwn).1)
        split
        · exact refl _
        · rw [if_pos (by simp [isActive_of_inTrash deleted])]
          exact refl _
  | claimSteering paused delivering =>
      obtain rfl := Option.some.inj taken
      dsimp only [claimSteering]
      rw [isChat, Option.any_some, if_pos (by simp [isActive_of_inTrash deleted])]
      exact refl _
  | tick =>
      obtain ⟨_, _, rfl⟩ := Option.map_eq_some_iff.mp taken
      exact refl _
  | nextQueued =>
      simp only [State.step] at taken
      split at taken
      · obtain rfl := Option.some.inj taken
        refine ⟨fun later member => ?_, fun later member => ⟨later, member, rfl⟩,
          fun _ member => member, fun later run isLater isRun =>
            ⟨later, run, isLater, isRun, rfl, rfl⟩⟩
        obtain ⟨message, stored, rfl⟩ := List.mem_map.mp member
        refine ⟨message, stored, ?_, fun delivered => ?_⟩
        · split <;> rfl
        · split at delivered
          · simp at delivered
          · exact delivered
      · simp at taken
  | launchTurn now snapshot context =>
      simp only [State.step] at taken
      split at taken
      · obtain rfl := Option.some.inj taken
        refine commit fun next ok => ?_
        obtain ⟨⟨_, launched⟩, ran, rfl⟩ := map_eq_ok.mp ok
        rw [(launch isChat deleted ran).1]
        exact refl _
      · simp at taken
  | hold now =>
      obtain rfl := Option.some.inj taken
      exact commit fun next ok => absurd ok (chatPause isChat deleted)
  | pause now paused =>
      obtain rfl := Option.some.inj taken
      refine commit fun next ok => ?_
      unfold pauseChat at ok
      exact (refused isChat deleted ok).elim
  | newSession =>
      obtain rfl := Option.some.inj taken
      refine commit fun next ok => ?_
      unfold requestNewSession at ok
      exact (refused isChat deleted ok).elim
  | cancel now =>
      simp only [State.step] at taken
      split at taken
      · obtain rfl := Option.some.inj taken
        exact commit fun next ok => cancel ok
      · simp at taken
  | resume =>
      simp only [State.step] at taken
      split at taken
      · rename_i run own
        obtain rfl := Option.some.inj taken
        have isOwn : chat.runId = some run := by simpa [State.runId, isChat] using own
        refine commit fun next ok => ?_
        obtain ⟨error, isRefused⟩ := @resume _ chat run (state.executing = some run) isChat deleted isOwn
        simp [isRefused] at ok
      · simp at taken
  | schedule now admission =>
      simp only [State.step] at taken
      split at taken
      · rename_i run own
        obtain ⟨_, _, found⟩ := Option.bind_eq_some_iff.mp own
        obtain ⟨known, rfl⟩ := mem_of_find found
        split at taken
        · have launched := tryLaunch_run run (state.db.checkpoints run.id) admission now
          split at taken
          · rename_i stored
            obtain rfl := Option.some.inj taken
            obtain rfl := putRun_of_ok stored
            exact of_put rfl rfl rfl rfl (by rw [launched.1]; exact found) launched.2.1 rfl
          · obtain rfl := Option.some.inj taken
            exact refl _
        · simp at taken
      · simp at taken
  | progress checkpoint session resumeAvailable =>
      simp only [State.step] at taken
      split at taken
      · rename_i run executing
        obtain ⟨_, _, found⟩ := Option.bind_eq_some_iff.mp executing
        obtain ⟨known, rfl⟩ := mem_of_find found
        obtain rfl := Option.some.inj taken
        refine commit fun next ok => ?_
        obtain rfl := putRun_of_ok ok
        exact @of_put _ _ run { run with sessionId := session, resumeAvailable } rfl rfl rfl rfl
          found rfl rfl
      · simp at taken
  | finish now ending =>
      simp only [State.step] at taken
      split at taken
      · rename_i run executing
        obtain ⟨_, _, found⟩ := Option.bind_eq_some_iff.mp executing
        obtain ⟨known, rfl⟩ := mem_of_find found
        split at taken
        · obtain rfl := Option.some.inj taken
          refine commit fun next ok => ?_
          obtain rfl := putRun_of_ok ok
          cases ending with
          | settled status summary =>
              exact @of_put _ _ run (Ending.patch (.settled status summary) now run) rfl rfl rfl rfl
                found rfl rfl
          | recovering checkpoint reason =>
              exact @of_put _ _ run (Ending.patch (.recovering checkpoint reason) now run) rfl rfl
                rfl rfl found rfl rfl
        · simp at taken
      · simp at taken
  | restart now =>
      obtain rfl := Option.some.inj taken
      refine of_runs rfl rfl rfl rfl fun _ id run _ _ found => ?_
      have kept : ∀ row : Run, (restoreAfterRestart (state.db.checkpoints row.id) now row).id =
          row.id ∧ (restoreAfterRestart (state.db.checkpoints row.id) now row).chatExecution =
            row.chatExecution := fun row => by
        unfold restoreAfterRestart
        split
        · exact ⟨rfl, rfl⟩
        · split
          · split <;> exact ⟨rfl, rfl⟩
          · split <;> exact ⟨rfl, rfl⟩
      rw [Db.run?, find_map fun row => (kept row).1] at found
      obtain ⟨before, known, rfl⟩ := Option.map_eq_some_iff.mp found
      exact ⟨before, known, (kept before).2⟩
  | ask run question =>
      obtain rfl := Option.some.inj taken
      dsimp only [receive]
      rw [if_neg]
      · exact refl _
      · rw [Option.any_eq_true]
        rintro ⟨own, isOwn, active⟩
        obtain rfl := Option.some.inj (isChat.symm.trans (Option.filter_eq_some_iff.mp isOwn).1)
        simp [isActive_of_inTrash deleted] at active
  | otherRun run =>
      simp only [State.step] at taken
      split at taken
      · rename_i apart
        obtain rfl := Option.some.inj taken
        refine commit fun next ok => ?_
        obtain rfl := putRun_of_ok ok
        refine of_runs rfl rfl rfl rfl fun own id later isOwn named found => ?_
        rw [Db.run?, find_put, if_neg] at found
        · exact ⟨later, found, rfl⟩
        · rintro rfl
          simp [State.runId, isOwn, named] at apart
      · simp at taken
  | configure agents projects attachments usedElsewhere =>
      obtain rfl := Option.some.inj taken
      exact of_same rfl rfl rfl rfl rfl

/-- The chat changes, but not which run is its own. -/
theorem of_chat (messages : next.messages = db.messages)
    (questions : ∀ later ∈ next.questions, ∃ question ∈ db.questions, later.id = question.id)
    (events : next.events = db.events) (runs : next.runs = db.runs)
    (kept : ∀ later, next.chat = some later → ∃ chat, db.chat = some chat ∧
      later.runId = chat.runId) : Isolated db next := by
  refine ⟨fun later member => ⟨later, messages ▸ member, rfl, id⟩, questions,
    fun event member => events ▸ member, fun later run isLater isRun => ?_⟩
  obtain ⟨chat, isChat, own⟩ := kept later isLater
  refine ⟨chat, run, isChat, ?_, rfl, rfl⟩
  rw [← isRun, Db.chatRun?, Db.chatRun?, own]
  exact congrArg (Option.bind chat.runId) (funext fun id => by rw [Db.run?, Db.run?, runs])

end Isolated

/-! ### Links -/

/-- What a change of the artifacts leaves of the links of one run. -/
def Sharing.SharesNothing (sharing later : Sharing) (run : Option String) : Prop :=
  ∀ link ∈ later.links, some link.runId = run → link ∈ sharing.links

namespace Sharing

variable {sharing later : Sharing} {chat : Chat}

theorem mem_of_unlink {links : List ShareLink} {artifact : Artifact} {link : ShareLink}
    (member : link ∈ unlink links artifact) : link ∈ links := by
  unfold unlink at member
  split at member
  · exact (mem_remove.mp member).1
  · exact member

theorem mem_of_unlinks {links : List ShareLink} {artifacts : List Artifact} {link : ShareLink}
    (member : link ∈ artifacts.foldl unlink links) : link ∈ links := by
  induction artifacts generalizing links with
  | nil => exact member
  | cons artifact rest inductionHypothesis => exact mem_of_unlink (inductionHypothesis member)

/-- No link to an artifact of a chat in the trash is made. -/
theorem apply_sharesNothing {record : Artifact} {visibility : Visibility} {origin fresh : String}
    (isChat : db.chat = some chat) (deleted : chat.inTrash = true)
    (ok : apply db sharing record visibility origin fresh = .ok later) :
    sharing.SharesNothing later chat.runId := by
  intro link member own
  cases visibility with
  | shared =>
      obtain ⟨_, active, stored⟩ := bind_eq_ok.mp ok
      obtain rfl := Except.ok.inj stored
      rcases mem_put.mp member with rfl | ⟨kept, _⟩
      · have forRun : db.chatForRun record.runId = some chat := by
          rw [Db.chatForRun, isChat]
          exact Option.filter_eq_some_iff.mpr ⟨rfl, by simpa using own.symm⟩
        simp [requireActiveRun, forRun, requireActive_of_inTrash deleted] at active
      · exact kept
  | hidden =>
      obtain rfl := Except.ok.inj ok
      exact mem_of_unlink member

theorem set_sharesNothing {run artifact : String} {visibility : Visibility}
    {origin fresh : String} {authorized : Bool} (isChat : db.chat = some chat)
    (deleted : chat.inTrash = true)
    (ok : set db sharing run artifact visibility origin fresh authorized = .ok later) :
    sharing.SharesNothing later chat.runId := by
  unfold set at ok
  split at ok
  · simp at ok
  · split at ok
    · simp at ok
    · split at ok
      · simp at ok
      · exact apply_sharesNothing isChat deleted ok

theorem commit_sharesNothing {record : Artifact} {visibility : Visibility}
    {origin fresh : String} {current : Bool} (isChat : db.chat = some chat)
    (deleted : chat.inTrash = true)
    (ok : commit db sharing record visibility origin fresh current = .ok later) :
    sharing.SharesNothing later chat.runId := by
  obtain ⟨_, _, entered⟩ := bind_eq_ok.mp ok
  split at entered
  · simp at entered
  · exact apply_sharesNothing isChat deleted entered

end Sharing

/-! ### Changes of a conversation -/

/-- A change creates, delivers and shares nothing of a chat. -/
structure Protects (chat : Chat) (conversation next : Conversation) : Prop where
  tables : Isolated conversation.db next.db
  links : conversation.sharing.SharesNothing next.sharing chat.runId

/-- What a change does to the deletion of the chat. -/
inductive DeletionChange (conversation next : Conversation) : Change → Prop where
  | kept {change : Change} (same : next.db.deletion = conversation.db.deletion) :
      DeletionChange conversation next change
  | trashed {now : Int} {confirmed : Bool} (chat deleted : Chat)
      (isChat : conversation.db.chat = some chat) (present : chat.inTrash = false)
      (isDeleted : next.db.chat = some deleted) (lifecycle : deleted.lifecycle = .trash)
      (purgeAt : deleted.purgeAt = some (now + trashRetention)) :
      DeletionChange conversation next (.trash now confirmed)
  | restored {now : Int} (chat later : Chat) (unlocked : conversation.cleanup = none)
      (isChat : conversation.db.chat = some chat) (deleted : chat.lifecycle = .trash)
      (isLater : next.db.chat = some later) (active : later.lifecycle = .active) :
      DeletionChange conversation next (.restore now)
  | claimed {now : Int} (chat later : Chat) (isChat : conversation.db.chat = some chat)
      (deleted : chat.inTrash = true) (isLater : next.db.chat = some later)
      (purging : later.lifecycle = .purging) (purgeAt : later.purgeAt = chat.purgeAt) :
      DeletionChange conversation next (.claim now)
  | purged (gone : next.db.chat = none) : DeletionChange conversation next .purged

end Cairn.Chats

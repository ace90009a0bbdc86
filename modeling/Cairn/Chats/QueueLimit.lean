import Cairn.Chats.Lifecycle

/-!
Owns the limit on the messages of a chat that are not delivered: what `requireSendable`
counts, which of the counted messages still wait, and what deleting a chat and
restoring it leaves of the limit. `queue_drains_iff` is the main result.
-/

set_option autoImplicit false

namespace Cairn.Chats

open Cairn.Library.Steps Cairn.Library.Results

/-! ### What the limit counts -/

/-- The messages that wait for delivery. -/
def Db.waiting (db : Db) : Nat := db.messages.countP Message.isPending

/-- The messages that a deletion cancelled. -/
def Db.cancelled (db : Db) : Nat :=
  db.messages.countP fun message => message.status = .cancelled

/-- The refusal of a full queue. -/
def queueFull : Error :=
  Error.conflict "The queue is full. Wait for a reply or remove a queued message."

/-- The queue is called full only while enough messages wait for delivery. -/
def Db.Drains (db : Db) : Prop :=
  ∀ chat id, requireSendable db chat id = .error queueFull → maxUndelivered ≤ db.waiting

/-- What is not delivered waits or was cancelled. -/
theorem undelivered_eq (messages : List Message) :
    messages.countP (fun message => message.status ≠ .delivered) =
      messages.countP Message.isPending +
        messages.countP fun message => message.status = .cancelled := by
  induction messages with
  | nil => rfl
  | cons message messages inductionHypothesis =>
      rw [List.countP_cons, List.countP_cons, List.countP_cons, inductionHypothesis]
      unfold Message.isPending
      cases message.status with
      | queued => simp; omega
      | sending => simp; omega
      | delivered => simp
      | cancelled => simp; omega

/-- The queue is called full exactly when the limit counts too many messages. -/
theorem queueFull_iff {db : Db} {chat : Chat} {id : String} :
    requireSendable db chat id = .error queueFull ↔ maxUndelivered ≤ db.waiting + db.cancelled := by
  unfold requireSendable Db.waiting Db.cancelled
  rw [undelivered_eq]
  constructor
  · intro refused
    by_contra room
    rw [if_neg room] at refused
    split at refused
    · exact absurd (Except.error.inj refused) (by decide)
    · split at refused
      · exact absurd (Except.error.inj refused) (by decide)
      · rename_i agent _
        rcases bind_eq_error refused with node | ⟨_, _, projects⟩
        · unfold Worker.requireNode at node
          split at node
          · exact absurd (Except.error.inj node) (by decide)
          · cases node
        · rcases bind_eq_error projects with project | ⟨_, _, cleaned⟩
          · unfold taskProjects at project
            split at project
            · split at project
              · cases project
              · exact absurd (Except.error.inj project) (by decide)
            · cases project
          · split at cleaned
            · exact absurd (Except.error.inj cleaned) (by decide)
            · cases cleaned
  · intro full
    exact if_pos full

/-- The queue drains exactly when the waiting messages reach the limit alone, or do not
reach it with those that deletions cancelled. -/
theorem drains_iff (db : Db) : db.Drains ↔
    maxUndelivered ≤ db.waiting ∨ db.waiting + db.cancelled < maxUndelivered := by
  constructor
  · intro drains
    by_cases full : maxUndelivered ≤ db.waiting + db.cancelled
    · exact Or.inl (drains { id := "", agentId := "" } "" (queueFull_iff.mpr full))
    · exact Or.inr (Nat.lt_of_not_le full)
  · rintro (alone | room) chat id refused
    · exact alone
    · exact absurd (queueFull_iff.mp refused) (Nat.not_le_of_lt room)

/-! ### What deletions cancel -/

variable {db next : Db}

/-- No message of the chat is cancelled. -/
def Db.Uncancelled (db : Db) : Prop := ∀ message ∈ db.messages, message.status ≠ .cancelled

theorem Db.Uncancelled.count (uncancelled : db.Uncancelled) : db.cancelled = 0 :=
  List.countP_eq_zero.mpr fun message member => by simpa using uncancelled message member

/-- Nothing waits for delivery. -/
theorem waiting_eq_zero : db.waiting = 0 ↔ ∀ message ∈ db.messages, message.isPending = false := by
  unfold Db.waiting
  rw [List.countP_eq_zero]
  exact forall₂_congr fun message _ => by rw [Bool.not_eq_true]

/-- A deletion that finds nothing waiting cancels nothing, and nothing else cancels. -/
theorem MessageChange.uncancelled {step : Step} (change : MessageChange step db next)
    (uncancelled : db.Uncancelled)
    (quiet : ∀ now confirmed, step = .trash now confirmed → db.waiting = 0) : next.Uncancelled := by
  cases change with
  | kept messages => exact fun message member => uncancelled message (messages ▸ member)
  | rewritten update messages _ _ moves _ kept =>
      intro message member
      rw [messages] at member
      obtain ⟨row, stored, rfl⟩ := List.mem_map.mp member
      intro isCancelled
      rcases kept with ⟨now, confirmed, isTrash⟩ | kept
      · have still := waiting_eq_zero.mp (quiet now confirmed isTrash) row stored
        have moved := moves row stored
        rw [isCancelled] at moved
        have before := uncancelled row stored
        unfold Message.isPending at still
        cases status : row.status with
        | queued => simp [status] at still
        | sending => simp [status] at still
        | delivered => simp [status, MessageStatus.moves] at moved
        | cancelled => exact before status
      · exact uncancelled row stored (kept row stored isCancelled)
  | sent message _ _ queued messages =>
      intro row member
      rcases List.mem_cons.mp (messages.mem_iff.mp member) with rfl | old
      · rw [queued]
        nofun
      · exact uncancelled row old
  | delivered message _ _ _ messages =>
      intro row member
      rw [messages] at member
      obtain ⟨before, stored, rfl⟩ := List.mem_map.mp member
      split
      · nofun
      · exact uncancelled before stored
  | withdrawn message _ _ _ messages =>
      intro row member
      rw [messages] at member
      exact uncancelled row (List.mem_of_mem_filter member)
  | purged _ messages =>
      intro row member
      rw [messages] at member
      cases member

/-- A deletion that was not confirmed stops nothing that waits. -/
theorem trash_unconfirmed {now : Int} (waits : db.waiting ≠ 0)
    (ok : trash db now false = .ok next) : next = db := by
  unfold trash at ok
  obtain ⟨chat, isChat, entered⟩ := bind_eq_ok.mp ok
  split at entered
  · exact (Except.ok.inj entered).symm
  · dsimp only at entered
    split at entered
    · cases entered
    · rename_i idle
      refine absurd (waiting_eq_zero.mpr fun message member => ?_) waits
      rw [Bool.not_false, Bool.and_true, Bool.not_eq_true] at idle
      unfold Db.busy at idle
      rw [Bool.or_eq_false_iff, Bool.or_eq_false_iff] at idle
      exact Bool.not_eq_true _ ▸ List.any_eq_false.mp idle.1.2 message member

/-- A confirmed deletion finds nothing waiting. -/
def Quiet (state : State) (step : Step) : Prop :=
  ∀ now, step = .trash now true → state.db.waiting = 0

/-- A step that is no deletion of waiting messages cancels none. -/
theorem step_uncancelled {state after : State} {step : Step} (recorded : state.db.Recorded)
    (uncancelled : state.db.Uncancelled) (quiet : Quiet state step)
    (taken : state.step step = some after) : after.db.Uncancelled := by
  have changes := (step_changes recorded.keyed taken).change
  by_cases waits : state.db.waiting = 0
  · exact changes.uncancelled uncancelled fun _ _ _ => waits
  · by_cases unconfirmed : ∃ now, step = .trash now false
    · obtain ⟨now, rfl⟩ := unconfirmed
      obtain rfl := Option.some.inj taken
      unfold State.trash
      split
      · exact uncancelled
      · rename_i db ok
        obtain rfl := trash_unconfirmed waits ok
        dsimp only
        split
        · unfold State.commit
          split
          · rename_i next cancelled
            have messages := (KeepsMessages.cancel cancelled).messages
            exact fun message member => uncancelled message (messages ▸ member)
          · exact uncancelled
        · exact uncancelled
    · refine changes.uncancelled uncancelled fun now confirmed isTrash => ?_
      cases confirmed with
      | true => exact quiet now isTrash
      | false => exact absurd ⟨now, isTrash⟩ unconfirmed

/-- Over a run whose deletions find nothing waiting, no message is cancelled. -/
theorem run_uncancelled {initial final : State} {steps : List Step} (started : initial.Started)
    (quiet : Throughout State.step Quiet initial steps)
    (ran : execute State.step initial steps = some final) : final.db.Uncancelled := by
  have begins : initial.db.Recorded ∧ initial.db.Uncancelled :=
    ⟨started.recorded, fun message member => by
      rw [started.1] at member
      cases member⟩
  have invariant : final.db.Recorded ∧ final.db.Uncancelled :=
    @execute_invariant_where _ _ State.step
      (fun state => state.db.Recorded ∧ state.db.Uncancelled) Quiet
      (fun state step next holds quiet taken =>
        ⟨holds.1.step (step_changes holds.1.keyed taken),
          step_uncancelled holds.1 holds.2 quiet taken⟩)
      steps initial final begins quiet ran
  exact invariant.2

/-! ### The limit over runs -/

/-- In every state that a run reaches, the queue drains exactly when the waiting messages
reach the limit alone or do not reach it with the cancelled ones; and it drains in every
state of a run whose deletions find nothing waiting, where a chat without waiting messages
is never called full. -/
theorem queue_drains_iff {initial final : State} {steps : List Step} (started : initial.Started)
    (ran : execute State.step initial steps = some final) :
    (final.db.Drains ↔
      maxUndelivered ≤ final.db.waiting ∨
        final.db.waiting + final.db.cancelled < maxUndelivered) ∧
    (Throughout State.step Quiet initial steps → final.db.Drains ∧
      (final.db.waiting = 0 → ∀ chat id, requireSendable final.db chat id ≠ .error queueFull)) := by
  refine ⟨drains_iff final.db, fun quiet => ?_⟩
  have none := (run_uncancelled started quiet ran).count
  have drains : final.db.Drains := by
    rw [drains_iff, none]
    omega
  refine ⟨drains, fun drained chat id refused => ?_⟩
  have full := drains chat id refused
  rw [drained] at full
  exact absurd full (by decide)

/-! ### Chats that are deleted and restored -/

/-- As many messages as the limit allows. -/
def fullQueue : List Step :=
  (List.range maxUndelivered).map fun place : Nat =>
    Step.send place { id := String.singleton (Char.ofNat (97 + place)), text := "Hello" }

theorem queue_full_after_restore :
    ¬ ∀ (initial final : State) (steps : List Step), initial.Started →
      execute State.step initial steps = some final →
      ∀ chat id, requireSendable final.db chat id = .error queueFull →
        maxUndelivered ≤ final.db.waiting := by
  intro claimed
  have drains := claimed newChat _ (fullQueue ++ [.trash 20 true, .restore 21]) newChat_started rfl
    { id := "chat", agentId := "agent" } "more" rfl
  exact absurd drains (by decide)

/-- A chat whose only message is withdrawn before it is deleted. -/
def emptiedChat : List Step :=
  [.send 1 { id := "first", text := "Hello" }, .edit "first" none, .trash 2 true, .restore 3]

theorem queue_drains_emptied :
    (((execute State.step newChat emptiedChat).getD newChat).db).Drains :=
  ((@queue_drains_iff _ _ emptiedChat newChat_started rfl).2
    ⟨nofun, fun _ sent => ⟨nofun, fun _ withdrawn => ⟨fun _ _ => by
      obtain rfl := Option.some.inj sent
      obtain rfl := Option.some.inj withdrawn
      decide, fun _ _ => ⟨nofun, fun _ _ => trivial⟩⟩⟩⟩).1

end Cairn.Chats

import Cairn.Chats.TrashIsolation

/-!
Owns the runs of a chat with its cleanup: what every change leaves of a chat in the trash,
how its deletion moves and when a purge starts.

Does not own what one transaction of the chat does.
-/

set_option autoImplicit false

namespace Cairn.Chats

open Cairn.Library.Records
open Cairn.Library.Results
open Cairn.Library.Steps
open Cairn.Worker

variable {db next : Db} {conversation after : Conversation}

/-! ### The transactions of the cleanup -/

/-- A chat is claimed in the trash, without an active run. -/
theorem markPurging_stores (ok : markPurging db = .ok (next, true)) :
    ∃ chat, db.chat = some chat ∧ chat.inTrash = true ∧
      ((db.chatRun? chat).any fun run => run.status.isActive) = false ∧
      next = db.putChat { chat with lifecycle := .purging } := by
  unfold markPurging at ok
  obtain ⟨chat, isChat, entered⟩ := bind_eq_ok.mp ok
  split at entered
  · simp at entered
  · rename_i idle
    simp only [Bool.or_eq_true, Bool.not_eq_true', not_or, Bool.not_eq_false,
      Bool.not_eq_true] at idle
    exact ⟨chat, getChat_eq_ok.mp isChat, idle.1, idle.2,
      (Prod.mk.inj (Except.ok.inj entered)).1.symm⟩

/-- What a claim leaves: a chat that was listed as due and is claimed, or no claim. -/
theorem claim_stores (listed : Option Chat) (now : Int) :
    (∃ snapshot chat, listed = some snapshot ∧ purgeDue snapshot now = true ∧
      conversation.db.chat = some chat ∧ chat.inTrash = true ∧
      ((conversation.db.chatRun? chat).any fun run => run.status.isActive) = false ∧
      conversation.claim listed now =
        { conversation.withDb (conversation.db.putChat { chat with lifecycle := .purging }) with
          cleanup := some (.claimed { chat with lifecycle := .purging }) }) ∨
      conversation.claim listed now = { conversation with cleanup := some (.listed none) } ∨
      conversation.claim listed now = { conversation with cleanup := none } := by
  unfold Conversation.claim
  split
  · rename_i due
    obtain ⟨snapshot, isListed, due⟩ := (Option.any_eq_true _ _).mp due
    split
    · rename_i marked isMarked
      obtain ⟨chat, isChat, deleted, idle, rfl⟩ := markPurging_stores isMarked
      exact .inl ⟨snapshot, chat, isListed, due, isChat, deleted, idle, rfl⟩
    · exact .inr (.inl rfl)
    · exact .inr (.inr rfl)
  · exact .inr (.inl rfl)

theorem restore_stores {now : Int} (ok : restore db now = .ok next) :
    ∃ chat, db.chat = some chat ∧ chat.lifecycle = .trash ∧
      next = db.putChat { chat with
        lifecycle := .active
        trashedAt := none
        purgeAt := none
        retryAfter := none } := by
  unfold restore at ok
  obtain ⟨chat, isChat, entered⟩ := bind_eq_ok.mp ok
  split at entered
  · simp at entered
  · rename_i deleted
    split at entered
    · simp at entered
    · split at entered
      · simp at entered
      · exact ⟨chat, getChat_eq_ok.mp isChat, not_not.mp deleted, (Except.ok.inj entered).symm⟩

/-- A chat that is deleted again stays as it is. -/
theorem trash_again {chat : Chat} {now : Int} {confirmed : Bool} (isChat : db.chat = some chat)
    (deleted : chat.inTrash = true) : trash db now confirmed = .ok db := by
  simp [trash, Db.getChat, isChat, deleted, bind, Except.bind]

theorem trash_moves {now : Int} {confirmed : Bool} (ok : trash db now confirmed = .ok next) :
    ∃ chat, db.chat = some chat ∧ (chat.inTrash = true ∧ next = db ∨
      chat.inTrash = false ∧ ∃ deleted, next.chat = some deleted ∧ deleted.lifecycle = .trash ∧
        deleted.purgeAt = some (now + trashRetention)) := by
  unfold trash at ok
  obtain ⟨chat, isChat, entered⟩ := bind_eq_ok.mp ok
  refine ⟨chat, getChat_eq_ok.mp isChat, ?_⟩
  split at entered
  · rename_i deleted
    exact .inl ⟨deleted, (Except.ok.inj entered).symm⟩
  · rename_i present
    dsimp only at entered
    split at entered
    · simp at entered
    · obtain rfl := Except.ok.inj entered
      exact .inr ⟨Bool.eq_false_iff.mpr present, _, rfl, rfl, rfl⟩

/-! ### A change of a chat in the trash -/

theorem commitSharing_db {result : Except Error Sharing} :
    (conversation.commitSharing result).db = conversation.db := by
  unfold Conversation.commitSharing
  split <;> rfl

theorem commitSharing_cleanup {result : Except Error Sharing} :
    (conversation.commitSharing result).cleanup = conversation.cleanup := by
  unfold Conversation.commitSharing
  split <;> rfl

theorem commitSharing_links {chat : Chat} {result : Except Error Sharing}
    (nothing : ∀ later, result = .ok later →
      conversation.sharing.SharesNothing later chat.runId) :
    conversation.sharing.SharesNothing (conversation.commitSharing result).sharing chat.runId := by
  unfold Conversation.commitSharing
  split
  · exact nothing _ rfl
  · exact fun link member _ => member

/-- Nothing happens to a chat in the trash but its restore and its purge. -/
theorem change_protects {chat : Chat} {change : Change} (isChat : conversation.db.chat = some chat)
    (deleted : chat.inTrash = true) (taken : conversation.change change = some after) :
    Protects chat conversation after := by
  have same : conversation.sharing.SharesNothing conversation.sharing chat.runId :=
    fun link member _ => member
  cases change with
  | chat step =>
      simp only [Conversation.change] at taken
      split at taken
      · simp at taken
      · rename_i other
        obtain ⟨state, stepped, rfl⟩ := Option.map_eq_some_iff.mp taken
        exact ⟨.step isChat deleted (Bool.eq_false_iff.mpr other) stepped, same⟩
  | release run id =>
      obtain rfl := Option.some.inj taken
      refine ⟨?_, same⟩
      change Isolated conversation.db (release conversation.db run id)
      unfold release
      split
      · exact .refl _
      · refine .of_chat rfl (fun later member => ?_) rfl rfl fun later isLater => ⟨later, isLater, rfl⟩
        obtain ⟨question, known, rfl⟩ := List.mem_map.mp member
        exact ⟨question, known, by split <;> rfl⟩
  | trash now confirmed =>
      obtain rfl := Option.some.inj taken
      have again : conversation.trash now confirmed = conversation := by
        simp only [Conversation.trash, trash_again isChat deleted, isChat, deleted, if_true]
        rfl
      rw [again]
      exact ⟨.refl _, same⟩
  | restore now =>
      simp only [Conversation.change] at taken
      split at taken
      · obtain rfl := Option.some.inj taken
        exact ⟨.refl _, same⟩
      · split at taken
        · rename_i restored
          obtain rfl := Option.some.inj taken
          obtain ⟨own, isOwn, _, rfl⟩ := restore_stores restored
          refine ⟨.of_chat rfl (fun later member => ⟨later, member, rfl⟩) rfl rfl
            fun later isLater => ⟨own, isOwn, ?_⟩, same⟩
          obtain rfl := Option.some.inj isLater
          rfl
        · obtain rfl := Option.some.inj taken
          exact ⟨.refl _, same⟩
  | share run artifact visibility origin fresh authorized =>
      obtain rfl := Option.some.inj taken
      refine ⟨?_, commitSharing_links fun later ok => Sharing.set_sharesNothing isChat deleted ok⟩
      rw [commitSharing_db]
      exact .refl _
  | publish record visibility origin fresh current =>
      obtain rfl := Option.some.inj taken
      refine ⟨?_, commitSharing_links fun later ok => Sharing.commit_sharesNothing isChat deleted ok⟩
      rw [commitSharing_db]
      exact .refl _
  | list =>
      simp only [Conversation.change] at taken
      split at taken
      · simp at taken
      · obtain rfl := Option.some.inj taken
        exact ⟨.refl _, same⟩
  | claim now =>
      simp only [Conversation.change] at taken
      split at taken
      · rename_i listed _
        obtain rfl := Option.some.inj taken
        rcases @claim_stores conversation listed now with
          ⟨snapshot, own, _, _, isOwn, _, _, claimed⟩ | unclaimed | failed
        · rw [claimed]
          refine ⟨.of_chat rfl (fun later member => ⟨later, member, rfl⟩) rfl rfl
            fun later isLater => ⟨own, isOwn, ?_⟩, same⟩
          obtain rfl := Option.some.inj isLater
          rfl
        · rw [unclaimed]
          exact ⟨.refl _, same⟩
        · rw [failed]
          exact ⟨.refl _, same⟩
      · simp at taken
  | purged =>
      simp only [Conversation.change] at taken
      split at taken
      · rename_i own _
        obtain rfl := Option.some.inj taken
        refine ⟨⟨?_, ?_, ?_, ?_⟩, fun link member _ => Sharing.mem_of_unlinks member⟩
        · exact fun later member => absurd member List.not_mem_nil
        · exact fun later member => absurd member List.not_mem_nil
        · exact fun event member => (List.mem_filter.mp member).1
        · exact fun later run isLater => nomatch isLater
      · simp at taken
  | purgeFailed now =>
      simp only [Conversation.change] at taken
      split at taken
      · obtain rfl := Option.some.inj taken
        refine ⟨.of_chat rfl (fun later member => ⟨later, member, rfl⟩) rfl rfl
          fun later isLater => ?_, same⟩
        obtain ⟨own, isOwn, rfl⟩ := Option.map_eq_some_iff.mp isLater
        exact ⟨own, isOwn, rfl⟩
      · simp at taken
  | abandon =>
      obtain ⟨_, _, rfl⟩ := Option.map_eq_some_iff.mp taken
      exact ⟨.refl _, same⟩

/-- How a change moves a deletion. -/
theorem change_deletion {change : Change} (taken : conversation.change change = some after) :
    DeletionChange conversation after change := by
  cases change with
  | chat step =>
      simp only [Conversation.change] at taken
      split at taken
      · simp at taken
      · rename_i other
        obtain ⟨state, stepped, rfl⟩ := Option.map_eq_some_iff.mp taken
        exact .kept (Deletion.step (Bool.eq_false_iff.mpr other) stepped)
  | release run id =>
      obtain rfl := Option.some.inj taken
      refine .kept ?_
      change (release conversation.db run id).deletion = conversation.db.deletion
      unfold release
      split <;> rfl
  | trash now confirmed =>
      obtain rfl := Option.some.inj taken
      unfold Conversation.trash
      split
      · exact .kept rfl
      · rename_i stored ok
        obtain ⟨chat, isChat, ⟨deleted, rfl⟩ | ⟨present, later, isLater, lifecycle, purgeAt⟩⟩ :=
          trash_moves ok
        · rw [isChat]
          dsimp only
          rw [if_pos deleted]
          exact .kept rfl
        · rw [isChat]
          dsimp only
          rw [if_neg (by simp [present])]
          exact .trashed chat later isChat present isLater lifecycle purgeAt
  | restore now =>
      simp only [Conversation.change] at taken
      split at taken
      · obtain rfl := Option.some.inj taken
        exact .kept rfl
      · rename_i unlocked
        split at taken
        · rename_i restored
          obtain rfl := Option.some.inj taken
          obtain ⟨chat, isChat, deleted, rfl⟩ := restore_stores restored
          exact .restored chat _ unlocked isChat deleted rfl rfl
        · obtain rfl := Option.some.inj taken
          exact .kept rfl
  | share | publish =>
      obtain rfl := Option.some.inj taken
      exact .kept (by rw [commitSharing_db])
  | list =>
      simp only [Conversation.change] at taken
      split at taken
      · simp at taken
      · obtain rfl := Option.some.inj taken
        exact .kept rfl
  | claim now =>
      simp only [Conversation.change] at taken
      split at taken
      · rename_i listed _
        obtain rfl := Option.some.inj taken
        rcases @claim_stores conversation listed now with
          ⟨snapshot, chat, _, _, isChat, deleted, _, claimed⟩ | unclaimed | failed
        · rw [claimed]
          exact .claimed chat _ isChat deleted rfl rfl rfl
        · rw [unclaimed]
          exact .kept rfl
        · rw [failed]
          exact .kept rfl
      · simp at taken
  | purged =>
      simp only [Conversation.change] at taken
      split at taken
      · obtain rfl := Option.some.inj taken
        exact .purged rfl
      · simp at taken
  | purgeFailed now =>
      simp only [Conversation.change] at taken
      split at taken
      · obtain rfl := Option.some.inj taken
        refine .kept ?_
        simp only [Db.deletion, Conversation.db, Conversation.withDb, Conversation.recordPurgeFailure,
          Option.map_map]
        rfl
      · simp at taken
  | abandon =>
      obtain ⟨_, _, rfl⟩ := Option.map_eq_some_iff.mp taken
      exact .kept rfl

/-- What a change leaves of the listing of a cleanup. -/
theorem change_listing {change : Change} {snapshot : Chat}
    (taken : conversation.change change = some after)
    (listed : after.cleanup = some (.listed (some snapshot))) :
    conversation.cleanup = some (.listed (some snapshot)) ∨
      (change = .list ∧ conversation.db.chat = some snapshot ∧ after.db = conversation.db) := by
  cases change with
  | chat step =>
      simp only [Conversation.change] at taken
      split at taken
      · simp at taken
      · obtain ⟨state, stepped, rfl⟩ := Option.map_eq_some_iff.mp taken
        dsimp only at listed
        split at listed
        · simp at listed
        · exact .inl listed
  | release run id =>
      obtain rfl := Option.some.inj taken
      exact .inl listed
  | trash now confirmed =>
      obtain rfl := Option.some.inj taken
      left
      rw [← listed]
      unfold Conversation.trash
      split
      · rfl
      · dsimp only
        split
        · split <;> rfl
        · rfl
  | restore now =>
      simp only [Conversation.change] at taken
      split at taken
      · obtain rfl := Option.some.inj taken
        exact .inl listed
      · split at taken <;> (obtain rfl := Option.some.inj taken; exact .inl listed)
  | share | publish =>
      obtain rfl := Option.some.inj taken
      exact .inl (commitSharing_cleanup.symm.trans listed)
  | list =>
      simp only [Conversation.change] at taken
      split at taken
      · simp at taken
      · obtain rfl := Option.some.inj taken
        exact .inr ⟨rfl, Cleanup.listed.inj (Option.some.inj listed), rfl⟩
  | claim now =>
      simp only [Conversation.change] at taken
      split at taken
      · rename_i before _
        obtain rfl := Option.some.inj taken
        rcases @claim_stores conversation before now with
          ⟨_, _, _, _, _, _, _, claimed⟩ | unclaimed | failed
        · simp [claimed] at listed
        · simp [unclaimed] at listed
        · simp [failed] at listed
      · simp at taken
  | purged | purgeFailed =>
      simp only [Conversation.change] at taken
      split at taken
      · obtain rfl := Option.some.inj taken
        simp at listed
      · simp at taken
  | abandon =>
      obtain ⟨_, _, rfl⟩ := Option.map_eq_some_iff.mp taken
      simp at listed

/-! ### Since when a chat is in the trash -/

/-- A chat was deleted when its purge time says and is in the trash since. -/
def InTrashSince (initial : Conversation) (changes : List Change) (purgeAt : Option Int) : Prop :=
  ∃ earlier trashedAt confirmed later, changes = earlier ++ .trash trashedAt confirmed :: later ∧
    purgeAt = some (trashedAt + trashRetention) ∧
    ∀ first second middle, later = first ++ second →
      execute Conversation.change initial (earlier ++ .trash trashedAt confirmed :: first) =
        some middle →
      ∃ chat, middle.db.chat = some chat ∧ chat.inTrash = true

/-- What the history of a chat says about its deletion, and a listing about the chat. -/
structure Dated (initial : Conversation) (changes : List Change) (conversation : Conversation) :
    Prop where
  since : ∀ chat, conversation.db.chat = some chat → chat.inTrash = true →
    InTrashSince initial changes chat.purgeAt
  listing : ∀ snapshot, conversation.cleanup = some (.listed (some snapshot)) →
    snapshot.inTrash = true →
    ∃ chat, conversation.db.chat = some chat ∧ chat.inTrash = true ∧
      chat.purgeAt = snapshot.purgeAt

/-- A chat that stays in the trash is in the trash since the same deletion. -/
theorem InTrashSince.concat {initial : Conversation} {changes : List Change} {change : Change}
    {chat : Chat} {purgeAt : Option Int} (since : InTrashSince initial changes purgeAt)
    (reached : execute Conversation.change initial (changes ++ [change]) = some after)
    (isChat : after.db.chat = some chat) (deleted : chat.inTrash = true) :
    InTrashSince initial (changes ++ [change]) purgeAt := by
  obtain ⟨earlier, trashedAt, confirmed, later, rfl, isPurge, kept⟩ := since
  refine ⟨earlier, trashedAt, confirmed, later ++ [change], by simp, isPurge, ?_⟩
  intro first second middle split isMiddle
  rcases List.eq_nil_or_concat second with rfl | ⟨rest, last, rfl⟩
  · rw [List.append_nil] at split
    subst split
    rw [List.append_assoc, List.cons_append] at reached
    obtain rfl := Option.some.inj (isMiddle.symm.trans reached)
    exact ⟨chat, isChat, deleted⟩
  · rw [List.concat_eq_append, ← List.append_assoc] at split
    exact kept first rest middle (List.append_inj_left' split rfl) isMiddle

theorem deletion_some {later : Chat} (same : next.deletion = db.deletion)
    (isLater : next.chat = some later) :
    ∃ chat, db.chat = some chat ∧ later.lifecycle = chat.lifecycle ∧
      later.purgeAt = chat.purgeAt := by
  rw [Db.deletion, Db.deletion, isLater, Option.map_some] at same
  obtain ⟨chat, isChat, equal⟩ := Option.map_eq_some_iff.mp same.symm
  obtain ⟨lifecycle, purgeAt⟩ := Prod.mk.inj equal
  exact ⟨chat, isChat, lifecycle.symm, purgeAt.symm⟩

theorem inTrash_congr {chat later : Chat} (same : later.lifecycle = chat.lifecycle) :
    later.inTrash = chat.inTrash := by
  rw [Chat.inTrash, Chat.inTrash, same]

theorem inTrash_of_purging {chat : Chat} (purging : chat.lifecycle = .purging) :
    chat.inTrash = true := by
  simp [Chat.inTrash, purging]

theorem Dated.concat {initial : Conversation} {changes : List Change} {change : Change}
    (dated : Dated initial changes conversation)
    (reached : execute Conversation.change initial changes = some conversation)
    (taken : conversation.change change = some after) :
    Dated initial (changes ++ [change]) after := by
  have extended : execute Conversation.change initial (changes ++ [change]) = some after :=
    execute_append.mpr ⟨conversation, reached, execute_cons.mpr ⟨after, taken, rfl⟩⟩
  refine ⟨fun later isLater deleted => ?_, fun snapshot listed wasDeleted => ?_⟩
  · have stays : ∀ chat, conversation.db.chat = some chat → chat.inTrash = true →
        later.purgeAt = chat.purgeAt → InTrashSince initial (changes ++ [change]) later.purgeAt :=
      fun chat isChat wasDeleted same =>
        same ▸ (dated.since chat isChat wasDeleted).concat extended isLater deleted
    cases change_deletion taken with
    | kept same =>
        obtain ⟨chat, isChat, lifecycle, purgeAt⟩ := deletion_some same isLater
        exact stays chat isChat (inTrash_congr lifecycle ▸ deleted) purgeAt
    | @trashed now confirmed chat trashed isChat present isTrashed lifecycle purgeAt =>
        obtain rfl := Option.some.inj (isTrashed.symm.trans isLater)
        refine ⟨changes, now, confirmed, [], rfl, purgeAt, fun first second middle split isMiddle => ?_⟩
        obtain ⟨rfl, _⟩ := List.append_eq_nil_iff.mp split.symm
        obtain rfl := Option.some.inj (isMiddle.symm.trans extended)
        exact ⟨trashed, isTrashed, deleted⟩
    | restored chat restored _ _ _ isRestored active =>
        obtain rfl := Option.some.inj (isRestored.symm.trans isLater)
        simp [Chat.inTrash, active] at deleted
    | claimed chat purging isChat wasDeleted isPurging _ purgeAt =>
        obtain rfl := Option.some.inj (isPurging.symm.trans isLater)
        exact stays chat isChat wasDeleted purgeAt
    | purged gone => simp [gone] at isLater
  · rcases change_listing taken listed with before | ⟨rfl, isChat, same⟩
    · obtain ⟨chat, isChat, deleted, purgeAt⟩ := dated.listing snapshot before wasDeleted
      cases change_deletion taken with
      | kept same =>
          rw [Db.deletion, Db.deletion, isChat, Option.map_some] at same
          obtain ⟨later, isLater, equal⟩ := Option.map_eq_some_iff.mp same
          obtain ⟨lifecycle, samePurge⟩ := Prod.mk.inj equal
          exact ⟨later, isLater, inTrash_congr lifecycle ▸ deleted, samePurge.trans purgeAt⟩
      | trashed own _ isOwn present =>
          obtain rfl := Option.some.inj (isChat.symm.trans isOwn)
          simp [deleted] at present
      | restored own _ unlocked => simp [before] at unlocked
      | claimed own purging isOwn _ isPurging lifecycle samePurge =>
          obtain rfl := Option.some.inj (isChat.symm.trans isOwn)
          exact ⟨purging, isPurging, inTrash_of_purging lifecycle, samePurge.trans purgeAt⟩
      | purged gone =>
          simp only [Conversation.change, before] at taken
          simp at taken
    · exact ⟨snapshot, same ▸ isChat, wasDeleted, rfl⟩

/-- Every run from an active chat is dated. -/
theorem dated_of_run {initial : Conversation} {changes : List Change}
    (active : ∀ chat, initial.db.chat = some chat → chat.inTrash = false)
    (unlocked : initial.cleanup = none)
    (reached : execute Conversation.change initial changes = some conversation) :
    Dated initial changes conversation := by
  induction changes using List.reverseRecOn generalizing conversation with
  | nil =>
      obtain rfl := Option.some.inj reached
      refine ⟨fun chat isChat deleted => ?_, fun snapshot listed => ?_⟩
      · simp [active chat isChat] at deleted
      · simp [unlocked] at listed
  | append_singleton earlier change inductionHypothesis =>
      obtain ⟨middle, isMiddle, rest⟩ := execute_append.mp reached
      obtain ⟨last, taken, ended⟩ := execute_cons.mp rest
      obtain rfl := Option.some.inj ended
      exact (inductionHypothesis isMiddle).concat isMiddle taken

/-! ### Isolation and purge -/

/-- What a deletion protects over a run. -/
structure TrashIsolation (initial : Conversation) (changes : List Change) : Prop where
  protects : ∀ before change after conversation next chat, changes = before ++ change :: after →
    execute Conversation.change initial before = some conversation →
    conversation.change change = some next → conversation.db.chat = some chat →
    chat.inTrash = true → Protects chat conversation next
  resumes : ∀ before after conversation chat id isActive, changes = before ++ after →
    execute Conversation.change initial before = some conversation →
    conversation.db.chat = some chat → chat.inTrash = true → chat.runId = some id →
    ∃ error, Worker.resume conversation.db id isActive = .error error
  forward : ∀ before change after conversation next chat later,
    changes = before ++ change :: after →
    execute Conversation.change initial before = some conversation →
    conversation.change change = some next → conversation.db.chat = some chat →
    next.db.chat = some later →
    (chat.lifecycle = .trash → later.lifecycle = .trash ∨ later.lifecycle = .purging ∨
      ∃ now, change = .restore now ∧ later.lifecycle = .active) ∧
    (chat.lifecycle = .purging → later.lifecycle = .purging) ∧
    (chat.lifecycle ≠ .purging → later.lifecycle = .purging → ∃ now, change = .claim now)
  purge : ∀ before now after conversation next purged, changes = before ++ .claim now :: after →
    execute Conversation.change initial before = some conversation →
    conversation.change (.claim now) = some next → next.cleanup = some (.claimed purged) →
    ∃ chat purgeAt, conversation.db.chat = some chat ∧ chat.purgeAt = some purgeAt ∧
      purgeAt ≤ now ∧ InTrashSince initial before (some purgeAt) ∧
      ((conversation.db.chatRun? chat).any fun run => run.status.isActive) = false

theorem change_forward {change : Change} {chat later : Chat}
    (taken : conversation.change change = some after) (isChat : conversation.db.chat = some chat)
    (isLater : after.db.chat = some later) :
    (chat.lifecycle = .trash → later.lifecycle = .trash ∨ later.lifecycle = .purging ∨
      ∃ now, change = .restore now ∧ later.lifecycle = .active) ∧
    (chat.lifecycle = .purging → later.lifecycle = .purging) ∧
    (chat.lifecycle ≠ .purging → later.lifecycle = .purging → ∃ now, change = .claim now) := by
  cases change_deletion taken with
  | kept same =>
      obtain ⟨own, isOwn, lifecycle, _⟩ := deletion_some same isLater
      obtain rfl := Option.some.inj (isChat.symm.trans isOwn)
      exact ⟨fun trash => .inl (lifecycle.trans trash), fun purging => lifecycle.trans purging,
        fun other purging => absurd (lifecycle.symm.trans purging) other⟩
  | trashed own deleted isOwn present isDeleted lifecycle =>
      obtain rfl := Option.some.inj (isChat.symm.trans isOwn)
      obtain rfl := Option.some.inj (isLater.symm.trans isDeleted)
      refine ⟨fun _ => .inl lifecycle, fun purging => ?_, fun _ purging => ?_⟩
      · simp [inTrash_of_purging purging] at present
      · simp [lifecycle] at purging
  | @restored now own restored _ isOwn deleted isRestored active =>
      obtain rfl := Option.some.inj (isChat.symm.trans isOwn)
      obtain rfl := Option.some.inj (isLater.symm.trans isRestored)
      refine ⟨fun _ => .inr (.inr ⟨now, rfl, active⟩), fun purging => ?_, fun _ purging => ?_⟩
      · simp [deleted] at purging
      · simp [active] at purging
  | @claimed now own purging _ _ isPurging lifecycle =>
      obtain rfl := Option.some.inj (isLater.symm.trans isPurging)
      exact ⟨fun _ => .inr (.inl lifecycle), fun _ => lifecycle, fun _ _ => ⟨now, rfl⟩⟩
  | purged gone => simp [gone] at isLater

/-- A purge starts with a chat that is in the trash since a deletion whose time has passed. -/
theorem claim_dated {initial : Conversation} {changes : List Change} {now : Int} {purged : Chat}
    (dated : Dated initial changes conversation)
    (taken : conversation.change (.claim now) = some after)
    (claimed : after.cleanup = some (.claimed purged)) :
    ∃ chat purgeAt, conversation.db.chat = some chat ∧ chat.purgeAt = some purgeAt ∧
      purgeAt ≤ now ∧ InTrashSince initial changes (some purgeAt) ∧
      ((conversation.db.chatRun? chat).any fun run => run.status.isActive) = false := by
  simp only [Conversation.change] at taken
  split at taken
  · rename_i listed isListed
    obtain rfl := Option.some.inj taken
    rcases @claim_stores conversation listed now with
      ⟨snapshot, chat, rfl, due, isChat, deleted, idle, _⟩ | unclaimed | failed
    · simp only [purgeDue, Bool.and_eq_true] at due
      obtain ⟨purgeAt, isPurge, passed⟩ := (Option.any_eq_true _ _).mp due.2
      obtain ⟨own, isOwn, _, same⟩ := dated.listing snapshot isListed due.1.2
      obtain rfl := Option.some.inj (isChat.symm.trans isOwn)
      exact ⟨chat, purgeAt, isChat, same.trans isPurge, by simpa using passed,
        (same.trans isPurge) ▸ dated.since chat isChat deleted, idle⟩
    · simp [unclaimed] at claimed
    · simp [failed] at claimed
  · simp at taken

/-- From the deletion of a chat until its restore nothing is delivered, created, resumed or
shared for it, and a purge starts only when its time in the trash is over. -/
theorem trash_isolation {initial : Conversation} (changes : List Change)
    (active : ∀ chat, initial.db.chat = some chat → chat.inTrash = false)
    (unlocked : initial.cleanup = none) : TrashIsolation initial changes := by
  constructor
  · intro before change after conversation next chat _ _ taken isChat deleted
    exact change_protects isChat deleted taken
  · intro before after conversation chat id isActive _ _ isChat deleted own
    exact Isolated.resume isChat deleted own
  · intro before change after conversation next chat later _ _ taken isChat isLater
    exact change_forward taken isChat isLater
  · intro before now after conversation next purged _ reached taken claimed
    exact claim_dated (dated_of_run active unlocked reached) taken claimed

/-- A chat that is deleted, listed too early, and claimed when it is due. -/
def deletedChat : List Change :=
  [.chat (.send 1 { id := "first", text := "Hello" }), .trash 2 true, .list, .claim 3, .abandon,
    .restore 4, .trash 5 false, .list, .restore 6, .claim (5 + trashRetention),
    .purgeFailed (6 + trashRetention), .list, .claim (7 + trashRetention + purgeRetryMs), .purged]

theorem trash_isolation_deleted :
    (execute Conversation.change ⟨newChat, {}, none⟩ deletedChat).map
        (fun conversation => (conversation.db.chat, conversation.db.messages)) = some (none, []) ∧
      TrashIsolation ⟨newChat, {}, none⟩ deletedChat :=
  ⟨by decide, trash_isolation deletedChat (fun chat isChat => by
    obtain rfl := Option.some.inj isChat
    rfl) rfl⟩

end Cairn.Chats

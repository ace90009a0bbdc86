import Cairn.Accounts.Resets
import Cairn.Library.Lists

/-!
Owns what the events of an account say about its banked resets: which request is
outstanding, which redemption no reading has paid back yet, and the law that each event
keeps given the events before it.

Does not own the program that causes the events.
-/

set_option autoImplicit false

namespace Cairn.Accounts

open Cairn.Library.Lists

/-! ### Histories -/

/-- The key of an event. -/
def Event.key? : Event → Option Nat
  | .read _ => none
  | .created key .. | .sent key | .consumed key _ | .answered key _ | .confirmed key
  | .dropped key => some key

/-- The request that a history leaves outstanding. -/
def outstanding (history : List Event) : Option Nat :=
  history.foldl (fun key event =>
    match event with
    | .created made .. => some made
    | .dropped _ => none
    | _ => key) none

/-- A reading in a history shows restored capacity for a model. -/
def Shows (history : List Event) (model : String) : Prop :=
  ∃ usage, .read usage ∈ history ∧ restored usage model = true

/-- A key was redeemed and no reading since shows restored capacity for its model. -/
def Owed (history : List Event) (key : Nat) (model : String) : Prop :=
  ∃ before after, history = before ++ .consumed key model :: after ∧ ¬ Shows after model

/-- A request was made for a model, and something was seen since. -/
def MadeBefore (history : List Event) (key : Nat) (model : String)
    (Since : List Event → Prop) : Prop :=
  ∃ before account reading after,
    history = before ++ .created key account reading model :: after ∧ Since after

/-- What an event needs of the events before it. -/
def Lawful (before : List Event) : Event → Prop
  | .created _ account reading model =>
      outstanding before = none ∧ account.enabled = true ∧ low account reading.usage model = true ∧
        0 < reading.availableResets
  | .sent key => outstanding before = some key ∧ .confirmed key ∉ before
  | .consumed key _ =>
      outstanding before = some key ∧
        ∀ first other model second, before = first ++ .consumed other model :: second →
          Shows second model
  | .dropped key =>
      ∃ model, MadeBefore before key model fun since =>
        .answered key .nothingToReset ∈ since ∨ .answered key .noCredit ∈ since ∨ Shows since model
  | _ => True

/-- Every event keeps its law. -/
def LawfulHistory (history : List Event) : Prop :=
  ∀ before event after, history = before ++ event :: after → Lawful before event

variable {history : List Event} {event : Event} {key : Nat} {model : String}

theorem lawfulHistory_concat (lawful : LawfulHistory history) (last : Lawful history event) :
    LawfulHistory (history ++ [event]) := by
  intro before other after split
  rcases append_singleton_split.mp split with ⟨_, rfl, rfl⟩ | ⟨rest, _, split⟩
  · exact last
  · exact lawful before other rest split

theorem outstanding_concat : outstanding (history ++ [event]) =
    match event with
    | .created made .. => some made
    | .dropped _ => none
    | _ => outstanding history := by
  rw [outstanding, List.foldl_concat]
  cases event <;> rfl

theorem Shows.mono {more : List Event} (shows : Shows history model)
    (kept : ∀ event ∈ history, event ∈ more) : Shows more model :=
  shows.imp fun _ => And.imp_left (kept _)

/-- A debt after one more event. -/
theorem owed_concat (owed : Owed (history ++ [event]) key model) :
    event = .consumed key model ∨
      (Owed history key model ∧ ∀ usage, event = .read usage → restored usage model = false) := by
  obtain ⟨before, after, split, unpaid⟩ := owed
  rcases append_singleton_split.mp split with ⟨_, _, same⟩ | ⟨rest, rfl, earlier⟩
  · exact .inl same.symm
  · refine .inr ⟨⟨before, rest, earlier, fun shows => unpaid (shows.mono ?_)⟩, fun usage isRead => ?_⟩
    · exact fun _ member => List.mem_append_left _ member
    · rw [Bool.eq_false_iff]
      intro isRestored
      exact unpaid ⟨usage, by simp [isRead], isRestored⟩

theorem Owed.consumed (owed : Owed history key model) : .consumed key model ∈ history := by
  obtain ⟨before, after, rfl, _⟩ := owed
  simp

/-- A redemption is paid back or owed. -/
theorem shows_of_not_owed {before after : List Event}
    (split : history = before ++ .consumed key model :: after) (paid : ¬ Owed history key model) :
    Shows after model := by
  by_contra unpaid
  exact paid ⟨before, after, split, unpaid⟩

theorem MadeBefore.concat {Since Later : List Event → Prop} (made : MadeBefore history key model Since)
    (later : ∀ since, Since since → Later (since ++ [event])) :
    MadeBefore (history ++ [event]) key model Later := by
  obtain ⟨before, account, reading, after, rfl, since⟩ := made
  exact ⟨before, account, reading, after ++ [event], by simp, later after since⟩

theorem MadeBefore.mono {Since Later : List Event → Prop} (made : MadeBefore history key model Since)
    (weaker : ∀ since, Since since → Later since) : MadeBefore history key model Later := by
  obtain ⟨before, account, reading, after, split, since⟩ := made
  exact ⟨before, account, reading, after, split, weaker after since⟩

/-! ### What the stored request says about the history -/

/-- The history is lawful, the stored request is the outstanding one, and only it may be
owed. -/
structure Bank.Sound (bank : Bank) : Prop where
  lawful : LawfulHistory bank.trace
  outstanding : outstanding bank.trace = bank.attempt.map ResetAttempt.idempotencyKey
  made : ∀ attempt, bank.attempt = some attempt →
    MadeBefore bank.trace attempt.idempotencyKey attempt.model fun _ => True
  confirmed : ∀ attempt, bank.attempt = some attempt → attempt.confirmed = false →
    .confirmed attempt.idempotencyKey ∉ bank.trace
  keys : ∀ event ∈ bank.trace, ∀ key, event.key? = some key → key < bank.nextKey
  redeemed : ∀ key model, .consumed key model ∈ bank.trace → key ∈ bank.redeemed
  owed : ∀ key model, Owed bank.trace key model → ∃ attempt, bank.attempt = some attempt ∧
    attempt.idempotencyKey = key ∧ attempt.model = model

variable {bank : Bank}

theorem Bank.Sound.known {attempt : ResetAttempt} (sound : bank.Sound)
    (stored : bank.attempt = some attempt) : attempt.idempotencyKey < bank.nextKey := by
  obtain ⟨before, account, reading, after, split, _⟩ := sound.made attempt stored
  refine sound.keys (.created attempt.idempotencyKey account reading attempt.model) ?_ _ rfl
  rw [split]
  simp

/-- An event that moves no request. -/
def Event.isQuiet : Event → Bool
  | .read _ | .sent _ | .answered .. => true
  | _ => false

theorem Bank.Sound.observe (sound : bank.Sound) (quiet : event.isQuiet = true)
    (lawful : Lawful bank.trace event) (known : ∀ key, event.key? = some key → key < bank.nextKey) :
    (bank.observe event).Sound := by
  refine ⟨lawfulHistory_concat sound.lawful lawful, ?_, ?_, ?_, ?_, ?_, ?_⟩
  · rw [Bank.observe, outstanding_concat]
    cases event <;> first | exact sound.outstanding | simp [Event.isQuiet] at quiet
  · exact fun attempt stored => (sound.made attempt stored).concat fun _ _ => trivial
  · intro attempt stored open_ member
    rcases List.mem_append.mp member with earlier | last
    · exact sound.confirmed attempt stored open_ earlier
    · rw [← List.mem_singleton.mp last] at quiet
      simp [Event.isQuiet] at quiet
  · intro other member key isKey
    rcases List.mem_append.mp member with earlier | last
    · exact sound.keys other earlier key isKey
    · rw [List.mem_singleton.mp last] at isKey
      exact known key isKey
  · intro key model member
    rcases List.mem_append.mp member with earlier | last
    · exact sound.redeemed key model earlier
    · rw [← List.mem_singleton.mp last] at quiet
      simp [Event.isQuiet] at quiet
  · intro key model owed
    rcases owed_concat owed with rfl | ⟨before, _⟩
    · simp [Event.isQuiet] at quiet
    · exact sound.owed key model before

/-! ### The writes of a refresh -/

/-- A reading was made since the stored request, and what it shows restored is not owed. -/
structure Bank.Fresh (bank : Bank) (usage : Usage) : Prop where
  seen : ∀ attempt, bank.attempt = some attempt →
    MadeBefore bank.trace attempt.idempotencyKey attempt.model fun since => .read usage ∈ since
  unpaid : ∀ key model, Owed bank.trace key model → restored usage model = false

/-- A reading makes itself fresh. -/
theorem Bank.Sound.read {usage : Usage} (sound : bank.Sound) :
    (bank.observe (.read usage)).Sound ∧ (bank.observe (.read usage)).Fresh usage := by
  refine ⟨sound.observe rfl trivial fun key isKey => by simp [Event.key?] at isKey,
    fun attempt stored => ?_, fun key model owed => ?_⟩
  · exact (sound.made attempt stored).concat fun since _ => by simp
  · rcases owed_concat owed with isRead | ⟨_, unpaid⟩
    · simp at isRead
    · exact unpaid usage rfl

theorem Bank.Fresh.shows {usage : Usage} {attempt : ResetAttempt} (fresh : bank.Fresh usage)
    (stored : bank.attempt = some attempt) (isRestored : restored usage attempt.model = true) :
    MadeBefore bank.trace attempt.idempotencyKey attempt.model fun since =>
      Shows since attempt.model :=
  (fresh.seen attempt stored).mono fun _ member => ⟨usage, member, isRestored⟩

/-- A request is deleted for a reason, and owes nothing. -/
theorem Bank.Sound.forget {attempt : ResetAttempt} (sound : bank.Sound)
    (stored : bank.attempt = some attempt)
    (reason : MadeBefore bank.trace attempt.idempotencyKey attempt.model fun since =>
      .answered attempt.idempotencyKey .nothingToReset ∈ since ∨
        .answered attempt.idempotencyKey .noCredit ∈ since ∨ Shows since attempt.model)
    (paid : ¬ Owed bank.trace attempt.idempotencyKey attempt.model) :
    (bank.forget attempt).Sound := by
  refine ⟨lawfulHistory_concat sound.lawful ⟨attempt.model, reason⟩, ?_, ?_, ?_, ?_, ?_, ?_⟩
  · rw [Bank.forget, Bank.observe, outstanding_concat]
    rfl
  · exact fun other isOther => nomatch isOther
  · exact fun other isOther => nomatch isOther
  · intro event member key isKey
    rcases List.mem_append.mp member with earlier | last
    · exact sound.keys event earlier key isKey
    · rw [List.mem_singleton.mp last] at isKey
      obtain rfl := Option.some.inj isKey
      exact sound.known stored
  · intro key model member
    rcases List.mem_append.mp member with earlier | last
    · exact sound.redeemed key model earlier
    · simp at last
  · intro key model owed
    exfalso
    rcases owed_concat owed with isDropped | ⟨before, _⟩
    · simp at isDropped
    · obtain ⟨other, isOther, rfl, rfl⟩ := sound.owed key model before
      obtain rfl := Option.some.inj (stored.symm.trans isOther)
      exact paid before

/-- A fresh reading that shows restored capacity settles the request. -/
theorem Bank.Sound.settle {attempt : ResetAttempt} {usage : Usage} (sound : bank.Sound)
    (fresh : bank.Fresh usage) (stored : bank.attempt = some attempt)
    (isRestored : restored usage attempt.model = true) : (bank.forget attempt).Sound := by
  refine sound.forget stored ((fresh.shows stored isRestored).mono fun _ shows => .inr (.inr shows))
    fun owed => ?_
  rw [fresh.unpaid _ _ owed] at isRestored
  simp at isRestored

/-- A new key is made when nothing is outstanding, and stored before it is sent. -/
theorem Bank.Sound.create {attempt : ResetAttempt} {account : Account} {current : Reading}
    (sound : bank.Sound) (absent : bank.attempt = none) (enabled : account.enabled = true)
    (isLow : low account current.usage attempt.model = true)
    (available : 0 < current.availableResets) (known : attempt.idempotencyKey < bank.nextKey)
    (new : ∀ event ∈ bank.trace, event.key? ≠ some attempt.idempotencyKey) :
    (bank.create attempt account current).Sound := by
  have none : Accounts.outstanding bank.trace = none := by rw [sound.outstanding, absent]; rfl
  have unowed : ∀ key model, ¬ Owed bank.trace key model := fun key model owed => by
    obtain ⟨other, stored, _⟩ := sound.owed key model owed
    simp [absent] at stored
  refine ⟨lawfulHistory_concat sound.lawful ⟨none, enabled, isLow, available⟩, ?_, ?_, ?_, ?_, ?_, ?_⟩
  · rw [Bank.create, Bank.observe, outstanding_concat]
    rfl
  · intro other isOther
    obtain rfl := Option.some.inj isOther
    exact ⟨bank.trace, account, current, [], rfl, trivial⟩
  · intro other isOther _ member
    obtain rfl := Option.some.inj isOther
    rcases List.mem_append.mp member with earlier | last
    · exact new _ earlier rfl
    · simp at last
  · intro event member key isKey
    rcases List.mem_append.mp member with earlier | last
    · exact sound.keys event earlier key isKey
    · rw [List.mem_singleton.mp last] at isKey
      exact Option.some.inj isKey ▸ known
  · intro key model member
    rcases List.mem_append.mp member with earlier | last
    · exact sound.redeemed key model earlier
    · simp at last
  · intro key model owed
    exfalso
    rcases owed_concat owed with isCreated | ⟨before, _⟩
    · simp at isCreated
    · exact unowed key model before

/-- The confirmation of the outstanding request is stored. -/
theorem Bank.Sound.confirm {attempt : ResetAttempt} (sound : bank.Sound)
    (stored : bank.attempt = some attempt) : (bank.confirm attempt).Sound := by
  refine ⟨lawfulHistory_concat sound.lawful trivial, ?_, ?_, ?_, ?_, ?_, ?_⟩
  · rw [Bank.confirm, Bank.observe, outstanding_concat]
    dsimp only
    rw [sound.outstanding, stored]
    rfl
  · intro other isOther
    obtain rfl := Option.some.inj isOther
    exact (sound.made attempt stored).concat fun _ _ => trivial
  · intro other isOther isOpen
    obtain rfl := Option.some.inj isOther
    simp at isOpen
  · intro event member key isKey
    rcases List.mem_append.mp member with earlier | last
    · exact sound.keys event earlier key isKey
    · rw [List.mem_singleton.mp last] at isKey
      obtain rfl := Option.some.inj isKey
      exact sound.known stored
  · intro key model member
    rcases List.mem_append.mp member with earlier | last
    · exact sound.redeemed key model earlier
    · simp at last
  · intro key model owed
    rcases owed_concat owed with isConfirmed | ⟨before, _⟩
    · simp at isConfirmed
    · obtain ⟨other, isOther, named, same⟩ := sound.owed key model before
      obtain rfl := Option.some.inj (stored.symm.trans isOther)
      exact ⟨_, rfl, named, same⟩

/-- The provider redeems the outstanding request only while nothing else is owed. -/
theorem Bank.Sound.redeem {attempt : ResetAttempt} (took eligible : Bool) (sound : bank.Sound)
    (stored : bank.attempt = some attempt) : (bank.redeem attempt took eligible).2.Sound := by
  unfold Bank.redeem
  split
  · exact sound
  · rename_i unredeemed
    split
    · have others : ∀ first other model second,
          bank.trace = first ++ .consumed other model :: second → Shows second model :=
        fun first other model second split => shows_of_not_owed split fun owed => by
          obtain ⟨own, isOwn, rfl, _⟩ := sound.owed other model owed
          obtain rfl := Option.some.inj (stored.symm.trans isOwn)
          exact unredeemed (List.contains_iff_mem.mpr (sound.redeemed _ model owed.consumed))
      have isOutstanding : Accounts.outstanding bank.trace = some attempt.idempotencyKey := by
        rw [sound.outstanding, stored]
        rfl
      refine ⟨lawfulHistory_concat sound.lawful ⟨isOutstanding, others⟩, ?_, ?_, ?_, ?_, ?_, ?_⟩
      · rw [Bank.observe, outstanding_concat]
        exact sound.outstanding
      · exact fun other isOther => (sound.made other isOther).concat fun _ _ => trivial
      · intro other isOther isOpen member
        rcases List.mem_append.mp member with earlier | last
        · exact sound.confirmed other isOther isOpen earlier
        · simp at last
      · intro event member key isKey
        rcases List.mem_append.mp member with earlier | last
        · exact sound.keys event earlier key isKey
        · rw [List.mem_singleton.mp last] at isKey
          obtain rfl := Option.some.inj isKey
          exact sound.known stored
      · intro key model member
        rcases List.mem_append.mp member with earlier | last
        · exact List.mem_cons_of_mem _ (sound.redeemed key model earlier)
        · obtain ⟨rfl, _⟩ := Event.consumed.inj (List.mem_singleton.mp last)
          exact List.mem_cons_self
      · intro key model owed
        rcases owed_concat owed with isConsumed | ⟨before, _⟩
        · obtain ⟨rfl, rfl⟩ := Event.consumed.inj isConsumed
          exact ⟨attempt, stored, rfl, rfl⟩
        · exact sound.owed key model before
    · exact sound

end Cairn.Accounts

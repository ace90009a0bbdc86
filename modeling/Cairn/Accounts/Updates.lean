import Cairn.Accounts.Pool

/-!
Owns what becomes of the effect of an operation on a stored account while other
operations of the pool interleave with it. `account_updates_kept` says that it stays
as long as every acquisition saves the document it selected from the listing.

Does not own leases.
-/

set_option autoImplicit false

namespace Cairn.Accounts

open Cairn.Library.Steps

/-- What a step writes for its operation: a document, and a field of it that the
operation sets. -/
inductive Effect (pool : Pool) : Step → Account → Field → Prop where
  | saved {id : Nat} {process : Process} {account : Account} (now : Int)
      (found : pool.processes id = some process) (stage : process.stage = .inserted account) :
      Effect pool (.act id (.save now)) { account with lastUsedAt := some now } .lastUsedAt
  | wrote {id : Nat} {process : Process} {account next : Account} {edit : Edit}
      {edits : List Edit} {field : Field} (found : pool.processes id = some process)
      (stage : process.stage = .read account edit edits) (applied : edit.apply account = .ok next)
      (sets : field ∈ edit.fields) : Effect pool (.act id .write) next field

/-- A step overwrites a field of an account, or removes the account. -/
def Overwrites (pool : Pool) (step : Step) (key : String) (field : Field) : Prop :=
  (∃ written, Effect pool step written field ∧ written.id = key) ∨
    ∃ id process, step = .act id .remove ∧ pool.processes id = some process ∧
      process.call = .remove key

/-- An acquisition saves a document that is not the stored one. -/
def Stale (pool : Pool) : Step → Prop
  | .act id (.save _) => ∃ process account, pool.processes id = some process ∧
      process.stage = .inserted account ∧ pool.documents account.id ≠ some account
  | _ => False

/-- A field of a stored account. -/
def Holds (key : String) (field : Field) (written : Account) (pool : Pool) : Prop :=
  ∃ document, pool.documents key = some document ∧ Agree field document written

namespace Pool

variable {pool next : Pool} {step : Step}

/-- A step that is not stale and does not overwrite a field keeps it. -/
theorem Sound.keeps_field (sound : pool.Sound) (current : ¬ Stale pool step) {key : String}
    {field : Field} {written : Account} (holds : Holds key field written pool)
    (kept : ¬ Overwrites pool step key field) (taken : pool.step step = some next) :
    Holds key field written next := by
  obtain ⟨document, stored, agrees⟩ := holds
  have stores := (step_cases taken).1
  unfold Holds
  generalize next.documents = documents at stores
  cases stores with
  | keeps => exact ⟨document, stored, agrees⟩
  | @saves id process account now found stage =>
      by_cases same : key = account.id
      · subst same
        have isStored : pool.documents account.id = some account := by
          by_contra stale
          exact current ⟨process, account, found, stage, stale⟩
        obtain rfl := Option.some.inj (stored.symm.trans isStored)
        refine ⟨_, Function.update_self .., Agree.trans ?_ agrees⟩
        cases field with
        | lastUsedAt => exact absurd (Or.inl ⟨_, .saved now found stage, rfl⟩) kept
        | _ => rfl
      · exact ⟨document, by rw [Function.update_of_ne same]; exact stored, agrees⟩
  | @writes id process account after edit edits found stage applied =>
      by_cases same : key = after.id
      · subst same
        have isStored := (sound.current id process account edit edits found stage).2
        rw [← Edit.apply_id applied] at isStored
        obtain rfl := Option.some.inj (stored.symm.trans isStored)
        refine ⟨after, Function.update_self .., Agree.trans (Agree.symm ?_) agrees⟩
        exact Edit.apply_agree applied fun sets =>
          kept (Or.inl ⟨after, .wrote found stage applied sets, rfl⟩)
      · exact ⟨document, by rw [Function.update_of_ne same]; exact stored, agrees⟩
  | @creates id process account found stage call fresh =>
      have apart : key ≠ account.id := by
        rintro rfl
        simp [stored] at fresh
      exact ⟨document, by rw [Function.update_of_ne apart]; exact stored, agrees⟩
  | @removes id process account found stage call =>
      have apart : key ≠ account := by
        rintro rfl
        exact kept (Or.inr ⟨id, process, rfl, found, call⟩)
      exact ⟨document, by rw [Function.update_of_ne apart]; exact stored, agrees⟩

/-- The effect of a step is stored by it. -/
theorem effect_holds {written : Account} {field : Field} (effect : Effect pool step written field)
    (taken : pool.step step = some next) : Holds written.id field written next := by
  cases effect with
  | saved now found stage =>
      obtain ⟨process, present, acted⟩ := Option.bind_eq_some_iff.mp taken
      obtain rfl := Option.some.inj (found.symm.trans present)
      simp only [act, stage, Option.some.injEq] at acted
      subst acted
      exact ⟨_, Function.update_self .., .refl _ _⟩
  | wrote found stage applied sets =>
      obtain ⟨process, present, acted⟩ := Option.bind_eq_some_iff.mp taken
      obtain rfl := Option.some.inj (found.symm.trans present)
      simp only [act, stage, applied, Option.some.injEq] at acted
      subst acted
      exact ⟨_, Function.update_self .., .refl _ _⟩

theorem Sound.run (sound : pool.Sound) {steps : List Step} {final : Pool}
    (executed : execute Pool.step pool steps = some final) : final.Sound :=
  execute_invariant (fun _ _ _ holds taken => Sound.after holds taken) sound executed

theorem Sound.run_keeps_field (sound : pool.Sound) {key : String} {field : Field}
    {written : Account} {steps : List Step} {final : Pool}
    (current : Throughout Pool.step (fun pool step => ¬ Stale pool step) pool steps)
    (kept : Throughout Pool.step (fun pool step => ¬ Overwrites pool step key field) pool steps)
    (holds : Holds key field written pool)
    (executed : execute Pool.step pool steps = some final) : Holds key field written final := by
  induction steps generalizing pool with
  | nil =>
      obtain rfl := Option.some.inj executed
      exact holds
  | cons head tail inductionHypothesis =>
      obtain ⟨next, taken, rest⟩ := execute_cons.mp executed
      exact inductionHypothesis (sound.after taken) (current.2 next taken) (kept.2 next taken)
        (sound.keeps_field current.1 holds kept.1 taken) rest

end Pool

/-- No effect of a step is lost: each field it wrote holds what it wrote, unless a later
step overwrote that field or removed the account. -/
def EffectsKept (initial final : Pool) (steps : List Step) : Prop :=
  ∀ before head after middle next written field, steps = before ++ head :: after →
    execute Pool.step initial before = some middle → Pool.step middle head = some next →
    Effect middle head written field →
    Throughout Pool.step (fun pool step => ¬ Overwrites pool step written.id field) next after →
    Holds written.id field written final

/-- Over every interleaving in which no acquisition saves a document that changed since
it was listed, no effect is lost. -/
theorem account_updates_kept {initial final : Pool} {steps : List Step} (started : initial.Started)
    (executed : execute Pool.step initial steps = some final)
    (current : Throughout Pool.step (fun pool step => ¬ Stale pool step) initial steps) :
    EffectsKept initial final steps := by
  intro before head after middle next written field split reached taken effect kept
  subst split
  have sound := (started.sound.run reached).after taken
  obtain ⟨again, first, rest⟩ := execute_append.mp executed
  obtain rfl := Option.some.inj (reached.symm.trans first)
  obtain ⟨following, takes, rest⟩ := execute_cons.mp rest
  obtain rfl := Option.some.inj (taken.symm.trans takes)
  have currentAfter := ((throughout_append.mp current).2 middle reached).2 next taken
  exact sound.run_keeps_field currentAfter kept (Pool.effect_holds effect taken) rest

/-- One account that can take a run. -/
def poolOfOne : Pool where
  documents := fun key =>
    if key = "account" then
      some { Account.new "account" .claude "Work" .ready with maxConcurrentRuns := some 2 }
    else none

theorem poolOfOne_started : poolOfOne.Started := by
  refine ⟨fun key account stored => ?_, rfl, rfl, fun _ => rfl⟩
  by_cases same : key = "account"
  · simp only [poolOfOne, same, if_true, Option.some.injEq] at stored
    rw [← stored, same]
    rfl
  · simp [poolOfOne, same] at stored

/-- A pause that completes between the listing of an acquisition and its save. -/
def pausing : List Step :=
  [.start 0 (.acquire "run" .claude "model" "home"), .act 0 .takeSelection,
    .act 0 (.list "account" 1 false true),
    .start 1 (.update "account" { enabled := some (some false) }), .act 1 .takeLock, .act 1 .read]

/-- The acquisition after it. -/
def admitting : List Step :=
  [.act 1 .finish, .act 0 .takeLock, .act 0 .insert, .act 0 (.save 2)]

theorem pause_lost :
    ¬ ∀ (initial final : Pool) (steps : List Step), initial.Started →
      execute Pool.step initial steps = some final → EffectsKept initial final steps := by
  intro claimed
  have kept := claimed poolOfOne _ (pausing ++ .act 1 .write :: admitting) poolOfOne_started rfl
  obtain ⟨document, stored, agrees⟩ := kept pausing (.act 1 .write) admitting _ _ _ .enabled rfl rfl rfl
    (.wrote rfl rfl rfl (by decide)) (throughout_of_forall (by
      rintro head member pool (⟨written, effect, _⟩ | ⟨id, process, same, _⟩)
      · cases effect
        simp [admitting] at member
      · simp [admitting, same] at member))
  obtain rfl := Option.some.inj stored
  have lost : true = false := agrees
  simp at lost

/-- A new name that is saved before the acquisition lists the account is kept. -/
theorem account_updates_kept_in_turn :
    ∃ final, EffectsKept poolOfOne final
      [.start 0 (.update "account" { name := some (some "Home") }), .act 0 .takeLock, .act 0 .read,
        .act 0 .write, .act 0 .finish,
        .start 1 (.acquire "run" .claude "model" "home"), .act 1 .takeSelection,
        .act 1 (.list "account" 1 false true), .act 1 .takeLock, .act 1 .insert,
        .act 1 (.save 2)] := by
  refine ⟨_, account_updates_kept poolOfOne_started rfl ?_⟩
  iterate 10
    refine ⟨id, fun _ taken => ?_⟩
    obtain rfl := Option.some.inj taken
  refine ⟨?_, fun _ _ => trivial⟩
  rintro ⟨process, account, found, stage, stale⟩
  obtain rfl := Option.some.inj found
  obtain rfl := Stage.inserted.inj stage
  exact stale rfl

end Cairn.Accounts

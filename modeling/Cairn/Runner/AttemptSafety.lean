import Cairn.Runner.AttemptSteps

/-!
Owns what every interleaving of the VM controller keeps: one active attempt for each run, each
reserved slot with exactly one holder, an exit recorded at most once, and the code of an attempt
that has lost its lease.

Does not own how soon a timer acts.
-/

set_option autoImplicit false

namespace Cairn.Runner

open Cairn.Library.HashMaps Cairn.Library.Custody Cairn.Library.Steps

/-! ### Attempts -/

/-- What the timer has done for a lost lease shows in the exit: it is cancelled before, and its code
is that of an interruption. A timer that has ended before the VM has returned leaves a cancelled
attempt. -/
structure Attempt.Sound (stopping : Bool) (attempt : Attempt) : Prop where
  cancelling : ∀ lost, attempt.timer = .cancelling lost → attempt.leaseExpired = lost
  expired : attempt.lapsed = true → attempt.leaseExpired = true ∧ attempt.cancelled = true ∧
    attempt.timer = .ended
  coded : ∀ code, attempt.execution = .coded code ∨ attempt.execution = .recorded code →
    attempt.lapsed = true → code = controllerInterrupted
  ended : attempt.timer = .ended → attempt.execution.executing = true →
    attempt.isCancelled stopping = true

namespace Attempt

variable {attempt next : Attempt} {stopping leaseValid fails : Bool} {now : Int}
  {step : ExecutionStep}

theorem sound_spawned (plan : Plan) (slot : Nat) (stopping : Bool) :
    (spawned plan slot).Sound stopping where
  cancelling lost same := by cases same
  expired lapsed := by cases lapsed
  coded code same := by rcases same with same | same <;> cases same
  ended same := by cases same

theorem Sound.cancel (sound : attempt.Sound stopping) :
    ({ attempt with cancelled := true } : Attempt).Sound stopping where
  cancelling := sound.cancelling
  expired lapsed := ⟨(sound.expired lapsed).1, rfl, (sound.expired lapsed).2.2⟩
  coded := sound.coded
  ended _ _ := rfl

theorem Sound.stop (sound : attempt.Sound stopping) : attempt.Sound true where
  cancelling := sound.cancelling
  expired := sound.expired
  coded := sound.coded
  ended _ _ := by simp [isCancelled]

theorem abort_eq_ended {timer : Timer} (isEnded : timer = .ended) : abort timer = .ended := by
  rw [isEnded]
  rfl

theorem Sound.execute (sound : attempt.Sound stopping)
    (executed : attempt.execute stopping step = some next) : next.Sound stopping := by
  unfold Attempt.execute at executed
  split at executed
  · rename_i isSpawned
    have fresh : ∀ code, attempt.execution ≠ .coded code ∧ attempt.execution ≠ .recorded code := by
      intro code
      rw [isSpawned]
      exact ⟨fun same => (by cases same), fun same => by cases same⟩
    split at executed
    · obtain rfl := Option.some.inj executed
      exact ⟨sound.cancelling, sound.expired, fun code same => (by rcases same with same | same <;>
        cases same), fun _ executing => by cases executing⟩
    · rename_i goesOn
      obtain rfl := Option.some.inj executed
      refine ⟨sound.cancelling, sound.expired, fun code same => ?_, fun isEnded _ => ?_⟩
      · rcases same with same | same <;> cases same
      · have cancelled := sound.ended isEnded (by rw [isSpawned]; rfl)
        exact absurd cancelled goesOn
  · obtain rfl := Option.some.inj executed
    refine ⟨sound.cancelling, fun lapsed => ?_, fun code same => ?_, fun _ executing => ?_⟩
    · obtain ⟨expired, cancelled, isEnded⟩ := sound.expired lapsed
      exact ⟨expired, by simp [cancelled], isEnded⟩
    · rcases same with same | same <;> cases same
    · cases executing
  · obtain rfl := Option.some.inj executed
    refine ⟨fun lost isTimer => ?_, fun lapsed => ?_, fun code same lapsed => ?_,
      fun _ executing => ?_⟩
    · apply sound.cancelling lost
      revert isTimer
      cases attempt.timer <;> intro isTimer <;> first | exact isTimer | cases isTimer
    · obtain ⟨expired, cancelled, isEnded⟩ := sound.expired lapsed
      exact ⟨expired, cancelled, abort_eq_ended isEnded⟩
    · have expired := (sound.expired lapsed).1
      rcases same with same | same
      · obtain rfl := Execution.coded.inj same
        simp [exitCode, expired]
      · cases same
    · cases executing
  · rename_i code _ isCoded
    obtain rfl := Option.some.inj executed
    refine ⟨sound.cancelling, sound.expired, fun other same lapsed => ?_, fun _ executing => ?_⟩
    · rcases same with same | same
      · cases same
      · obtain rfl := Execution.recorded.inj same
        exact sound.coded code (.inl isCoded) lapsed
    · cases executing
  · cases executed

/-- An attempt whose timer has not acted for a lease. -/
theorem sound_of_unlapsed (unlapsed : attempt.lapsed = false)
    (cancelling : ∀ lost, attempt.timer = .cancelling lost → attempt.leaseExpired = lost)
    (ended : attempt.timer = .ended → attempt.isCancelled stopping = true) :
    attempt.Sound stopping where
  cancelling := cancelling
  expired lapsed := by
    rw [unlapsed] at lapsed
    cases lapsed
  coded code _ lapsed := by
    rw [unlapsed] at lapsed
    cases lapsed
  ended isEnded _ := ended isEnded

theorem Sound.enforce (sound : attempt.Sound stopping)
    (enforced : attempt.enforce stopping leaseValid now fails = some next) : next.Sound stopping := by
  have unlapsed : attempt.timer ≠ .ended → attempt.lapsed = false := by
    intro goesOn
    cases lapsed : attempt.lapsed with
    | false => rfl
    | true => exact absurd (sound.expired lapsed).2.2 goesOn
  unfold Attempt.enforce at enforced
  split at enforced <;> rename_i isTimer
  · obtain rfl := Option.some.inj enforced
    refine sound_of_unlapsed (unlapsed (by simp [isTimer])) ?_ ?_
    · simp only
      split <;> simp
    · simp only
      split <;> simp_all [isCancelled]
  · obtain rfl := Option.some.inj enforced
    exact sound_of_unlapsed (unlapsed (by simp [isTimer])) (by simp) (by simp)
  · split at enforced
    · obtain rfl := Option.some.inj enforced
      refine sound_of_unlapsed (unlapsed (by simp [isTimer])) ?_ ?_
      · simp only
        split <;> simp
      · simp only
        split <;> simp_all [isCancelled]
    · obtain rfl := Option.some.inj enforced
      exact sound_of_unlapsed (unlapsed (by simp [isTimer])) (by simp) (by simp)
  · obtain rfl := Option.some.inj enforced
    exact sound_of_unlapsed (unlapsed (by simp [isTimer])) (by simp) (by simp)
  · -- the lease of a VM that has not returned is lost: nothing has a code yet
    rename_i lost
    obtain rfl := Option.some.inj enforced
    have notLapsed := unlapsed (by simp [isTimer])
    have expired := sound.cancelling lost isTimer
    refine ⟨by simp, fun lapsed => ?_, fun code same lapsed => ?_, fun _ _ => rfl⟩
    · simp only [notLapsed, Bool.false_or, Bool.and_eq_true] at lapsed
      exact ⟨expired.trans lapsed.1, rfl, rfl⟩
    · simp only [notLapsed, Bool.false_or, Bool.and_eq_true] at lapsed
      have executing := lapsed.2
      rcases same with same | same <;> rw [same] at executing <;> cases executing
  · split at enforced
    · obtain rfl := Option.some.inj enforced
      exact sound_of_unlapsed (unlapsed (by simp [isTimer])) (by simp) (fun _ => rfl)
    · obtain rfl := Option.some.inj enforced
      exact sound_of_unlapsed (unlapsed (by simp [isTimer])) (by simp) (by simp)
  · cases enforced

end Attempt

/-! ### Runs -/

namespace Broker

variable {broker next : Broker}

/-- A call of `start` has the lock and writes the files of an attempt. -/
def Writes (broker : Broker) (call : Nat) (id : String) (plan : Plan) : Prop :=
  ∃ slot, broker.calls[call]? = some ⟨id, .writing plan slot⟩

/-- There is one attempt for a run, and the lock keeps it so until the next is registered. -/
structure Exclusive (broker : Broker) : Prop where
  runs : ∀ first second one two, broker.active.lookup first = some one →
    broker.active.lookup second = some two → one.plan.runId = two.plan.runId → first = second
  locked : ∀ call id plan, broker.Writes call id plan → broker.guard = some call
  absent : ∀ call id plan, broker.Writes call id plan → broker.active.lookup id = none
  alone : ∀ call id plan, broker.Writes call id plan → ∀ other attempt,
    broker.active.lookup other = some attempt → attempt.plan.runId ≠ plan.runId
  held : ∀ call, broker.guard = some call → ∃ id plan, broker.Writes call id plan

theorem exclusive_opened (stopped earlier : List String) (bootMs : Nat) (now : Int) :
    (opened stopped earlier bootMs now).Exclusive where
  runs first second one two found := by cases found
  locked call id plan writes := by
    obtain ⟨slot, found⟩ := writes
    cases found
  absent call id plan writes := rfl
  alone call id plan writes other attempt found := by cases found
  held call guarded := by cases guarded

theorem Exclusive.congr (exclusive : broker.Exclusive) (active : next.active = broker.active)
    (guard : next.guard = broker.guard)
    (writes : ∀ call id plan, next.Writes call id plan ↔ broker.Writes call id plan) :
    next.Exclusive where
  runs := by
    rw [active]
    exact exclusive.runs
  locked call id plan writing := by
    rw [guard]
    exact exclusive.locked call id plan ((writes call id plan).mp writing)
  absent call id plan writing := by
    rw [active]
    exact exclusive.absent call id plan ((writes call id plan).mp writing)
  alone call id plan writing := by
    rw [active]
    exact exclusive.alone call id plan ((writes call id plan).mp writing)
  held call guarded := by
    rw [guard] at guarded
    obtain ⟨id, plan, writing⟩ := exclusive.held call guarded
    exact ⟨id, plan, (writes call id plan).mpr writing⟩

/-- A call that goes on to anything but its writing. -/
theorem goTo_writes {call : Nat} {id : String} {phase later : Phase}
    (found : broker.calls[call]? = some ⟨id, phase⟩)
    (reading : ∀ plan slot, later ≠ .writing plan slot) (other : Nat) (target : String)
    (plan : Plan) : (broker.goTo call later).Writes other target plan ↔
      broker.Writes other target plan ∧ other ≠ call := by
  unfold Writes
  simp only [goTo_calls found]
  by_cases same : other = call
  · rw [if_pos same]
    constructor
    · rintro ⟨slot, equal⟩
      simp only [Option.some.injEq, Call.mk.injEq] at equal
      exact absurd equal.2 (reading plan slot)
    · exact fun both => absurd same both.2
  · rw [if_neg same]
    exact (and_iff_left same).symm

theorem writes_phase {call : Nat} {id target : String} {phase : Phase} {plan : Plan}
    (found : broker.calls[call]? = some ⟨id, phase⟩) (writes : broker.Writes call target plan) :
    target = id ∧ ∃ slot, phase = .writing plan slot := by
  obtain ⟨slot, same⟩ := writes
  rw [found] at same
  obtain ⟨rfl, rfl⟩ := Call.mk.inj (Option.some.inj same)
  exact ⟨rfl, slot, rfl⟩

theorem runId_ne_of_alone {run : String} (alone : broker.runIsActive run = false) {other : String}
    {attempt : Attempt} (found : broker.active.lookup other = some attempt) :
    attempt.plan.runId ≠ run := by
  have member := AList.mem_lookup_iff.mp found
  unfold runIsActive at alone
  have different := List.any_eq_false.mp alone _ member
  simpa using different

/-- A call that does not write, and does not after its step. -/
theorem goTo_writes_same {call : Nat} {id : String} {phase later : Phase}
    (found : broker.calls[call]? = some ⟨id, phase⟩)
    (reading : ∀ plan slot, phase ≠ .writing plan slot)
    (reading' : ∀ plan slot, later ≠ .writing plan slot) (other : Nat) (target : String)
    (plan : Plan) :
    (broker.goTo call later).Writes other target plan ↔ broker.Writes other target plan := by
  rw [goTo_writes found reading']
  constructor
  · exact fun both => both.1
  · intro writes
    refine ⟨writes, fun same => ?_⟩
    subst same
    obtain ⟨-, slot, isWriting⟩ := writes_phase found writes
    exact reading plan slot isWriting

theorem ne_writing_of_slot {phase : Phase} (empty : phase.slot? = none) (plan : Plan) (slot : Nat) :
    phase ≠ .writing plan slot := by
  rintro rfl
  cases empty

/-- A call that ends leaves the lock, if it had it. -/
theorem Exclusive.close (exclusive : broker.Exclusive) {call : Nat} {id : String} {phase : Phase}
    (found : broker.calls[call]? = some ⟨id, phase⟩) (result : Except Error Unit)
    (slot : Option Nat) : (broker.close call result slot).Exclusive := by
  have writes : ∀ other target plan, (broker.close call result slot).Writes other target plan ↔
      broker.Writes other target plan ∧ other ≠ call :=
    goTo_writes found fun plan slot same => by cases same
  constructor
  case runs => exact exclusive.runs
  case locked =>
    intro other target plan writing
    obtain ⟨before, different⟩ := (writes other target plan).mp writing
    have guarded := exclusive.locked other target plan before
    simp only [Broker.close, guarded, Option.some.injEq, if_neg different]
  case absent =>
    intro other target plan writing
    exact exclusive.absent other target plan ((writes other target plan).mp writing).1
  case alone =>
    intro other target plan writing
    exact exclusive.alone other target plan ((writes other target plan).mp writing).1
  case held =>
    intro other guarded
    simp only [Broker.close] at guarded
    split at guarded
    · cases guarded
    · rename_i kept
      obtain ⟨target, plan, before⟩ := exclusive.held other guarded
      refine ⟨target, plan, (writes other target plan).mpr ⟨before, fun same => ?_⟩⟩
      rw [same] at guarded
      exact kept guarded

/-- A call that takes the lock found no attempt of its name, nor of its run. -/
theorem Exclusive.lock (exclusive : broker.Exclusive) {call slot : Nat} {id : String} {plan : Plan}
    (found : broker.calls[call]? = some ⟨id, .reserved plan slot⟩)
    (unlocked : broker.guard = none) (absent : broker.active.lookup id = none)
    (alone : broker.runIsActive plan.runId = false) :
    ({ broker.goTo call (.writing plan slot) with guard := some call } : Broker).Exclusive := by
  have only : ∀ other target plan', ({ broker.goTo call (.writing plan slot) with
      guard := some call } : Broker).Writes other target plan' →
      other = call ∧ target = id ∧ plan' = plan := by
    rintro other target plan' ⟨slot', writing⟩
    change (broker.goTo call (.writing plan slot)).calls[other]? = _ at writing
    rw [goTo_calls found] at writing
    split at writing
    · rename_i same
      simp only [Option.some.injEq, Call.mk.injEq, Phase.writing.injEq] at writing
      exact ⟨same, writing.1.symm, writing.2.1.symm⟩
    · -- nobody else writes while the lock is free
      have guarded := exclusive.locked other target plan' ⟨slot', writing⟩
      rw [unlocked] at guarded
      cases guarded
  constructor
  case runs => exact exclusive.runs
  case locked =>
    intro other target plan' writing
    obtain ⟨rfl, -, -⟩ := only other target plan' writing
    rfl
  case absent =>
    intro other target plan' writing
    obtain ⟨-, rfl, -⟩ := only other target plan' writing
    exact absent
  case alone =>
    intro other target plan' writing another attempt active
    obtain ⟨-, -, rfl⟩ := only other target plan' writing
    exact runId_ne_of_alone alone active
  case held =>
    intro other guarded
    obtain rfl := Option.some.inj guarded
    refine ⟨id, plan, slot, ?_⟩
    change (broker.goTo call (.writing plan slot)).calls[call]? = _
    rw [goTo_calls found, if_pos rfl]

theorem Exclusive.register (exclusive : broker.Exclusive) {call slot : Nat} {id : String}
    {plan : Plan} (found : broker.calls[call]? = some ⟨id, .writing plan slot⟩) :
    (broker.register call id plan slot).Exclusive := by
  have writing : broker.Writes call id plan := ⟨slot, found⟩
  have guarded := exclusive.locked call id plan writing
  have alone := exclusive.alone call id plan writing
  have none : ∀ other target plan', ¬ (broker.register call id plan slot).Writes other target plan'
    := by
    intro other target plan' writes
    obtain ⟨before, different⟩ :=
      (goTo_writes found (fun _ _ same => by cases same) other target plan').mp writes
    have guarded' := exclusive.locked other target plan' before
    rw [guarded] at guarded'
    exact different (Option.some.inj guarded').symm
  constructor
  case runs =>
    intro first second one two isFirst isSecond same
    simp only [Broker.register, lookup_insert] at isFirst isSecond
    split at isFirst <;> rename_i isNew
    · obtain rfl := Option.some.inj isFirst
      split at isSecond <;> rename_i isNew'
      · rw [isNew, isNew']
      · exact absurd same.symm (alone second two isSecond)
    · split at isSecond
      · obtain rfl := Option.some.inj isSecond
        exact absurd same (alone first one isFirst)
      · exact exclusive.runs first second one two isFirst isSecond same
  case locked => exact fun other target plan' writes => absurd writes (none other target plan')
  case absent => exact fun other target plan' writes => absurd writes (none other target plan')
  case alone => exact fun other target plan' writes => absurd writes (none other target plan')
  case held => exact fun other guarded => by cases guarded

theorem Exclusive.moves (exclusive : broker.Exclusive) {call : Nat} {id : String} {phase : Phase}
    (found : broker.calls[call]? = some ⟨id, phase⟩) (moves : Moves call id phase broker next) :
    next.Exclusive := by
  cases moves with
  | goes later empty empty' =>
      refine Exclusive.congr exclusive ?_ ?_ ?_
      · rfl
      · rfl
      · exact goTo_writes_same found (ne_writing_of_slot empty) (ne_writing_of_slot empty')
  | closes result => exact exclusive.close found result phase.slot?
  | takes plan empty =>
      refine Exclusive.congr exclusive ?_ ?_ ?_
      · rfl
      · rfl
      · exact goTo_writes_same found (ne_writing_of_slot empty) (fun _ _ same => by cases same)
  | locks plan slot reserved unlocked absent _ _ alone =>
      subst reserved
      exact exclusive.lock found unlocked absent alone
  | registers plan slot writing =>
      subst writing
      exact exclusive.register found

/-- A step of a registered attempt leaves its plan. -/
theorem Exclusive.put (exclusive : broker.Exclusive) {id : String} {before after : Attempt}
    (found : broker.active.lookup id = some before) (same : after.plan = before.plan)
    (active : next.active = broker.active.insert id after) (guard : next.guard = broker.guard)
    (calls : next.calls = broker.calls) : next.Exclusive := by
  have writes : ∀ call target plan, next.Writes call target plan ↔
      broker.Writes call target plan := by
    intro call target plan
    unfold Writes
    rw [calls]
  have kept : ∀ other attempt, next.active.lookup other = some attempt →
      ∃ old, broker.active.lookup other = some old ∧ attempt.plan = old.plan := by
    intro other attempt lookup
    rw [active, lookup_insert] at lookup
    split at lookup
    · rename_i isId
      obtain rfl := Option.some.inj lookup
      rw [isId]
      exact ⟨before, found, same⟩
    · exact ⟨attempt, lookup, rfl⟩
  constructor
  case runs =>
    intro first second one two isFirst isSecond equal
    obtain ⟨old, lookup, samePlan⟩ := kept first one isFirst
    obtain ⟨old', lookup', samePlan'⟩ := kept second two isSecond
    rw [samePlan, samePlan'] at equal
    exact exclusive.runs first second old old' lookup lookup' equal
  case locked =>
    intro call target plan writing
    rw [guard]
    exact exclusive.locked call target plan ((writes call target plan).mp writing)
  case absent =>
    intro call target plan writing
    have none := exclusive.absent call target plan ((writes call target plan).mp writing)
    rw [active, lookup_insert]
    split
    · rename_i isId
      rw [isId, found] at none
      cases none
    · exact none
  case alone =>
    intro call target plan writing other attempt lookup
    obtain ⟨old, lookup', samePlan⟩ := kept other attempt lookup
    rw [samePlan]
    exact exclusive.alone call target plan ((writes call target plan).mp writing) other old lookup'
  case held =>
    intro call guarded
    rw [guard] at guarded
    obtain ⟨target, plan, writing⟩ := exclusive.held call guarded
    exact ⟨target, plan, (writes call target plan).mpr writing⟩

theorem Exclusive.erase (exclusive : broker.Exclusive) (id : String) :
    ({ broker with active := broker.active.erase id } : Broker).Exclusive where
  runs first second one two isFirst isSecond :=
    exclusive.runs first second one two (lookup_of_erase isFirst).2 (lookup_of_erase isSecond).2
  locked := exclusive.locked
  absent call target plan writing := by
    have none := exclusive.absent call target plan writing
    simp only [lookup_erase]
    split
    · rfl
    · exact none
  alone call target plan writing other attempt lookup :=
    exclusive.alone call target plan writing other attempt (lookup_of_erase lookup).2
  held := exclusive.held

theorem Exclusive.begin (exclusive : broker.Exclusive) (id : String) :
    ({ broker with calls := broker.calls ++ [⟨id, .arrived⟩] } : Broker).Exclusive := by
  refine Exclusive.congr exclusive ?_ ?_ ?_
  · rfl
  · rfl
  · intro call target plan
    unfold Writes
    apply exists_congr
    intro slot
    rw [begun_calls]
    split
    · rename_i isNew
      rw [isNew, List.getElem?_eq_none le_rfl]
      simp
    · rfl

theorem exclusive_step (exclusive : broker.Exclusive) {action : Action}
    (stepped : broker.step action = some next) : next.Exclusive := by
  cases action with
  | begin id =>
      obtain rfl := Option.some.inj stepped
      exact exclusive.begin id
  | advance call answer =>
      obtain ⟨id, phase, found, moves⟩ := advance_moves stepped
      exact exclusive.moves found moves
  | abandon call =>
      obtain ⟨id, phase, found, moves⟩ := abandon_moves stepped
      exact exclusive.moves found moves
  | markStopped id =>
      obtain rfl := Option.some.inj stepped
      exact Exclusive.congr exclusive rfl rfl fun _ _ _ => Iff.rfl
  | lookUpStopped id =>
      obtain same | ⟨attempt, found, rfl⟩ := lookUpStopped_cases stepped
      · rw [same]
        exact exclusive
      · have same : ({ attempt with cancelled := true } : Attempt).plan = attempt.plan := rfl
        exact exclusive.put found same rfl rfl rfl
  | requestRenewal id remaining =>
      obtain ⟨renewals, rfl⟩ := requestRenewal_cases stepped
      exact Exclusive.congr exclusive rfl rfl fun _ _ _ => Iff.rfl
  | storeRenewal id remaining =>
      obtain ⟨-, rfl⟩ := storeRenewal_cases stepped
      exact Exclusive.congr exclusive rfl rfl fun _ _ _ => Iff.rfl
  | pass elapsed now =>
      obtain rfl := Option.some.inj stepped
      exact Exclusive.congr exclusive rfl rfl fun _ _ _ => Iff.rfl
  | shutDown =>
      obtain rfl := Option.some.inj stepped
      exact Exclusive.congr exclusive rfl rfl fun _ _ _ => Iff.rfl
  | execute id step =>
      obtain ⟨before, after, found, executed, rfl⟩ := execute_cases stepped
      obtain ⟨calls, guard, active, -⟩ := accounted_calls broker id step before after
      exact exclusive.put found (Attempt.execute_plan executed).1 active guard calls
  | remove id =>
      obtain ⟨attempt, code, found, recorded, unlocked, rfl⟩ := remove_cases stepped
      exact exclusive.erase id
  | enforce id fails =>
      obtain ⟨before, after, found, enforced, rfl⟩ := enforce_cases stepped
      exact exclusive.put found (Attempt.enforce_frame enforced).1 rfl rfl rfl

theorem custody_step (exclusive : broker.Exclusive) (custody : broker.Custody) {action : Action}
    (stepped : broker.step action = some next) : next.Custody := by
  have absent : ∀ (call : Nat) (id : String) (phase : Phase),
      broker.calls[call]? = some ⟨id, phase⟩ → ∀ plan slot, phase = .writing plan slot → broker.active.lookup id = none := by
    rintro call id phase found plan slot rfl
    exact exclusive.absent call id plan ⟨slot, found⟩
  cases action with
  | begin id =>
      obtain rfl := Option.some.inj stepped
      exact custody.begin id
  | advance call answer =>
      obtain ⟨id, phase, found, moves⟩ := advance_moves stepped
      exact custody.moves found moves (absent call id phase found)
  | abandon call =>
      obtain ⟨id, phase, found, moves⟩ := abandon_moves stepped
      exact custody.moves found moves (absent call id phase found)
  | markStopped id =>
      obtain rfl := Option.some.inj stepped
      exact Custody.congr custody (fun _ => rfl) (fun _ => rfl) rfl rfl
  | lookUpStopped id =>
      obtain same | ⟨attempt, found, rfl⟩ := lookUpStopped_cases stepped
      · rw [same]
        exact custody
      · have same : ({ attempt with cancelled := true } : Attempt).held? = attempt.held? := rfl
        exact custody.put found same rfl rfl rfl rfl
  | requestRenewal id remaining =>
      obtain ⟨renewals, rfl⟩ := requestRenewal_cases stepped
      exact Custody.congr custody (fun _ => rfl) (fun _ => rfl) rfl rfl
  | storeRenewal id remaining =>
      obtain ⟨-, rfl⟩ := storeRenewal_cases stepped
      exact Custody.congr custody (fun _ => rfl) (fun _ => rfl) rfl rfl
  | pass elapsed now =>
      obtain rfl := Option.some.inj stepped
      exact Custody.congr custody (fun _ => rfl) (fun _ => rfl) rfl rfl
  | shutDown =>
      obtain rfl := Option.some.inj stepped
      exact Custody.congr custody (fun _ => rfl) (fun _ => rfl) rfl rfl
  | execute id step =>
      obtain ⟨before, after, found, executed, rfl⟩ := execute_cases stepped
      exact custody.accounted found executed
  | remove id =>
      obtain ⟨attempt, code, found, recorded, unlocked, rfl⟩ := remove_cases stepped
      apply custody.erase found
      simp [Attempt.held?, recorded, Execution.executing]
  | enforce id fails =>
      obtain ⟨before, after, found, enforced, rfl⟩ := enforce_cases stepped
      exact custody.put found (Attempt.enforce_held enforced) rfl rfl rfl rfl

end Broker

end Cairn.Runner

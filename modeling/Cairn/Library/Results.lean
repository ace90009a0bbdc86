import Mathlib.Data.List.Forall2
import Mathlib.Logic.Basic

/-!
Owns inversion rules for computations that end with a value or a failure: what
a successful composition says about its parts, and the loop rule for a fold
that may fail.
-/

set_option autoImplicit false

namespace Cairn.Library.Results

universe u v w

variable {Failure : Type u} {Source : Type v} {Target : Type v}

theorem bind_eq_ok {result : Except Failure Source} {next : Source → Except Failure Target}
    {value : Target} :
    (result >>= next) = .ok value ↔ ∃ middle, result = .ok middle ∧ next middle = .ok value := by
  cases result <;> simp [bind, Except.bind]

/-- A failed bind failed in its first part or in the rest. -/
theorem bind_eq_error {result : Except Failure Source} {next : Source → Except Failure Target}
    {failure : Failure} (failed : (result >>= next) = .error failure) :
    result = .error failure ∨ ∃ value, result = .ok value ∧ next value = .error failure := by
  cases result with
  | error other => exact Or.inl (congrArg Except.error (Except.error.inj failed))
  | ok value => exact Or.inr ⟨value, rfl, failed⟩

theorem ok_bind (value : Source) (next : Source → Except Failure Target) :
    ((Except.ok value : Except Failure Source) >>= next) = next value := rfl

theorem map_eq_ok {result : Except Failure Source} {change : Source → Target} {value : Target} :
    (change <$> result) = .ok value ↔ ∃ middle, result = .ok middle ∧ change middle = value := by
  cases result <;> simp [Functor.map, Except.map]

theorem toOption_eq_some {result : Except Failure Source} {value : Source} :
    result.toOption = some value ↔ result = .ok value := by
  cases result <;> simp [Except.toOption]

theorem guard_eq_ok {condition : Prop} [Decidable condition] {failure : Failure} {value : PUnit} :
    ((if condition then throw failure else pure PUnit.unit : Except Failure PUnit) = .ok value) ↔
      ¬ condition := by
  by_cases holds : condition <;> simp [holds, throw, throwThe, MonadExceptOf.throw, pure, Except.pure]

/-- A stateful computation that does nothing. -/
theorem run_pure_eq_ok {State : Type} {Value : Type} {value other : Value} {state next : State} :
    (pure value : StateT State (Except Failure) Value).run state = .ok (other, next) ↔
      value = other ∧ state = next := by
  rw [StateT.run_pure]
  simp [pure, Except.pure]

/-- The loop rule: a property of the remaining inputs and the loop state that
every successful round keeps holds with no input left when the loop succeeds. -/
theorem foldlM_eq_ok {Input : Type w} {State : Type v}
    {round : State → Input → Except Failure State} {motive : List Input → State → Prop}
    (step : ∀ input rest state next, motive (input :: rest) state →
      round state input = .ok next → motive rest next)
    {inputs : List Input} {state final : State} (holds : motive inputs state)
    (finished : inputs.foldlM round state = .ok final) : motive [] final := by
  induction inputs generalizing state with
  | nil =>
      simp only [List.foldlM_nil, pure, Except.pure, Except.ok.injEq] at finished
      exact finished ▸ holds
  | cons input rest inductionHypothesis =>
      rw [List.foldlM_cons, bind_eq_ok] at finished
      obtain ⟨next, rounded, finished⟩ := finished
      exact inductionHypothesis (step input rest state next holds rounded) finished

/-- The loop rule for success: where every round succeeds from a state that meets a property
of the remaining inputs, so does the loop. -/
theorem foldlM_ok {Input : Type w} {State : Type v} {round : State → Input → Except Failure State}
    {motive : List Input → State → Prop}
    (step : ∀ input rest state, motive (input :: rest) state →
      ∃ next, round state input = .ok next ∧ motive rest next)
    {inputs : List Input} {state : State} (holds : motive inputs state) :
    ∃ final, inputs.foldlM round state = .ok final ∧ motive [] final := by
  induction inputs generalizing state with
  | nil => exact ⟨state, rfl, holds⟩
  | cons input rest inductionHypothesis =>
      obtain ⟨next, rounded, holds⟩ := step input rest state holds
      obtain ⟨final, finished, holds⟩ := inductionHypothesis holds
      exact ⟨final, by rw [List.foldlM_cons, bind_eq_ok]; exact ⟨next, rounded, finished⟩, holds⟩

/-- A traversal that succeeds relates every input with its output. -/
theorem forall₂_of_mapM {Input : Type v} {change : Input → Except Failure Target}
    {inputs : List Input} {outputs : List Target} (mapped : inputs.mapM change = .ok outputs) :
    List.Forall₂ (fun input output => change input = .ok output) inputs outputs := by
  induction inputs generalizing outputs with
  | nil =>
      obtain rfl := Except.ok.inj mapped
      exact .nil
  | cons input rest inductionHypothesis =>
      rw [List.mapM_cons] at mapped
      obtain ⟨output, changed, more⟩ := bind_eq_ok.mp mapped
      obtain ⟨others, rested, same⟩ := bind_eq_ok.mp more
      obtain rfl := Except.ok.inj same
      exact .cons changed (inductionHypothesis rested)

/-- A traversal of images whose every step succeeds. -/
theorem mapM_map_ok {Input : Type w} {Middle : Type v} {image : Input → Middle}
    {change : Middle → Except Failure Target} {value : Input → Target} (inputs : List Input)
    (changes : ∀ input, change (image input) = .ok (value input)) :
    (inputs.map image).mapM change = .ok (inputs.map value) := by
  induction inputs with
  | nil => rfl
  | cons input rest inductionHypothesis =>
      rw [List.map_cons, List.mapM_cons, changes input]
      exact bind_eq_ok.mpr ⟨_, rfl, bind_eq_ok.mpr ⟨_, inductionHypothesis, rfl⟩⟩

end Cairn.Library.Results

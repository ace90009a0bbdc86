import Mathlib.Data.List.Basic

/-!
Owns the generic rules for systems given by a step function that is defined only
where a step is enabled: a run is a list of enabled steps, and what every step
preserves holds after every run. `execute_invariant` is the induction the safety
results over interleavings instantiate; `Throughout` restricts a run to steps that
meet a condition on the state before them.
-/

set_option autoImplicit false

namespace Cairn.Library.Steps

universe u v

variable {State : Type u} {Step : Type v}

/-- The state after a run, if every step of it is enabled. -/
def execute (step : State → Step → Option State) (state : State) (steps : List Step) :
    Option State :=
  steps.foldlM step state

/-- Every step of a run is taken in a state that meets a condition. -/
def Throughout (step : State → Step → Option State) (Condition : State → Step → Prop) :
    State → List Step → Prop
  | _, [] => True
  | state, head :: tail =>
      Condition state head ∧ ∀ next, step state head = some next → Throughout step Condition next tail

variable {step : State → Step → Option State}

@[simp] theorem execute_nil (state : State) : execute step state [] = some state := rfl

theorem execute_cons {state final : State} {head : Step} {tail : List Step} :
    execute step state (head :: tail) = some final ↔
      ∃ next, step state head = some next ∧ execute step next tail = some final := by
  simp only [execute, List.foldlM_cons, Option.bind_eq_bind, Option.bind_eq_some_iff]

theorem execute_append {state final : State} {first second : List Step} :
    execute step state (first ++ second) = some final ↔
      ∃ middle, execute step state first = some middle ∧
        execute step middle second = some final := by
  simp only [execute, List.foldlM_append, Option.bind_eq_bind, Option.bind_eq_some_iff]

/-- The invariant rule over runs whose steps meet a condition. -/
theorem execute_invariant_where {Holds : State → Prop} {Condition : State → Step → Prop}
    (preserved : ∀ state head next, Holds state → Condition state head →
      step state head = some next → Holds next)
    {steps : List Step} {state final : State} (holds : Holds state)
    (throughout : Throughout step Condition state steps)
    (executed : execute step state steps = some final) : Holds final := by
  induction steps generalizing state with
  | nil =>
      obtain rfl := Option.some.inj executed
      exact holds
  | cons head tail inductionHypothesis =>
      obtain ⟨next, taken, rest⟩ := execute_cons.mp executed
      exact inductionHypothesis (preserved state head next holds throughout.1 taken)
        (throughout.2 next taken) rest

/-- The invariant rule: what holds initially and is kept by every step holds after
every run. -/
theorem execute_invariant {Holds : State → Prop}
    (preserved : ∀ state head next, Holds state → step state head = some next → Holds next)
    {steps : List Step} {state final : State} (holds : Holds state)
    (executed : execute step state steps = some final) : Holds final := by
  induction steps generalizing state with
  | nil =>
      obtain rfl := Option.some.inj executed
      exact holds
  | cons head tail inductionHypothesis =>
      obtain ⟨next, taken, rest⟩ := execute_cons.mp executed
      exact inductionHypothesis (preserved state head next holds taken) rest

/-- A condition that every step of a run meets in any state. -/
theorem throughout_of_forall {Condition : State → Step → Prop} {steps : List Step} {state : State}
    (met : ∀ head ∈ steps, ∀ state, Condition state head) : Throughout step Condition state steps := by
  induction steps generalizing state with
  | nil => trivial
  | cons head tail inductionHypothesis =>
      exact ⟨met head List.mem_cons_self state, fun _ _ =>
        inductionHypothesis fun later member => met later (List.mem_cons_of_mem _ member)⟩

theorem Throughout.mono {First Second : State → Step → Prop} {steps : List Step} {state : State}
    (throughout : Throughout step First state steps)
    (weaker : ∀ state head, First state head → Second state head) :
    Throughout step Second state steps := by
  induction steps generalizing state with
  | nil => trivial
  | cons head tail inductionHypothesis =>
      exact ⟨weaker state head throughout.1, fun next taken =>
        inductionHypothesis (throughout.2 next taken)⟩

/-- A condition on all steps of a run is one on its beginning and one on its rest. -/
theorem throughout_append {Condition : State → Step → Prop} {first second : List Step}
    {state : State} : Throughout step Condition state (first ++ second) ↔
      Throughout step Condition state first ∧ ∀ middle, execute step state first = some middle →
        Throughout step Condition middle second := by
  induction first generalizing state with
  | nil =>
      refine ⟨fun throughout => ⟨trivial, fun middle reached => ?_⟩, fun both => both.2 state rfl⟩
      obtain rfl := Option.some.inj reached
      exact throughout
  | cons head tail inductionHypothesis =>
      constructor
      · intro throughout
        refine ⟨⟨throughout.1, fun next taken =>
          (inductionHypothesis.mp (throughout.2 next taken)).1⟩, fun middle reached => ?_⟩
        obtain ⟨next, taken, rest⟩ := execute_cons.mp reached
        exact (inductionHypothesis.mp (throughout.2 next taken)).2 middle rest
      · intro both
        refine ⟨both.1.1, fun next taken => inductionHypothesis.mpr ⟨both.1.2 next taken, ?_⟩⟩
        exact fun middle rest => both.2 middle (execute_cons.mpr ⟨next, taken, rest⟩)

/-- The same, read off at each step of the run. -/
theorem throughout_iff {Condition : State → Step → Prop} {steps : List Step} {state : State} :
    Throughout step Condition state steps ↔
      ∀ before head after middle, steps = before ++ head :: after →
        execute step state before = some middle → Condition middle head := by
  constructor
  · intro throughout before head after middle split reached
    induction before generalizing state steps with
    | nil =>
        obtain rfl := Option.some.inj reached
        subst split
        exact throughout.1
    | cons first tail inductionHypothesis =>
        subst split
        obtain ⟨next, taken, rest⟩ := execute_cons.mp reached
        exact inductionHypothesis (throughout.2 next taken) rfl rest
  · intro met
    induction steps generalizing state with
    | nil => trivial
    | cons head tail inductionHypothesis =>
        refine ⟨met [] head tail state rfl rfl, fun next taken => inductionHypothesis ?_⟩
        intro before later after middle split reached
        exact met (head :: before) later after middle (by rw [split, List.cons_append])
          (execute_cons.mpr ⟨next, taken, reached⟩)

end Cairn.Library.Steps

import Mathlib.Data.List.Basic

/-!
Owns sequential programs over a durable state that may stop after any of their writes: the
states such a program goes through, the rules for what holds in all of them, and the rules
for what holds when it ends.
-/

set_option autoImplicit false

namespace Cairn.Library.Interruptions

variable {State Failure Value Next : Type}

/-- A program: the states that its writes lead to, in order, and how it ends. -/
def Action (State Failure Value : Type) : Type :=
  State → List State × Except Failure (Value × State)

namespace Action

def run (action : Action State Failure Value) (state : State) :
    List State × Except Failure (Value × State) :=
  action state

instance : Monad (Action State Failure) where
  pure value := fun state => ([], .ok (value, state))
  bind action next := fun state =>
    match action state with
    | (visited, .error failure) => (visited, .error failure)
    | (visited, .ok (value, middle)) =>
        let rest := next value middle
        (visited ++ rest.1, rest.2)

/-- Read the state. -/
def get : Action State Failure State := fun state => ([], .ok (state, state))

/-- A write that cannot be torn. -/
def write (change : State → State) : Action State Failure Unit := fun state =>
  ([change state], .ok ((), change state))

def fail (failure : Failure) : Action State Failure Value := fun _ => ([], .error failure)

/-- The program may leave a state: it has not begun, or stopped after one of its writes. -/
def Leaves (action : Action State Failure Value) (state next : State) : Prop :=
  next = state ∨ next ∈ (action.run state).1

/-- What holds after every write, and what holds at the end. -/
structure Keeps (action : Action State Failure Value) (state : State) (Always : State → Prop)
    (Post : Value → State → Prop) : Prop where
  visited : ∀ next ∈ (action.run state).1, Always next
  finished : ∀ value next, (action.run state).2 = .ok (value, next) → Post value next

/-- The program ends, and what holds then. -/
def Ends (action : Action State Failure Value) (state : State) (Post : Value → State → Prop) :
    Prop :=
  ∃ value next, (action.run state).2 = .ok (value, next) ∧ Post value next

variable {state : State} {Always : State → Prop} {Post : Value → State → Prop}
  {Final : Next → State → Prop}

theorem keeps_pure {value : Value} (holds : Post value state) :
    Keeps (pure value : Action State Failure Value) state Always Post :=
  ⟨fun _ member => absurd member List.not_mem_nil, fun _ _ ends => by
    obtain ⟨rfl, rfl⟩ := Prod.mk.inj (Except.ok.inj ends)
    exact holds⟩

theorem keeps_fail {failure : Failure} :
    Keeps (fail failure : Action State Failure Value) state Always Post :=
  ⟨fun _ member => absurd member List.not_mem_nil, fun _ _ ends => by cases ends⟩

theorem keeps_get {Post : State → State → Prop} (holds : Post state state) :
    Keeps (get : Action State Failure State) state Always Post :=
  ⟨fun _ member => absurd member List.not_mem_nil, fun _ _ ends => by
    obtain ⟨rfl, rfl⟩ := Prod.mk.inj (Except.ok.inj ends)
    exact holds⟩

theorem keeps_write {change : State → State} {Post : Unit → State → Prop}
    (always : Always (change state)) (holds : Post () (change state)) :
    Keeps (write change : Action State Failure Unit) state Always Post :=
  ⟨fun _ member => List.mem_singleton.mp member ▸ always, fun _ _ ends => by
    obtain ⟨rfl, rfl⟩ := Prod.mk.inj (Except.ok.inj ends)
    exact holds⟩

theorem bind_run (action : Action State Failure Value) (next : Value → Action State Failure Next) :
    (action >>= next).run state =
      match action.run state with
      | (visited, .error failure) => (visited, .error failure)
      | (visited, .ok (value, middle)) =>
          (visited ++ ((next value).run middle).1, ((next value).run middle).2) := rfl

/-- The rule for a sequence: what holds after the first part is what the second may use. -/
theorem keeps_bind {action : Action State Failure Value} {next : Value → Action State Failure Next}
    (first : Keeps action state Always Post)
    (second : ∀ value middle, Post value middle → Keeps (next value) middle Always Final) :
    Keeps (action >>= next) state Always Final := by
  cases ran : action.run state with
  | mk visited result =>
      cases result with
      | error failure =>
          have whole : (action >>= next).run state = (visited, .error failure) := by
            rw [bind_run, ran]
          refine ⟨fun state member => first.visited state ?_, fun _ _ ends => ?_⟩
          · rw [whole] at member
            rwa [ran]
          · rw [whole] at ends
            cases ends
      | ok value =>
          obtain ⟨value, middle⟩ := value
          have whole : (action >>= next).run state =
              (visited ++ ((next value).run middle).1, ((next value).run middle).2) := by
            rw [bind_run, ran]
          have rest := second value middle (first.finished value middle (by rw [ran]))
          refine ⟨fun state member => ?_, fun result final ends => ?_⟩
          · rw [whole] at member
            rcases List.mem_append.mp member with earlier | later
            · exact first.visited state (by rwa [ran])
            · exact rest.visited state later
          · rw [whole] at ends
            exact rest.finished result final ends

/-- The rule for a read. -/
theorem keeps_get_bind {next : State → Action State Failure Next}
    (rest : Keeps (next state) state Always Final) :
    Keeps (get >>= next : Action State Failure Next) state Always Final := by
  have read : Keeps (get : Action State Failure State) state Always
      fun value middle => value = state ∧ middle = state := keeps_get ⟨rfl, rfl⟩
  refine keeps_bind read fun value middle both => ?_
  rw [both.1, both.2]
  exact rest

/-- The rule for a write. -/
theorem keeps_write_bind {change : State → State} {next : Unit → Action State Failure Next}
    (always : Always (change state)) (rest : Keeps (next ()) (change state) Always Final) :
    Keeps (write change >>= next : Action State Failure Next) state Always Final := by
  have written : Keeps (write change : Action State Failure Unit) state Always
      fun _ middle => middle = change state := keeps_write always rfl
  exact keeps_bind written fun _ _ here => here ▸ rest

theorem Keeps.mono {action : Action State Failure Value} {Weaker : State → Prop}
    {After : Value → State → Prop} (keeps : Keeps action state Always Post)
    (always : ∀ state, Always state → Weaker state)
    (post : ∀ value state, Post value state → After value state) :
    Keeps action state Weaker After :=
  ⟨fun next member => always next (keeps.visited next member),
    fun value next ends => post value next (keeps.finished value next ends)⟩

end Action

end Cairn.Library.Interruptions

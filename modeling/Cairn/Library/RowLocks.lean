import Cairn.Library.HashMaps
import Cairn.Library.Steps

/-!
Owns transactions over a shared database with row locks, the system that interleaves
any number of them, and its proof rule. A statement sees every earlier commit, and
waits while another transaction holds a lock that excludes one of its own; locks are
held to the end. The writes of a transaction appear at its end, which waits while
another transaction has locked a row they change. Random values are drawn there too:
until then nobody else could know them.

The rule is one obligation for each program: an assertion for every place between
two statements that the ends of other transactions preserve, as long as they change
none of the locked rows. `step_holds` then gives the invariant and the relation of
every step over all interleavings.

Does not own rows: `same` says when a row is unchanged.
-/

set_option autoImplicit false

namespace Cairn.Library.RowLocks

open HashMaps Steps

/-- How a row is locked. -/
inductive Mode where
  | shared
  | exclusive
deriving DecidableEq, Repr

/-- A lock on a row. -/
structure Lock (Row : Type) where
  row : Row
  mode : Mode
deriving DecidableEq, Repr

/-- Two transactions can hold both locks. -/
def Lock.Compatible {Row : Type} (first second : Lock Row) : Prop :=
  first.row = second.row → first.mode = .shared ∧ second.mode = .shared

instance {Row : Type} [DecidableEq Row] (first second : Lock Row) :
    Decidable (first.Compatible second) := by
  unfold Lock.Compatible
  infer_instance

/-- What a transaction has still to do: run a statement that locks rows and reads, or
end with an effect, with random values drawn for it. -/
inductive Transaction (Db Row Value : Type) where
  | finish (effect : Db → Db)
  | select (locks : Db → List (Lock Row)) (next : Db → Transaction Db Row Value)
  | draw (next : Value → Transaction Db Row Value)

/-- The effect of a program that needs only these values to end. -/
def Transaction.conclude {Db Row Value : Type} :
    Transaction Db Row Value → List Value → Option (Db → Db)
  | .finish effect, [] => some effect
  | .draw next, value :: rest => (next value).conclude rest
  | _, _ => none

/-- A transaction under way. -/
structure Running (Db Row Value : Type) where
  program : Transaction Db Row Value
  held : List (Lock Row)

/-- A database with the transactions under way. -/
structure World (Db Row Value : Type) where
  db : Db
  running : HashMap Nat (Running Db Row Value)

/-- What a service does with a request, and what its values and its rows are. -/
structure Service (Db Row Value Request : Type) where
  receive : Request → Db → Db
  program : Request → Db → Transaction Db Row Value
  fresh : List Value → Db → Bool
  note : List Value → Db → Db
  tick : Db → Db
  same : Row → Db → Db → Bool

/-- What happens next. -/
inductive Step (Value Request : Type) where
  | begin (key : Nat) (request : Request)
  | select (key : Nat)
  | finish (key : Nat) (values : List Value)
  | abort (key : Nat)
  | tick

section Running

variable {Db Row Value Request : Type} [DecidableEq Row] (service : Service Db Row Value Request)

namespace World

/-- No other transaction holds a lock that excludes one of these. -/
def Free (key : Nat) (locks : List (Lock Row)) (world : World Db Row Value) : Prop :=
  ∀ entry ∈ world.running.entries, entry.1 ≠ key →
    ∀ held ∈ entry.2.held, ∀ lock ∈ locks, lock.Compatible held

instance (key : Nat) (locks : List (Lock Row)) (world : World Db Row Value) :
    Decidable (world.Free key locks) := by
  unfold Free
  infer_instance

/-- The rows that other transactions have locked are as in another database. -/
def Spares (key : Nat) (next : Db) (world : World Db Row Value) : Prop :=
  ∀ entry ∈ world.running.entries, entry.1 ≠ key →
    ∀ held ∈ entry.2.held, service.same held.row world.db next = true

instance (key : Nat) (next : Db) (world : World Db Row Value) :
    Decidable (world.Spares service key next) := by
  unfold Spares
  infer_instance

/-- A request arrives. -/
def begin (key : Nat) (request : Request) (world : World Db Row Value) :
    Option (World Db Row Value) :=
  if key ∈ world.running then none
  else some ⟨service.receive request world.db,
    world.running.insert key ⟨service.program request world.db, []⟩⟩

/-- A statement runs once its locks are free. -/
def select (key : Nat) (world : World Db Row Value) : Option (World Db Row Value) :=
  match world.running.lookup key with
  | some ⟨.select locks next, held⟩ =>
      if world.Free key (locks world.db) then
        some { world with
          running := world.running.insert key ⟨next world.db, locks world.db ++ held⟩ }
      else none
  | _ => none

/-- A transaction ends once no row it changes is locked elsewhere. -/
def finish (key : Nat) (values : List Value) (world : World Db Row Value) :
    Option (World Db Row Value) := do
  let running ← world.running.lookup key
  let effect ← running.program.conclude values
  let next := effect (service.note values world.db)
  if service.fresh values world.db ∧ world.Spares service key next then
    some ⟨next, world.running.erase key⟩
  else none

/-- A transaction is rolled back. -/
def abort (key : Nat) (world : World Db Row Value) : World Db Row Value :=
  { world with running := world.running.erase key }

/-- One step; `none` where it has to wait or cannot be taken. -/
def step (world : World Db Row Value) : Step Value Request → Option (World Db Row Value)
  | .begin key request => world.begin service key request
  | .select key => world.select key
  | .finish key values => world.finish service key values
  | .abort key => some (world.abort key)
  | .tick => some { world with db := service.tick world.db }

end World

/-! ### Assertions -/

/-- What is proved of a service: an invariant of its database, and what a step may do. -/
structure Logic (Db : Type) where
  inv : Db → Prop
  evolves : Db → Db → Prop

variable (logic : Logic Db)

/-- What others may do to the database while these rows are locked. -/
structure Allowed (held : List (Lock Row)) (db next : Db) : Prop where
  inv : logic.inv next
  evolves : logic.evolves db next
  same : ∀ lock ∈ held, service.same lock.row db next = true

/-- An assertion that others preserve while these rows are locked. -/
def Stable (held : List (Lock Row)) (known : Db → Prop) : Prop :=
  ∀ db next, logic.inv db → Allowed service logic held db next → known db → known next

/-- A program keeps the invariant from an assertion on, whatever others do between
its statements. -/
def Guarded : Transaction Db Row Value → List (Lock Row) → List Value → (Db → Prop) → Prop
  | .finish effect, _, drawn, known =>
      ∀ db, logic.inv db → known db → service.fresh drawn db = true →
        logic.inv (effect (service.note drawn db)) ∧
          logic.evolves db (effect (service.note drawn db))
  | .select locks next, held, _, known =>
      ∀ db, logic.inv db → known db → ∃ after : Db → Prop, after db ∧
        Stable service logic (locks db ++ held) after ∧
          Guarded (next db) (locks db ++ held) [] after
  | .draw next, held, drawn, known =>
      ∀ value, Guarded (next value) held (drawn ++ [value]) known

/-- A change that leaves every row as it is. -/
structure Quiet (db next : Db) : Prop where
  inv : logic.inv next
  evolves : logic.evolves db next
  same : ∀ row, service.same row db next = true

/-- Every program of a service is guarded, and so is what happens outside of programs. -/
structure Verified : Prop where
  refl : ∀ db, logic.inv db → logic.evolves db db
  receive : ∀ request db, logic.inv db → Quiet service logic db (service.receive request db)
  tick : ∀ db, logic.inv db → Quiet service logic db (service.tick db)
  program : ∀ request db, logic.inv db → ∃ known : Db → Prop, known (service.receive request db) ∧
    Stable service logic [] known ∧ Guarded service logic (service.program request db) [] [] known

/-- What holds between two steps. -/
structure World.Holds (world : World Db Row Value) : Prop where
  inv : logic.inv world.db
  running : ∀ key running, world.running.lookup key = some running →
    ∃ known : Db → Prop, known world.db ∧ Stable service logic running.held known ∧
      Guarded service logic running.program running.held [] known

/-- What a step keeps: the invariant with every assertion, by a change that is allowed. -/
structure World.Keeps (world next : World Db Row Value) : Prop where
  holds : next.Holds service logic
  evolves : logic.evolves world.db next.db

variable {service logic} {known after : Db → Prop} {held : List (Lock Row)} {drawn : List Value}
  {program : Transaction Db Row Value} {world next : World Db Row Value}

omit [DecidableEq Row] in
theorem Quiet.allowed {db next : Db} (quiet : Quiet service logic db next)
    (held : List (Lock Row)) : Allowed service logic held db next :=
  ⟨quiet.inv, quiet.evolves, fun lock _ => quiet.same lock.row⟩

omit [DecidableEq Row] in
theorem stable_true : Stable service logic held fun _ => True := fun _ _ _ _ _ => trivial

omit [DecidableEq Row] in
theorem Stable.and {first second : Db → Prop} (left : Stable service logic held first)
    (right : Stable service logic held second) :
    Stable service logic held fun db => first db ∧ second db :=
  fun db next inv allowed known =>
    ⟨left db next inv allowed known.1, right db next inv allowed known.2⟩

omit [DecidableEq Row] in
/-- A program that is guarded from an assertion is so from a stronger one. -/
theorem Guarded.weaken (guarded : Guarded service logic program held drawn known)
    (stronger : ∀ db, after db → known db) : Guarded service logic program held drawn after := by
  induction program generalizing drawn with
  | finish effect => exact fun db inv holds => guarded db inv (stronger db holds)
  | select locks next => exact fun db inv holds => guarded db inv (stronger db holds)
  | draw next inductionHypothesis => exact fun value => inductionHypothesis value (guarded value)

/-- Every effect a program can end with meets a condition. -/
def Everywhere (Meets : (Db → Db) → Prop) : Transaction Db Row Value → Prop
  | .finish effect => Meets effect
  | .select _ next => ∀ db, Everywhere Meets (next db)
  | .draw next => ∀ value, Everywhere Meets (next value)

omit [DecidableEq Row] in
/-- A program whose effects keep the invariant whatever was read and drawn. -/
theorem guarded_everywhere {Meets : (Db → Db) → Prop} (everywhere : Everywhere Meets program)
    (kept : ∀ effect, Meets effect → ∀ db values, logic.inv db →
      service.fresh values db = true → logic.inv (effect (service.note values db)) ∧
        logic.evolves db (effect (service.note values db))) :
    Guarded service logic program held drawn fun _ => True := by
  induction program generalizing held drawn with
  | finish effect => exact fun db inv _ fresh => kept effect everywhere db drawn inv fresh
  | select locks next inductionHypothesis =>
      exact fun db _ _ => ⟨fun _ => True, trivial, stable_true,
        inductionHypothesis db (everywhere db)⟩
  | draw next inductionHypothesis =>
      exact fun value => inductionHypothesis value (everywhere value)

omit [DecidableEq Row] in
/-- What a guarded program ends with. -/
theorem Guarded.conclude {values : List Value} {effect : Db → Db} {db : Db}
    (guarded : Guarded service logic program held drawn known)
    (concluded : program.conclude values = some effect) (inv : logic.inv db) (holds : known db)
    (fresh : service.fresh (drawn ++ values) db = true) :
    logic.inv (effect (service.note (drawn ++ values) db)) ∧
      logic.evolves db (effect (service.note (drawn ++ values) db)) := by
  induction program generalizing drawn values with
  | finish other =>
      cases values with
      | nil =>
          obtain rfl := Option.some.inj concluded
          rw [List.append_nil] at fresh ⊢
          exact guarded db inv holds fresh
      | cons value rest => cases concluded
  | select locks next => cases values <;> cases concluded
  | draw next inductionHypothesis =>
      cases values with
      | nil => cases concluded
      | cons value rest =>
          have step := inductionHypothesis value (guarded value) concluded
          rw [List.append_assoc, List.singleton_append] at step
          exact step fresh

/-! ### The rule -/

omit [DecidableEq Row] in
/-- The other transactions keep their assertions over an allowed change. -/
theorem World.Holds.others {db : Db} {key : Nat} (holds : world.Holds service logic)
    (allowed : ∀ other running, other ≠ key → world.running.lookup other = some running →
      Allowed service logic running.held world.db db) {other : Nat} {running : Running Db Row Value}
    (different : other ≠ key) (found : world.running.lookup other = some running) :
    ∃ known : Db → Prop, known db ∧ Stable service logic running.held known ∧
      Guarded service logic running.program running.held [] known := by
  obtain ⟨known, holdsHere, stable, guarded⟩ := holds.running other running found
  exact ⟨known, stable _ _ holds.inv (allowed other running different found) holdsHere, stable,
    guarded⟩

omit [DecidableEq Row] in
/-- A change that leaves all rows as they are, with a new state of one transaction. -/
theorem World.Holds.continue {db : Db} {key : Nat} {running : Running Db Row Value}
    (holds : world.Holds service logic) (quiet : Quiet service logic world.db db)
    (continued : ∃ known : Db → Prop, known db ∧ Stable service logic running.held known ∧
      Guarded service logic running.program running.held [] known) :
    (⟨db, world.running.insert key running⟩ : World Db Row Value).Holds service logic := by
  refine ⟨quiet.inv, fun other found isFound => ?_⟩
  replace isFound : (world.running.insert key running).lookup other = some found := isFound
  rw [HashMaps.lookup_insert] at isFound
  split at isFound
  · obtain rfl := Option.some.inj isFound
    exact continued
  · rename_i different
    exact holds.others (fun _ running _ _ => quiet.allowed running.held) different isFound

omit [DecidableEq Row] in
theorem World.Holds.begin {key : Nat} {request : Request} (verified : Verified service logic)
    (holds : world.Holds service logic) (begun : world.begin service key request = some next) :
    world.Keeps service logic next := by
  unfold World.begin at begun
  split at begun
  · cases begun
  · obtain rfl := Option.some.inj begun
    have quiet := verified.receive request world.db holds.inv
    exact ⟨holds.continue quiet (verified.program request world.db holds.inv), quiet.evolves⟩

theorem World.Holds.select {key : Nat} (verified : Verified service logic)
    (holds : world.Holds service logic) (selected : world.select key = some next) :
    world.Keeps service logic next := by
  unfold World.select at selected
  split at selected
  · rename_i locks program held found
    split at selected
    · obtain rfl := Option.some.inj selected
      obtain ⟨known, holdsHere, -, guarded⟩ := holds.running _ _ found
      have continued := guarded world.db holds.inv holdsHere
      refine ⟨⟨holds.inv, fun other running isFound => ?_⟩, verified.refl _ holds.inv⟩
      replace isFound : (world.running.insert key
        ⟨program world.db, locks world.db ++ held⟩).lookup other = some running := isFound
      rw [HashMaps.lookup_insert] at isFound
      split at isFound
      · obtain rfl := Option.some.inj isFound
        exact continued
      · exact holds.running other running isFound
    · cases selected
  · cases selected

omit [DecidableEq Row] in
/-- The end of a transaction leaves the rows the others have locked. -/
theorem World.Holds.finish {key : Nat} {values : List Value} (holds : world.Holds service logic)
    (finished : world.finish service key values = some next) :
    world.Keeps service logic next := by
  obtain ⟨running, found, finished⟩ := Option.bind_eq_some_iff.mp finished
  obtain ⟨effect, concluded, finished⟩ := Option.bind_eq_some_iff.mp finished
  obtain ⟨⟨fresh, spares⟩, isNext⟩ := Option.ite_none_right_eq_some.mp finished
  obtain rfl := Option.some.inj isNext
  obtain ⟨known, holdsHere, -, guarded⟩ := holds.running _ _ found
  obtain ⟨inv, evolves⟩ := guarded.conclude concluded holds.inv holdsHere fresh
  refine ⟨⟨inv, fun other running isFound => ?_⟩, evolves⟩
  replace isFound : (world.running.erase key).lookup other = some running := isFound
  rw [HashMaps.lookup_erase] at isFound
  split at isFound
  · cases isFound
  · rename_i different
    refine holds.others (fun other running different found => ⟨inv, evolves, ?_⟩)
      different isFound
    exact spares ⟨other, running⟩ (AList.mem_lookup_iff.mp found) different

omit [DecidableEq Row] in
theorem World.Holds.abort (verified : Verified service logic) (holds : world.Holds service logic)
    (key : Nat) : world.Keeps service logic (world.abort key) := by
  refine ⟨⟨holds.inv, fun other running isFound => ?_⟩, verified.refl _ holds.inv⟩
  replace isFound : (world.running.erase key).lookup other = some running := isFound
  rw [HashMaps.lookup_erase] at isFound
  split at isFound
  · cases isFound
  · exact holds.running other running isFound

omit [DecidableEq Row] in
theorem World.Holds.tick (verified : Verified service logic) (holds : world.Holds service logic) :
    world.Keeps service logic { world with db := service.tick world.db } := by
  have quiet := verified.tick world.db holds.inv
  refine ⟨⟨quiet.inv, fun other running isFound => ?_⟩, quiet.evolves⟩
  obtain ⟨known, holdsHere, stable, guarded⟩ := holds.running other running isFound
  exact ⟨known, stable _ _ holds.inv (quiet.allowed running.held) holdsHere, stable, guarded⟩

/-- Every step keeps the invariant and every assertion, and is one that is allowed. -/
theorem step_holds {taken : Step Value Request} (verified : Verified service logic)
    (holds : world.Holds service logic) (stepped : world.step service taken = some next) :
    world.Keeps service logic next := by
  cases taken with
  | begin key request => exact holds.begin verified stepped
  | select key => exact holds.select verified stepped
  | finish key values => exact holds.finish stepped
  | abort key =>
      obtain rfl := Option.some.inj stepped
      exact holds.abort verified key
  | tick =>
      obtain rfl := Option.some.inj stepped
      exact holds.tick verified

/-- The invariant rule over runs of any interleaving. -/
theorem run_holds (verified : Verified service logic) {steps : List (Step Value Request)}
    (holds : world.Holds service logic)
    (executed : execute (World.step service) world steps = some next) :
    next.Holds service logic :=
  execute_invariant (fun _ _ _ holdsBefore stepped => (step_holds verified holdsBefore stepped).holds)
    holds executed

/-- A run does what a composition of allowed changes does. -/
theorem run_evolves (verified : Verified service logic)
    (trans : ∀ first second third, logic.evolves first second → logic.evolves second third →
      logic.evolves first third)
    {steps : List (Step Value Request)} (holds : world.Holds service logic)
    (executed : execute (World.step service) world steps = some next) :
    logic.evolves world.db next.db := by
  induction steps generalizing world with
  | nil =>
      obtain rfl := Option.some.inj executed
      exact verified.refl world.db holds.inv
  | cons head tail inductionHypothesis =>
      obtain ⟨middle, stepped, rest⟩ := execute_cons.mp executed
      have kept := step_holds verified holds stepped
      exact trans _ _ _ kept.evolves (inductionHypothesis kept.holds rest)

/-- The transaction that takes a step. -/
def Step.actor : Step Value Request → Option Nat
  | .begin key _ | .select key | .finish key _ | .abort key => some key
  | .tick => none

/-- A transaction waits while others take their steps. -/
theorem lookup_others {key : Nat} {steps : List (Step Value Request)}
    (others : ∀ taken ∈ steps, taken.actor ≠ some key)
    (executed : execute (World.step service) world steps = some next) :
    next.running.lookup key = world.running.lookup key := by
  have kept : ∀ (state : World Db Row Value) (taken : Step Value Request) (reached : World Db Row Value),
      state.running.lookup key = world.running.lookup key → taken.actor ≠ some key →
        state.step service taken = some reached →
          reached.running.lookup key = world.running.lookup key := by
    intro state taken reached same other stepped
    rw [← same]
    cases taken with
    | begin actor request =>
        have different : key ≠ actor := fun isActor => other (by rw [isActor]; rfl)
        simp only [World.step, World.begin] at stepped
        split at stepped
        · cases stepped
        · obtain rfl := Option.some.inj stepped
          exact (HashMaps.lookup_insert _ _ _ _).trans (if_neg different)
    | select actor =>
        have different : key ≠ actor := fun isActor => other (by rw [isActor]; rfl)
        simp only [World.step, World.select] at stepped
        split at stepped
        · split at stepped
          · obtain rfl := Option.some.inj stepped
            exact (HashMaps.lookup_insert _ _ _ _).trans (if_neg different)
          · cases stepped
        · cases stepped
    | finish actor values =>
        have different : key ≠ actor := fun isActor => other (by rw [isActor]; rfl)
        obtain ⟨running, found, finished⟩ := Option.bind_eq_some_iff.mp stepped
        obtain ⟨effect, concluded, finished⟩ := Option.bind_eq_some_iff.mp finished
        obtain ⟨-, isReached⟩ := Option.ite_none_right_eq_some.mp finished
        obtain rfl := Option.some.inj isReached
        exact (HashMaps.lookup_erase _ _ _).trans (if_neg different)
    | abort actor =>
        have different : key ≠ actor := fun isActor => other (by rw [isActor]; rfl)
        obtain rfl := Option.some.inj stepped
        exact (HashMaps.lookup_erase _ _ _).trans (if_neg different)
    | tick =>
        obtain rfl := Option.some.inj stepped
        rfl
  exact execute_invariant_where kept rfl
    (throughout_of_forall fun taken member _ => others taken member) executed

omit [DecidableEq Row] in
/-- A database with nothing under way. -/
theorem holds_idle {db : Db} (inv : logic.inv db) :
    (⟨db, ∅⟩ : World Db Row Value).Holds service logic :=
  ⟨inv, fun _ _ found => by cases found⟩

end Running

end Cairn.Library.RowLocks

import Cairn.Library.Steps
import Mathlib.Data.List.Induction

/-!
Owns append-only histories in which every event is justified by those before it: what one more
event needs, what holds of a part of a history, and how a condition between an event and the
earlier ones becomes one between any two. `Since` is the past of something that begins and ends,
and `execute_history` relates the steps of a run to its state.

Does not own what justifies an event.
-/

set_option autoImplicit false

namespace Cairn.Library.Histories

open Steps

universe u v

variable {Event : Type u}

/-- Every event was justified when it happened. -/
def Legal (Justified : List Event → Event → Prop) (log : List Event) : Prop :=
  ∀ before event after, log = before ++ event :: after → Justified before event

variable {Justified Weaker : List Event → Event → Prop} {log part extra : List Event}
  {event : Event}

theorem legal_nil : Legal Justified [] := fun before _ _ split => by
  cases before <;> cases split

theorem Legal.of_start (legal : Legal Justified log) (start : part <+: log) :
    Legal Justified part := by
  obtain ⟨rest, rfl⟩ := start
  intro before event after split
  exact legal before event (after ++ rest) (by rw [split, List.append_assoc, List.cons_append])

theorem Legal.justified (legal : Legal Justified log) (member : event ∈ log) :
    ∃ before after, log = before ++ event :: after ∧ Justified before event := by
  obtain ⟨before, after, split⟩ := List.append_of_mem member
  exact ⟨before, after, split, legal before event after split⟩

theorem legal_concat :
    Legal Justified (log ++ [event]) ↔ Legal Justified log ∧ Justified log event := by
  constructor
  · intro legal
    exact ⟨legal.of_start (List.prefix_append log [event]), legal log event [] rfl⟩
  · rintro ⟨legal, justified⟩ before other after split
    rcases List.eq_nil_or_concat after with rfl | ⟨rest, last, rfl⟩
    · obtain ⟨rfl, same⟩ := List.append_inj' split rfl
      obtain rfl := (List.cons.inj same).1
      exact justified
    · have shorter : log ++ [event] = (before ++ other :: rest) ++ [last] := by
        rw [split, List.concat_eq_append, List.append_assoc, List.cons_append]
      exact legal before other rest (List.append_inj' shorter rfl).1

/-- Events that need no justification may follow any history. -/
theorem Legal.append (legal : Legal Justified log)
    (free : ∀ event ∈ extra, ∀ before, Justified before event) : Legal Justified (log ++ extra) := by
  induction extra using List.reverseRecOn with
  | nil => rwa [List.append_nil]
  | append_singleton extra event inductionHypothesis =>
      rw [← List.append_assoc]
      refine legal_concat.mpr ⟨inductionHypothesis fun other member =>
        free other (List.mem_append_left _ member), ?_⟩
      exact free event (List.mem_append_right _ (List.mem_singleton_self event)) _

/-- An event of a history that goes on is an old one, with its old past, or a new one. -/
theorem mem_of_append_eq {before after : List Event} (split : log ++ extra = before ++ event :: after) :
    (∃ rest, log = before ++ event :: rest) ∨ event ∈ extra := by
  rcases List.append_eq_append_iff.mp split with ⟨middle, isBefore, isExtra⟩ | ⟨middle, isLog, isRest⟩
  · right
    rw [isExtra]
    simp
  · cases middle with
    | nil =>
        right
        rw [List.nil_append] at isRest
        rw [← isRest]
        exact List.mem_cons_self
    | cons head rest =>
        left
        obtain ⟨rfl, -⟩ := List.cons.inj isRest
        exact ⟨rest, isLog⟩

/-- What each event is to the earlier ones, it is to every one before it. -/
theorem Legal.pairwise (legal : Legal Justified log) {Related : Event → Event → Prop}
    (related : ∀ before event, Justified before event → ∀ earlier ∈ before, Related earlier event) :
    log.Pairwise Related := by
  induction log using List.reverseRecOn with
  | nil => exact List.Pairwise.nil
  | append_singleton log event inductionHypothesis =>
      obtain ⟨before, justified⟩ := legal_concat.mp legal
      refine List.pairwise_append.mpr ⟨inductionHypothesis before, List.pairwise_singleton _ _, ?_⟩
      intro earlier member last isLast
      rw [List.mem_singleton.mp isLast]
      exact related log event justified earlier member

/-- What holds of each event after a legal past. -/
theorem Legal.past (legal : Legal Justified log) :
    Legal (fun before event => Legal Justified before ∧ Justified before event) log := by
  intro before event after split
  exact ⟨legal.of_start ⟨event :: after, split.symm⟩, legal before event after split⟩

/-! ### What has begun and not ended -/

/-- Something has begun by an event, and no event has ended it since. -/
def Since (Begins : List Event → Event → Prop) (Ends : Event → Prop) (log : List Event) : Prop :=
  ∃ before event after, log = before ++ event :: after ∧ Begins before event ∧
    ∀ other ∈ after, ¬ Ends other

variable {Begins : List Event → Event → Prop} {Ends : Event → Prop}

theorem not_since_nil : ¬ Since Begins Ends [] := by
  rintro ⟨before, event, after, split, -⟩
  cases before <;> cases split

theorem since_concat :
    Since Begins Ends (log ++ [event]) ↔ Begins log event ∨ Since Begins Ends log ∧ ¬ Ends event := by
  constructor
  · rintro ⟨before, other, after, split, begins, goesOn⟩
    rcases List.eq_nil_or_concat after with rfl | ⟨rest, last, rfl⟩
    · obtain ⟨rfl, same⟩ := List.append_inj' split rfl
      obtain rfl := (List.cons.inj same).1
      exact .inl begins
    · have shorter : log ++ [event] = (before ++ other :: rest) ++ [last] := by
        rw [split, List.concat_eq_append, List.append_assoc, List.cons_append]
      obtain ⟨isLog, same⟩ := List.append_inj' shorter rfl
      obtain rfl := (List.cons.inj same).1
      rw [List.concat_eq_append] at goesOn
      exact .inr ⟨⟨before, other, rest, isLog, begins, fun later member =>
        goesOn later (List.mem_append_left _ member)⟩,
        goesOn event (List.mem_append_right _ (List.mem_singleton_self event))⟩
  · rintro (begins | ⟨⟨before, other, after, split, begins, goesOn⟩, stays⟩)
    · exact ⟨log, event, [], rfl, begins, fun _ member => absurd member List.not_mem_nil⟩
    · refine ⟨before, other, after ++ [event], by rw [split, List.append_assoc, List.cons_append],
        begins, fun later member => ?_⟩
      rcases List.mem_append.mp member with old | new
      · exact goesOn later old
      · rw [List.mem_singleton.mp new]
        exact stays

/-- What does not go on does not, until it begins again. -/
theorem not_since_append (ended : ¬ Since Begins Ends log)
    (never : ∀ event ∈ extra, ∀ past, ¬ Begins past event) : ¬ Since Begins Ends (log ++ extra) := by
  induction extra using List.reverseRecOn with
  | nil => rwa [List.append_nil]
  | append_singleton extra event inductionHypothesis =>
      rw [← List.append_assoc, since_concat]
      rintro (begins | ⟨goesOn, -⟩)
      · exact never event (List.mem_append_right _ (List.mem_singleton_self event)) _ begins
      · exact inductionHypothesis (fun other member => never other (List.mem_append_left _ member))
          goesOn

/-! ### Runs -/

section Runs

variable {State : Type v} {Step : Type u} {step : State → Step → Option State}

theorem execute_concat {state final : State} {past : List Step} {last : Step} :
    execute step state (past ++ [last]) = some final ↔
      ∃ middle, execute step state past = some middle ∧ step middle last = some final := by
  rw [execute_append]
  refine exists_congr fun middle => and_congr_right fun _ => ?_
  rw [execute_cons]
  constructor
  · rintro ⟨next, stepped, rest⟩
    obtain rfl := Option.some.inj rest
    exact stepped
  · exact fun stepped => ⟨final, stepped, rfl⟩

/-- The rule for what the steps of a run say about its state. -/
theorem execute_history {Holds : List Step → State → Prop} {initial final : State}
    (start : Holds [] initial)
    (extend : ∀ past state last next, Holds past state → step state last = some next →
      Holds (past ++ [last]) next)
    {steps : List Step} (executed : execute step initial steps = some final) : Holds steps final := by
  induction steps using List.reverseRecOn generalizing final with
  | nil =>
      obtain rfl := Option.some.inj executed
      exact start
  | append_singleton past last inductionHypothesis =>
      obtain ⟨middle, reached, stepped⟩ := execute_concat.mp executed
      exact extend past middle last final (inductionHypothesis reached) stepped

end Runs

end Cairn.Library.Histories

import Cairn.Library.HashMaps
import Cairn.Library.Lists
import Cairn.Library.Steps
import Mathlib.Data.List.Induction

/-!
Owns when a volume pauses its VM (`control_reason` of `storage/runtime.rs`) over any
sequence of observations, and the admission of writes against the node's free space
(`admit_write`, `PendingWrites` of `storage/cache.rs`). Times are milliseconds.

Does not own the pause itself, or how free space and the dirty backlog come about.
-/

set_option autoImplicit false

namespace Cairn.Storage.Pauses

open Cairn.Library Cairn.Library.HashMaps Cairn.Library.Lists

/-! ### Reasons to pause -/

/-- `BACKUP_LAG_PAUSE_MS`. -/
def backupLagPauseMs : Int := 10 * 60 * 1000

/-- `i64::saturating_sub`. -/
def saturatingSub (first second : Int) : Int :=
  max (-(2 ^ 63)) (min (first - second) (2 ^ 63 - 1))

/-- What `control_reason` reads; a reading of the clock is after its epoch. -/
structure Observation where
  now : Int
  fault : Bool
  pressure : Bool
  spacePressure : Bool
  waiting : Bool
  dirtySince : Option Int
  activeSince : Int
  maxDirtySeconds : Nat
  afterEpoch : 0 < now

/-- `backup_lag_since` and `backup_degraded`. -/
structure History where
  backupLagSince : Int
  backupDegraded : Bool
deriving DecidableEq

namespace Observation

/-- The hazards that are tested before the backlog. -/
def hazard (observation : Observation) : Option String :=
  if observation.fault then some "integrity"
  else if observation.pressure || observation.spacePressure then some "disk-space"
  else if observation.waiting then some "storage-unavailable"
  else none

/-- `late`. -/
def late (observation : Observation) : Bool :=
  observation.dirtySince.any fun at' =>
    saturatingSub observation.now (max at' observation.activeSince) ≥
      observation.maxDirtySeconds * 1000

/-- `control_reason`: the history it leaves and its answer. -/
def controlReason (observation : Observation) (history : History) : History × Option String :=
  match observation.hazard with
  | some hazard => (history, some hazard)
  | none =>
      if observation.late then
        let since :=
          if history.backupLagSince = 0 then observation.now else history.backupLagSince
        let expired := decide (saturatingSub observation.now since ≥ backupLagPauseMs)
        (⟨since, expired⟩, if expired then none else some "backup-lag")
      else (⟨0, false⟩, none)

end Observation

/-- The history of a volume that has just been opened. -/
def History.initial : History := ⟨0, false⟩

/-- The backlog was late at an observation and at those since then that count. -/
def Running (counts : Observation → Bool) (before : List Observation) (first : Observation) :
    Prop :=
  ∃ earlier during, before = earlier ++ first :: during ∧ counts first = true ∧
    first.late = true ∧ ∀ observation ∈ during, counts observation = true →
      observation.late = true

/-- An observation at which no other hazard is reported. -/
def Observation.unobstructed (observation : Observation) : Bool := observation.hazard.isNone

theorem running_concat {counts : Observation → Bool} {before : List Observation}
    {observation first : Observation} :
    Running counts (before ++ [observation]) first ↔
      (first = observation ∧ counts observation = true ∧ observation.late = true) ∨
        (Running counts before first ∧ (counts observation = true → observation.late = true)) := by
  constructor
  · rintro ⟨earlier, during, split, counted, late, stays⟩
    rcases append_singleton_split.mp split with ⟨rfl, rfl, rfl⟩ | ⟨rest, rfl, rfl⟩
    · exact .inl ⟨rfl, counted, late⟩
    · refine .inr ⟨⟨earlier, rest, rfl, counted, late, fun other member =>
        stays other (List.mem_append_left _ member)⟩, ?_⟩
      exact stays observation (List.mem_append_right _ (List.mem_singleton_self _))
  · rintro (⟨rfl, counted, late⟩ | ⟨⟨earlier, during, rfl, counted, late, stays⟩, last⟩)
    · exact ⟨before, [], rfl, counted, late, fun _ member => by cases member⟩
    · refine ⟨earlier, during ++ [observation], by simp, counted, late, fun other member => ?_⟩
      rcases List.mem_append.mp member with old | new
      · exact stays other old
      · obtain rfl := List.mem_singleton.mp new
        exact last

/-- The history holds when the backlog was first late at an unobstructed observation. -/
def Remembers (before : List Observation) (history : History) : Prop :=
  (history.backupLagSince = 0 ∧ ∀ first, ¬ Running Observation.unobstructed before first) ∨
    ∃ first, Running Observation.unobstructed before first ∧
      history.backupLagSince = first.now ∧
        ∀ other, Running Observation.unobstructed before other → first.now ≤ other.now

/-- One observation keeps what the history remembers. -/
theorem Remembers.observe {before : List Observation} {history : History}
    {observation : Observation} (remembers : Remembers before history)
    (ordered : ∀ earlier ∈ before, earlier.now ≤ observation.now) :
    Remembers (before ++ [observation]) (observation.controlReason history).1 := by
  unfold Observation.controlReason
  split
  · rename_i hazard reported
    have obstructed : observation.unobstructed = false := by
      simp [Observation.unobstructed, reported]
    have same : ∀ first, Running Observation.unobstructed (before ++ [observation]) first ↔
        Running Observation.unobstructed before first := fun first => by
      simp [running_concat, obstructed]
    simpa only [Remembers, same] using remembers
  · rename_i clear
    have counts : observation.unobstructed = true := by simp [Observation.unobstructed, clear]
    split
    · rename_i late
      have grown : ∀ first, Running Observation.unobstructed (before ++ [observation]) first ↔
          first = observation ∨ Running Observation.unobstructed before first := fun first => by
        simp [running_concat, counts, late]
      rcases remembers with ⟨zero, never⟩ | ⟨first, running, since, least⟩
      · refine .inr ⟨observation, (grown observation).mpr (.inl rfl), if_pos zero, ?_⟩
        intro other isRunning
        rcases (grown other).mp isRunning with rfl | earlier
        · exact le_refl _
        · exact absurd earlier (never other)
      · have nonzero : history.backupLagSince ≠ 0 := by
          rw [since]
          exact ne_of_gt first.afterEpoch
        refine .inr ⟨first, (grown first).mpr (.inr running), ?_, fun other isRunning => ?_⟩
        · show (if history.backupLagSince = 0 then _ else _) = _
          rw [if_neg nonzero, since]
        · rcases (grown other).mp isRunning with rfl | earlier
          · obtain ⟨_, _, rfl, -⟩ := running
            exact ordered first (by simp)
          · exact least other earlier
    · rename_i early
      refine .inl ⟨rfl, fun first isRunning => ?_⟩
      rcases running_concat.mp isRunning with ⟨-, -, late⟩ | ⟨-, late⟩
      · exact early late
      · exact early (late counts)

/-- Where an admission stands, under the lock: entered, with `PENDING_WRITES` sampled, or
with the free space measured. `unfinished` is what the admitted writes needed then. -/
inductive Stage where
  | entered
  | sampled (pending : Nat)
  | measured (pending reserve : Nat) (free : UInt64) (unfinished : Nat)
deriving DecidableEq

/-- `PENDING_WRITES`, the admitted writes that are unfinished with what was reserved for
each, and the admission under way. -/
structure Admissions where
  pending : Nat
  writes : HashMap Nat Nat
  admitting : Option (Nat × Nat × Stage)

/-- What happens to the admissions. -/
inductive Admission where
  | enter (write bytes : Nat)
  | sample
  | measure (reserve : Nat) (free : UInt64)
  | decide
  | finish (write : Nat)

/-- What a write of so many bytes reserves. -/
def need (bytes : Nat) : Nat := bytes * 4 + 1024 * 1024

/-- The test of `admit_write`, with `u64` arithmetic that saturates. -/
def admits (need pending reserve : Nat) (free : UInt64) : Bool :=
  free.toNat - pending > min (reserve + need) (2 ^ 64 - 1)

namespace Admissions

/-- Nothing is admitted yet. -/
def initial : Admissions := ⟨0, ∅, none⟩

/-- What the unfinished writes need. -/
def unfinished (admissions : Admissions) : Nat := sum id admissions.writes

/-- One block of `admit_write`. -/
def step (admissions : Admissions) : Admission → Option Admissions
  | .enter write bytes =>
      if admissions.admitting = none ∧ write ∉ admissions.writes then
        some { admissions with admitting := some (write, need bytes, .entered) }
      else none
  | .sample =>
      match admissions.admitting with
      | some (write, need, .entered) =>
          some { admissions with admitting := some (write, need, .sampled admissions.pending) }
      | _ => none
  | .measure reserve free =>
      match admissions.admitting with
      | some (write, need, .sampled pending) =>
          some { admissions with
            admitting := some (write, need, .measured pending reserve free admissions.unfinished) }
      | _ => none
  | .decide =>
      match admissions.admitting with
      | some (write, need, .measured pending reserve free _) =>
          if admits need pending reserve free ∧ admissions.pending + need < 2 ^ 64 then
            some ⟨admissions.pending + need, admissions.writes.insert write need, none⟩
          else some { admissions with admitting := none }
      | _ => none
  | .finish write =>
      match admissions.writes.lookup write with
      | some need => some { admissions with
          pending := admissions.pending - need
          writes := admissions.writes.erase write }
      | none => none

/-- What holds of the admissions: each unfinished write is counted once, and what an
admission has sampled still covers them. -/
structure Counted (admissions : Admissions) : Prop where
  pending : admissions.pending = admissions.unfinished
  absent : ∀ write need stage, admissions.admitting = some (write, need, stage) →
    write ∉ admissions.writes
  sampled : ∀ write need pending, admissions.admitting = some (write, need, .sampled pending) →
    admissions.unfinished ≤ pending
  measured : ∀ write need pending reserve free unfinished,
    admissions.admitting = some (write, need, .measured pending reserve free unfinished) →
      unfinished ≤ pending

variable {admissions next : Admissions}

theorem Counted.finish {write need : Nat} (counted : admissions.Counted)
    (found : admissions.writes.lookup write = some need) :
    Counted { admissions with
      pending := admissions.pending - need
      writes := admissions.writes.erase write } := by
  have split : admissions.unfinished = need + sum id (admissions.writes.erase write) :=
    sum_eq_add_erase id found
  refine ⟨?_, fun other need stage entered member => ?_, fun other needed pending entered => ?_,
    counted.measured⟩
  · show admissions.pending - need = sum id (admissions.writes.erase write)
    rw [counted.pending, split, Nat.add_sub_cancel_left]
  · exact counted.absent other need stage entered (AList.mem_erase.mp member).2
  · have covers := counted.sampled other needed pending entered
    show sum id (admissions.writes.erase write) ≤ pending
    omega

theorem Counted.step {action : Admission} (counted : admissions.Counted)
    (stepped : admissions.step action = some next) : next.Counted := by
  cases action with
  | enter write bytes =>
      obtain ⟨⟨-, absent⟩, isNext⟩ := Option.ite_none_right_eq_some.mp stepped
      obtain rfl := Option.some.inj isNext
      refine ⟨counted.pending, ?_, nofun, nofun⟩
      intro other needed stage entered
      obtain ⟨rfl, -⟩ := Prod.mk.inj (Option.some.inj entered)
      exact absent
  | sample =>
      simp only [Admissions.step] at stepped
      split at stepped
      · rename_i write needed entered
        obtain rfl := Option.some.inj stepped
        refine ⟨counted.pending, ?_, ?_, nofun⟩
        · intro other need stage isEntered
          obtain ⟨rfl, -⟩ := Prod.mk.inj (Option.some.inj isEntered)
          exact counted.absent _ _ _ entered
        · intro other need pending isEntered
          obtain ⟨-, rest⟩ := Prod.mk.inj (Option.some.inj isEntered)
          obtain ⟨-, isSampled⟩ := Prod.mk.inj rest
          obtain rfl := Stage.sampled.inj isSampled
          exact le_of_eq counted.pending.symm
      · cases stepped
  | measure reserve free =>
      simp only [Admissions.step] at stepped
      split at stepped
      · rename_i write needed pending entered
        obtain rfl := Option.some.inj stepped
        refine ⟨counted.pending, ?_, nofun, ?_⟩
        · intro other need stage isEntered
          obtain ⟨rfl, -⟩ := Prod.mk.inj (Option.some.inj isEntered)
          exact counted.absent _ _ _ entered
        · intro other need sampled reserved measured unfinished isEntered
          obtain ⟨-, rest⟩ := Prod.mk.inj (Option.some.inj isEntered)
          obtain ⟨-, isMeasured⟩ := Prod.mk.inj rest
          obtain ⟨rfl, -, -, rfl⟩ := Stage.measured.inj isMeasured
          exact counted.sampled _ _ _ entered
      · cases stepped
  | decide =>
      simp only [Admissions.step] at stepped
      split at stepped
      · rename_i write needed pending reserve free unfinished entered
        split at stepped
        · obtain rfl := Option.some.inj stepped
          refine ⟨?_, nofun, nofun, nofun⟩
          show admissions.pending + needed = sum id (admissions.writes.insert write needed)
          rw [sum_insert_of_notMem id needed (counted.absent _ _ _ entered), counted.pending]
          exact Nat.add_comm _ _
        · obtain rfl := Option.some.inj stepped
          exact ⟨counted.pending, nofun, nofun, nofun⟩
      · cases stepped
  | finish write =>
      simp only [Admissions.step] at stepped
      split at stepped
      · rename_i needed found
        obtain rfl := Option.some.inj stepped
        exact counted.finish found
      · cases stepped

/-- The admissions after a run. -/
def run (actions : List Admission) : Option Admissions :=
  Steps.execute Admissions.step initial actions

end Admissions

/-! ### Pauses and admissions -/

/-- An observation of a backlog since an instant, with or without pressure. -/
def observed (now dirtySince : Int) (pressure : Bool) (afterEpoch : 0 < now) : Observation where
  now := now
  fault := false
  pressure := pressure
  spacePressure := false
  waiting := false
  dirtySince := some dirtySince
  activeSince := 0
  maxDirtySeconds := 300
  afterEpoch := afterEpoch

/-- A first backlog is late, a second one is not while the disk has no space. -/
def obstructed : List Observation :=
  [observed 300001 1 false (by decide), observed 900000 800000 true (by decide)]

end Cairn.Storage.Pauses

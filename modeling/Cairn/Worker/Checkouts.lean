import Cairn.Worker.Schedule
import Cairn.Chats.Lifecycle

/-!
Owns the exclusivity of checkouts: what the pass of a tick has reserved is not launched
over, so a launch shares a project only with a run that waits for its recovery and that
the pass has not reserved.

Does not own when the pass reserves a run.
-/

set_option autoImplicit false

namespace Cairn.Worker

open Cairn.Chats (Db addRun putRun_of_ok restoreAfterRestart)
open Cairn.Library.Records
open Cairn.Library.Results
open Cairn.Library.Steps

/-! ### Launches -/

/-- Two runs use a project. -/
def Shares (run other : Run) : Prop := ∃ project ∈ run.projects, project ∈ other.projects

namespace State

/-- A run that was launched and is not fenced yet. -/
def Unfenced (state : State) (run : Run) : Prop :=
  run.recoveryPending = true ∧ run.id ∈ state.alive

/-- Another run that a launch would share a project with. -/
def Beside (state : State) (run other : Run) : Prop :=
  state.db.run? other.id = some other ∧ other.id ≠ run.id ∧ Shares run other

/-- What a step launches shares no project with a run that executes or is not fenced. -/
def Exclusive (state : State) (step : Step) : Prop :=
  ∀ ready run, step = .launch ready → state.launching ready = some run →
    ∀ other, state.Beside run other → other.id ∉ state.active ∧ ¬ state.Unfenced other

/-- A launch beside an unfenced run whose projects the pass did not reserve: the pass has
not reached it or did not read it, passed it over for the limit of executions, or found it
in conflict with a run before it. -/
def Overtakes (state : State) (step : Step) : Prop :=
  ∃ ready run pass other, step = .launch ready ∧ state.launching ready = some run ∧
    state.pass = some pass ∧ state.Beside run other ∧ state.Unfenced other ∧
    other.id ∉ pass.reserved

end State

/-! ### What a pass reserves -/

variable {db next : Db} {active : List String} {pass : Pass} {state after : State}

/-- The stored runs keep their projects. -/
def KeepsProjects (db next : Db) : Prop :=
  ∀ id stored, db.run? id = some stored →
    ∃ later, next.run? id = some later ∧ later.projects = stored.projects

theorem KeepsProjects.refl (db : Db) : KeepsProjects db db :=
  fun _ stored found => ⟨stored, found, rfl⟩

theorem KeepsProjects.trans {last : Db} (first : KeepsProjects db next)
    (second : KeepsProjects next last) : KeepsProjects db last := by
  intro id stored found
  obtain ⟨middle, isMiddle, sameMiddle⟩ := first id stored found
  obtain ⟨later, isLater, sameLater⟩ := second id middle isMiddle
  exact ⟨later, isLater, sameLater.trans sameMiddle⟩

/-- The snapshots of a pass are those of stored runs, and what it reserved is locked. -/
structure Pass.Sound (pass : Pass) (db : Db) (active : List String) : Prop where
  snapshots : ∀ run, run ∈ pass.remaining ∨ pass.candidate = some run →
    ∃ stored, db.run? run.id = some stored ∧ stored.projects = run.projects
  executing : ∀ id ∈ active, id ∈ pass.reserved
  reserved : ∀ id ∈ pass.reserved, ∃ stored, db.run? id = some stored ∧
    ∀ project ∈ stored.projects, project ∈ pass.projects
  apart : ∀ run, pass.candidate = some run → ∀ id ∈ pass.reserved, id ≠ run.id →
    ∀ stored, db.run? id = some stored → ∀ project ∈ run.projects, project ∉ stored.projects

namespace Pass.Sound

theorem frame (sound : pass.Sound db active) (keeps : KeepsProjects db next)
    {fewer : List String} (subset : ∀ id ∈ fewer, id ∈ active) : pass.Sound next fewer := by
  refine ⟨fun run known => ?_, fun id member => sound.executing id (subset id member),
    fun id member => ?_, fun run chosen id member other stored found => ?_⟩
  · obtain ⟨stored, found, same⟩ := sound.snapshots run known
    obtain ⟨later, isLater, sameLater⟩ := keeps run.id stored found
    exact ⟨later, isLater, sameLater.trans same⟩
  · obtain ⟨stored, found, within⟩ := sound.reserved id member
    obtain ⟨later, isLater, sameLater⟩ := keeps id stored found
    exact ⟨later, isLater, sameLater ▸ within⟩
  · obtain ⟨before, isBefore, _⟩ := sound.reserved id member
    obtain ⟨later, isLater, sameLater⟩ := keeps id before isBefore
    obtain rfl := Option.some.inj (found.symm.trans isLater)
    rw [sameLater]
    exact sound.apart run chosen id member other before isBefore

/-- The pass goes on without a candidate. -/
theorem dropped (sound : pass.Sound db active) {remaining : List Run}
    (tail : ∀ run ∈ remaining, run ∈ pass.remaining) :
    Pass.Sound ⟨pass.projects, remaining, none, pass.reserved⟩ db active :=
  ⟨fun run known => sound.snapshots run (known.imp_left (tail run) |>.resolve_right (by simp) |> .inl),
    sound.executing, sound.reserved, fun _ chosen => by simp at chosen⟩

/-- The projects of a run are reserved. -/
theorem reserve {run stored : Run} (sound : pass.Sound db active) (idle : pass.candidate = none)
    (found : db.run? run.id = some stored) (same : stored.projects = run.projects) :
    (pass.reserve run).Sound db active := by
  refine ⟨sound.snapshots, fun id member => List.mem_cons_of_mem _ (sound.executing id member),
    fun id member => ?_, fun other chosen => ?_⟩
  · rcases List.mem_cons.mp member with rfl | member
    · exact ⟨stored, found, fun project inside => List.mem_append_right _ (same ▸ inside)⟩
    · obtain ⟨before, isBefore, within⟩ := sound.reserved id member
      exact ⟨before, isBefore, fun project inside => List.mem_append_left _ (within project inside)⟩
  · exact absurd (idle.symm.trans chosen) (by simp)

/-- A run that meets no conflict becomes the candidate. -/
theorem chosen {run stored : Run} (sound : pass.Sound db active)
    (found : db.run? run.id = some stored) (same : stored.projects = run.projects)
    (apart : ∀ id ∈ pass.reserved, id ≠ run.id → ∀ other, db.run? id = some other →
      ∀ project ∈ run.projects, project ∉ other.projects) :
    Pass.Sound { pass with candidate := some run } db active := by
  refine ⟨fun other known => ?_, sound.executing, sound.reserved, fun other chosen => ?_⟩
  · rcases known with member | chosen
    · exact sound.snapshots other (.inl member)
    · obtain rfl := Option.some.inj chosen
      exact ⟨stored, found, same⟩
  · obtain rfl := Option.some.inj chosen
    exact apart

end Pass.Sound

/-- The runs have their own ids, and a pass is sound. -/
structure State.Sound (state : State) : Prop where
  keyed : Keyed Run.id state.db.runs
  pass : ∀ pass, state.pass = some pass → pass.Sound state.db state.active

/-! ### The transactions -/

/-- A transaction that keeps the ids and the projects of the runs. -/
structure KeepsRuns (db next : Db) : Prop where
  keyed : Keyed Run.id db.runs → Keyed Run.id next.runs
  projects : KeepsProjects db next

namespace KeepsRuns

theorem of_runs (same : next.runs = db.runs) : KeepsRuns db next :=
  ⟨fun keyed => same ▸ keyed, fun _ stored found => ⟨stored, by rw [Db.run?, same]; exact found, rfl⟩⟩

theorem setCheckpoint (id : String) (checkpoint : RunCheckpoint) :
    KeepsRuns db (db.setCheckpoint id checkpoint) := of_runs rfl

theorem trans {last : Db} (first : KeepsRuns db next) (second : KeepsRuns next last) :
    KeepsRuns db last :=
  ⟨fun keyed => second.keyed (first.keyed keyed), first.projects.trans second.projects⟩

theorem putRun {run : Run} (stored : db.putRun run = .ok next)
    (same : ∀ before, db.run? run.id = some before → run.projects = before.projects) :
    KeepsRuns db next := by
  rw [putRun_of_ok stored]
  refine ⟨keyed_put, fun id before found => ?_⟩
  by_cases isRun : id = run.id
  · exact ⟨run, find_put.trans (if_pos isRun), same before (isRun ▸ found)⟩
  · exact ⟨before, (find_put.trans (if_neg isRun)).trans found, rfl⟩

/-- A run that is stored again with its own projects. -/
theorem put_update {id : String} {run later : Run} (stored : db.putRun later = .ok next)
    (found : db.run? id = some run) (named : later.id = run.id)
    (projects : later.projects = run.projects) : KeepsRuns db next :=
  putRun stored fun before isBefore => by
    rw [named, (mem_of_find found).2] at isBefore
    rw [projects, Option.some.inj (found.symm.trans isBefore)]

theorem patchRun {id : String} {patch : Run → Run} (stored : patchRun db id patch = some next)
    (named : ∀ run, (patch run).id = run.id) (projects : ∀ run, (patch run).projects = run.projects) :
    KeepsRuns db next := by
  obtain ⟨run, found, put⟩ := Option.bind_eq_some_iff.mp stored
  exact put_update (toOption_eq_some.mp put) found (named run) (projects run)

theorem addRun {run : Run} (ok : addRun db run = .ok next) : KeepsRuns db next := by
  unfold Chats.addRun at ok
  split at ok
  · simp at ok
  · rename_i absent
    refine putRun ok fun before found => absurd ?_ absent
    rw [found]
    rfl

theorem cancel {id : String} {isActive : Bool} {now : Int}
    (ok : cancel db id isActive now = .ok next) : KeepsRuns db next := by
  unfold Worker.cancel at ok
  split at ok
  · simp at ok
  · rename_i run found
    obtain ⟨later, cancelled, stored⟩ := bind_eq_ok.mp ok
    unfold requestCancel at cancelled
    split at cancelled
    · simp at cancelled
    · dsimp only at cancelled
      split at cancelled
      · obtain rfl := Except.ok.inj cancelled
        exact put_update stored found rfl rfl
      · obtain rfl := Except.ok.inj cancelled
        exact put_update stored found rfl rfl

theorem resume {id : String} {isActive : Bool} (ok : resume db id isActive = .ok next) :
    KeepsRuns db next := by
  unfold Worker.resume at ok
  split at ok
  · simp at ok
  · unfold requeue at ok
    split at ok
    · simp at ok
    · rename_i run found
      dsimp only at ok
      split at ok
      · simp at ok
      · split at ok
        · simp at ok
        · split at ok
          · simp at ok
          · split at ok
            · simp at ok
            · split at ok
              · exact (setCheckpoint id _).trans (put_update ok found rfl rfl)
              · exact put_update ok found rfl rfl

theorem requeueAfterError {id : String} (ok : requeueAfterError db id = some next) :
    KeepsRuns db next := by
  obtain ⟨run, _, stored⟩ := Option.bind_eq_some_iff.mp ok
  dsimp only at stored
  exact (setCheckpoint id _).trans (patchRun stored (fun _ => rfl) fun _ => rfl)

end KeepsRuns

/-- What the executing runs lock. -/
theorem lockedByActive_of_some {ids projects : List String}
    (locked : lockedByActive db ids = some projects) : ∀ id ∈ ids, ∃ stored,
      db.run? id = some stored ∧ ∀ project ∈ stored.projects, project ∈ projects := by
  induction ids generalizing projects with
  | nil => simp
  | cons head rest inductionHypothesis =>
      obtain ⟨run, found, entered⟩ := Option.bind_eq_some_iff.mp locked
      obtain ⟨others, isOthers, joined⟩ := Option.bind_eq_some_iff.mp entered
      obtain rfl := Option.some.inj joined
      intro id member
      rcases List.mem_cons.mp member with rfl | member
      · exact ⟨run, found, fun project inside => List.mem_append_left _ inside⟩
      · obtain ⟨stored, isStored, within⟩ := inductionHypothesis isOthers id member
        exact ⟨stored, isStored, fun project inside => List.mem_append_right _ (within project inside)⟩

/-! ### Every step -/

namespace State.Sound

/-- A step that leaves the pass alone and launches nothing. -/
theorem frame (sound : state.Sound) (keeps : KeepsRuns state.db after.db)
    (pass : after.pass = none ∨ after.pass = state.pass)
    (subset : ∀ id ∈ after.active, id ∈ state.active) : after.Sound := by
  refine ⟨keeps.keyed sound.keyed, fun current isCurrent => ?_⟩
  rcases pass with gone | same
  · simp [gone] at isCurrent
  · exact (sound.pass current (same ▸ isCurrent)).frame keeps.projects subset

/-- The same for a transaction that may fail. -/
theorem committed {result : Except Error Db} (sound : state.Sound)
    (keeps : ∀ next, result = .ok next → KeepsRuns state.db next) : (state.commit result).Sound := by
  cases result with
  | ok next => exact sound.frame (keeps next rfl) (.inr rfl) fun _ member => member
  | error => exact sound

/-- A step of the pass. -/
theorem passed (sound : state.Sound) {next : Pass} (isSound : next.Sound state.db state.active) :
    State.Sound { state with pass := some next } :=
  ⟨sound.keyed, fun _ isPass => Option.some.inj isPass ▸ isSound⟩

/-- What a recovery stores is the run with its own id and projects. -/
theorem recover_keeps (run : Run) (checkpoint : Option RunCheckpoint) (now : Int) :
    (Chats.recover run checkpoint now).1.id = run.id ∧
      (Chats.recover run checkpoint now).1.projects = run.projects := by
  unfold Chats.recover
  split
  · exact ⟨rfl, rfl⟩
  · split
    · exact ⟨rfl, rfl⟩
    · split <;> exact ⟨rfl, rfl⟩

/-- A run that shares no project with a reserved one may become the candidate. -/
theorem select {pass : Pass} {run stored : Run} {now : Int} (keyed : Keyed Run.id state.db.runs)
    (sound : pass.Sound state.db state.active) (found : state.db.run? run.id = some stored)
    (same : stored.projects = run.projects)
    (apart : ∀ id ∈ pass.reserved, id ≠ run.id → ∀ other, state.db.run? id = some other →
      ∀ project ∈ run.projects, project ∉ other.projects)
    (taken : state.select pass run now = some after) : after.Sound := by
  obtain ⟨current, _, selected⟩ := Option.bind_eq_some_iff.mp taken
  obtain rfl := Option.some.inj selected
  refine ⟨keyed, fun later isLater => ?_⟩
  obtain rfl := Option.some.inj isLater
  dsimp only
  split
  · exact sound.chosen found same apart
  · exact sound.dropped fun _ member => member

theorem recoverRun {pass : Pass} {run stored : Run} {now : Int}
    (keyed : Keyed Run.id state.db.runs) (sound : pass.Sound state.db state.active)
    (found : state.db.run? run.id = some stored) (same : stored.projects = run.projects)
    (apart : ∀ id ∈ pass.reserved, id ≠ run.id → ∀ other, state.db.run? id = some other →
      ∀ project ∈ run.projects, project ∉ other.projects)
    (taken : state.recoverRun pass run now = some after) : after.Sound := by
  obtain ⟨current, isCurrent, recovered⟩ := Option.bind_eq_some_iff.mp taken
  obtain ⟨db, ok, entered⟩ := Option.bind_eq_some_iff.mp recovered
  clear taken recovered
  obtain ⟨named, projects⟩ := recover_keeps current (state.db.checkpoints run.id) now
  have keeps : KeepsRuns state.db db :=
    .put_update (toOption_eq_some.mp ok) isCurrent named projects
  have kept := sound.frame keeps.projects (fun _ member => member)
  obtain ⟨later, isLater, sameLater⟩ := keeps.projects run.id stored found
  have apart : ∀ id ∈ pass.reserved, id ≠ run.id → ∀ other, db.run? id = some other →
      ∀ project ∈ run.projects, project ∉ other.projects := by
    intro id member other next isNext
    obtain ⟨before, isBefore, _⟩ := sound.reserved id member
    obtain ⟨next', isNext', sameNext⟩ := keeps.projects id before isBefore
    obtain rfl := Option.some.inj (isNext.symm.trans isNext')
    rw [sameNext]
    exact apart id member other before isBefore
  dsimp only at entered
  split at entered
  · exact select (keeps.keyed keyed) kept isLater (sameLater.trans same) apart entered
  · obtain rfl := Option.some.inj entered
    exact ⟨keeps.keyed keyed, fun _ isPass => Option.some.inj isPass ▸ kept⟩

theorem tryLaunch {pass : Pass} {run : Run} {now : Int} {fenced : Bool}
    (keyed : Keyed Run.id state.db.runs) (sound : pass.Sound state.db state.active)
    (idle : pass.candidate = none)
    (known : ∃ stored, state.db.run? run.id = some stored ∧ stored.projects = run.projects)
    (taken : state.tryLaunch pass run now fenced = some after) : after.Sound := by
  obtain ⟨stored, found, same⟩ := known
  unfold State.tryLaunch at taken
  split at taken
  · obtain rfl := Option.some.inj taken
    exact ⟨keyed, fun _ isPass => Option.some.inj isPass ▸ sound⟩
  · rename_i free
    simp only [Pass.conflicts, Bool.or_eq_true, List.any_eq_true, List.contains_iff_mem, not_or,
      not_exists, not_and] at free
    dsimp only at taken
    generalize isKept : (if (run.recoveryPending ||
      (state.db.checkpoints run.id).any RunCheckpoint.launched) = true then pass.reserve run
        else pass) = kept at taken
    have keptSound : kept.Sound state.db state.active := by
      subst isKept
      split
      · exact sound.reserve idle found same
      · exact sound
    -- What is reserved lies in the projects that were tested.
    have apart : ∀ id ∈ kept.reserved, id ≠ run.id → ∀ other, state.db.run? id = some other →
        ∀ project ∈ run.projects, project ∉ other.projects := by
      intro id member other before isBefore project inside
      have member : id ∈ pass.reserved := by
        subst isKept
        split at member
        · exact (List.mem_cons.mp member).resolve_left other
        · exact member
      obtain ⟨later, isLater, within⟩ := sound.reserved id member
      obtain rfl := Option.some.inj (isBefore.symm.trans isLater)
      exact fun shared => free.2 project inside (within project shared)
    split at taken
    · exact select keyed keptSound found same apart taken
    · split at taken
      · exact recoverRun keyed keptSound found same apart taken
      · obtain ⟨db, ok, entered⟩ := Option.bind_eq_some_iff.mp taken
        obtain rfl := Option.some.inj entered
        have keeps : KeepsRuns state.db db := .patchRun ok (fun _ => rfl) fun _ => rfl
        exact ⟨keeps.keyed keyed, fun _ isPass =>
          Option.some.inj isPass ▸ keptSound.frame keeps.projects fun _ member => member⟩

/-- The pass begins with the executing runs reserved. -/
theorem begin {projects : List String} (keyed : Keyed Run.id state.db.runs)
    (locked : lockedByActive state.db state.active = some projects) :
    Pass.Sound ⟨projects, activeByCreation state.db, none, state.active⟩ state.db state.active := by
  refine ⟨fun run known => ?_, fun id member => member, lockedByActive_of_some locked,
    fun _ chosen => by simp at chosen⟩
  have member : run ∈ activeByCreation state.db := known.resolve_right (by simp)
  have stored : run ∈ state.db.runs :=
    (List.mem_filter.mp ((List.mem_insertionSort _).mp member)).1
  exact ⟨run, find_of_mem keyed stored, rfl⟩

/-- A launch reserves its run. -/
theorem launch {projects : List String} {remaining : List Run} {reserved : List String}
    {candidate run : Run} {ready : Bool} (sound : state.Sound)
    (isPass : state.pass = some ⟨projects, remaining, some candidate, reserved⟩)
    (launches : state.launching ready = some run) :
    Pass.Sound (Pass.reserve ⟨projects, remaining, none, reserved⟩ run) state.db
      (state.active.insert run.id) := by
  obtain ⟨pass, isPass', chosen⟩ := Option.bind_eq_some_iff.mp launches
  obtain rfl := Option.some.inj (isPass.symm.trans isPass')
  obtain ⟨_, isRun, launched⟩ := Option.bind_eq_some_iff.mp chosen
  obtain ⟨current, _, tested⟩ := Option.bind_eq_some_iff.mp launched
  obtain rfl := Option.some.inj isRun
  split at tested
  · obtain rfl := Option.some.inj tested
    have before := sound.pass _ isPass
    obtain ⟨stored, found, same⟩ := before.snapshots candidate (.inr rfl)
    have kept : Pass.Sound ⟨projects, remaining, none, reserved⟩ state.db state.active :=
      before.dropped fun _ member => member
    have locked := kept.reserve rfl found same
    refine ⟨locked.snapshots, fun id member => ?_, locked.reserved, locked.apart⟩
    rcases List.mem_insert_iff.mp member with rfl | member
    · exact List.mem_cons_self
    · exact locked.executing id member
  · simp at tested

theorem step {step : Step} (sound : state.Sound) (taken : state.step step = some after) :
    after.Sound := by
  cases step with
  | enqueue run =>
      simp only [State.step] at taken
      split at taken
      · obtain rfl := Option.some.inj taken
        exact sound.committed fun next ok => .addRun ok
      · simp at taken
  | continueRun run =>
      simp only [State.step] at taken
      split at taken
      · rename_i idle
        obtain rfl := Option.some.inj taken
        simp only [Bool.and_eq_true, Option.isNone_iff_eq_none] at idle
        cases ok : state.db.putRun run with
        | error => exact sound
        | ok next =>
            refine ⟨?_, fun current isCurrent => ?_⟩
            · change Keyed Run.id next.runs
              rw [putRun_of_ok ok]
              exact keyed_put sound.keyed
            · exact absurd (idle.1.1.1.symm.trans isCurrent) (by simp)
      · simp at taken
  | resume id =>
      obtain rfl := Option.some.inj taken
      exact sound.committed fun next ok => .resume ok
  | cancel id now =>
      obtain rfl := Option.some.inj taken
      exact sound.committed fun next ok => .cancel ok
  | tick =>
      simp only [State.step] at taken
      split at taken
      · obtain ⟨projects, locked, rfl⟩ := Option.map_eq_some_iff.mp taken
        exact sound.passed (begin sound.keyed locked)
      · simp at taken
  | consider now fenced =>
      simp only [State.step] at taken
      split at taken
      · rename_i projects run remaining reserved isPass
        have before := sound.pass _ isPass
        have kept : Pass.Sound ⟨projects, remaining, none, reserved⟩ state.db state.active :=
          before.dropped fun _ member => List.mem_cons_of_mem _ member
        split at taken
        · obtain rfl := Option.some.inj taken
          exact sound.passed kept
        · exact tryLaunch sound.keyed kept rfl (before.snapshots run (.inl List.mem_cons_self)) taken
      · simp at taken
  | launch ready =>
      simp only [State.step] at taken
      split at taken
      · rename_i projects remaining candidate reserved isPass
        split at taken
        · rename_i run launches
          obtain rfl := Option.some.inj taken
          exact ⟨sound.keyed, fun _ isLater =>
            Option.some.inj isLater ▸ launch sound isPass launches⟩
        · obtain rfl := Option.some.inj taken
          exact sound.passed ((sound.pass _ isPass).dropped fun _ member => member)
      · simp at taken
  | endTick =>
      obtain rfl := Option.some.inj taken
      exact sound.frame (.of_runs rfl) (.inl rfl) fun _ member => member
  | markRunning id now account =>
      simp only [State.step] at taken
      split at taken
      · obtain ⟨run, _, stored⟩ := Option.bind_eq_some_iff.mp taken
        obtain ⟨next, ok, rfl⟩ := Option.map_eq_some_iff.mp stored
        have kept := (KeepsRuns.setCheckpoint id _).trans
          (.patchRun ok (fun _ => rfl) fun _ => rfl)
        exact sound.frame kept (.inr rfl) fun _ member => member
      · simp at taken
  | spawn id =>
      simp only [State.step] at taken
      split at taken
      · obtain ⟨checkpoint, _, rfl⟩ := Option.map_eq_some_iff.mp taken
        exact sound.frame (.of_runs rfl) (.inr rfl) fun _ member => member
      · simp at taken
  | progress id checkpoint =>
      simp only [State.step] at taken
      split at taken
      · obtain rfl := Option.some.inj taken
        exact sound.frame (.of_runs rfl) (.inr rfl) fun _ member => member
      · simp at taken
  | exit id =>
      obtain rfl := Option.some.inj taken
      exact sound.frame (.of_runs rfl) (.inr rfl) fun _ member => member
  | settle id now ending =>
      simp only [State.step] at taken
      split at taken
      · obtain ⟨run, _, stored⟩ := Option.bind_eq_some_iff.mp taken
        obtain ⟨next, ok, rfl⟩ := Option.map_eq_some_iff.mp stored
        have kept : KeepsRuns (ending.save state.db run.id) next :=
          .patchRun ok (fun _ => by cases ending <;> rfl) fun _ => by cases ending <;> rfl
        have saved : KeepsRuns state.db (ending.save state.db run.id) := by
          cases ending <;> exact .of_runs rfl
        exact sound.frame (saved.trans kept) (.inr rfl) fun _ member => member
      · simp at taken
  | fail id =>
      simp only [State.step] at taken
      split at taken
      · obtain ⟨next, ok, rfl⟩ := Option.map_eq_some_iff.mp taken
        exact sound.frame (.requeueAfterError ok) (.inr rfl) fun _ member => member
      · simp at taken
  | leave id =>
      simp only [State.step] at taken
      split at taken
      · obtain rfl := Option.some.inj taken
        exact sound.frame (.of_runs rfl) (.inr rfl) fun _ member => (List.mem_filter.mp member).1
      · simp at taken
  | restart now =>
      obtain rfl := Option.some.inj taken
      refine ⟨?_, fun _ isPass => by simp at isPass⟩
      have named : ∀ run : Run,
          (restoreAfterRestart (state.db.checkpoints run.id) now run).id = run.id := by
        intro run
        unfold restoreAfterRestart
        repeat' split
        all_goals rfl
      unfold Keyed
      rw [List.map_map]
      exact (List.map_congr_left fun run _ => named run : _ = state.db.runs.map Run.id) ▸ sound.keyed

/-- Every run keeps a state sound. -/
theorem run {steps : List Step} (sound : state.Sound)
    (executed : execute State.step state steps = some after) : after.Sound :=
  execute_invariant (fun _ _ _ sound taken => sound.step taken) sound executed

/-- A launch beside a run that executes, or that the pass reserved, does not happen. -/
theorem exclusive_iff {step : Step} (sound : state.Sound) :
    state.Exclusive step ↔ ¬ state.Overtakes step := by
  constructor
  · rintro exclusive ⟨ready, run, pass, other, isStep, launches, _, beside, unfenced, _⟩
    exact (exclusive ready run isStep launches other beside).2 unfenced
  · intro reserved ready run isStep launches other beside
    obtain ⟨pass, isPass, chosen⟩ := Option.bind_eq_some_iff.mp launches
    have passSound := sound.pass pass isPass
    obtain ⟨candidate, isCandidate, launched⟩ := Option.bind_eq_some_iff.mp chosen
    obtain ⟨current, _, tested⟩ := Option.bind_eq_some_iff.mp launched
    have same : candidate = run := by
      split at tested
      · exact Option.some.inj tested
      · simp at tested
    obtain ⟨found, apart, project, inside, shared⟩ := beside
    have free : other.id ∉ pass.reserved := fun member =>
      passSound.apart run (same ▸ isCandidate) other.id member apart other found project inside shared
    exact ⟨fun member => free (passSound.executing other.id member), fun unfenced =>
      reserved ⟨ready, run, pass, other, isStep, launches, isPass,
        ⟨found, apart, project, inside, shared⟩, unfenced, free⟩⟩

end State.Sound

theorem State.Started.sound (started : state.Started) : state.Sound :=
  ⟨started.1, fun pass isPass => by simp [started.2.2.2.2] at isPass⟩

theorem checkouts_exclusive_iff {initial : State} {steps : List Step} (started : initial.Started) :
    Throughout State.step State.Exclusive initial steps ↔
      Throughout State.step (fun state step => ¬ state.Overtakes step) initial steps := by
  rw [throughout_iff, throughout_iff]
  constructor
  · intro exclusive before step after state split reached
    exact (started.sound.run reached).exclusive_iff.mp (exclusive before step after state split reached)
  · intro reserved before step after state split reached
    exact (started.sound.run reached).exclusive_iff.mpr (reserved before step after state split reached)

/-! ### A run that is launched before the recovery of another one -/

/-- A run on a project. -/
def hostRun (id : String) (createdAt : Int) : Run where
  id := id
  taskId := id
  agent := { id := "agent" }
  projects := ["project"]
  createdAt := createdAt

/-- A worker with two slots. -/
def newWorker : State where
  db := { chat := none }
  concurrency := 2

/-- The older run waits for an account while the newer one starts. -/
def olderWaits : List Step :=
  [.enqueue (hostRun "older" 1), .enqueue (hostRun "newer" 2), .tick, .consider 3 true,
    .launch false, .consider 3 true, .launch true, .endTick, .markRunning "newer" 4 none,
    .spawn "newer"]

theorem newWorker_started : newWorker.Started := ⟨List.nodup_nil, rfl, rfl, rfl, rfl⟩

/-- A restart with both runs queued, and the pass that reaches the older one. -/
def restarted : List Step :=
  olderWaits ++ [.restart 5, .tick, .consider 6 true]

/-- The newer run while it waits for its recovery. -/
def unfencedRun : Run :=
  { hostRun "newer" 2 with
    startedAt := some 4
    recoveryPending := true
    accountWaitReason := some "Recovering after worker restart." }

theorem launched_over_unfenced :
    ¬ ∀ (initial : State) (steps : List Step), initial.Started →
      Throughout State.step State.Exclusive initial steps := by
  intro claimed
  have exclusive := throughout_iff.mp
    (claimed newWorker (restarted ++ [.launch true]) newWorker_started)
    restarted (.launch true) [] _ rfl rfl true (hostRun "older" 1) rfl rfl
  have beside := exclusive unfencedRun ⟨rfl, by decide, "project", by decide, by decide⟩
  exact beside.2 ⟨rfl, by decide⟩

theorem checkouts_exclusive_iff_restarted :
    Throughout State.step State.Exclusive newWorker (restarted ++ [.launch true]) ↔
      Throughout State.step (fun state step => ¬ state.Overtakes step) newWorker
        (restarted ++ [.launch true]) :=
  checkouts_exclusive_iff newWorker_started

end Cairn.Worker

import Mathlib.Logic.Function.Basic
import Cairn.Library.Steps
import Cairn.Nodes.Publication

/-!
Owns the publications of one run as they interleave: any number of attempts and
captures, the operation lock they share, the requests and status reports between
their transactions, failures and restarts. `publication_demand_safe` says what the
request counter keeps over every such run.

Does not own the transactions themselves, or what a publication transfers.
-/

set_option autoImplicit false

namespace Cairn.Nodes.Publication

open Cairn.Library.Steps

/-- Where a publication stands. -/
inductive Stage where
  /-- Waits for the operation lock. -/
  | called
  | locked
  /-- The run is read under the lock. -/
  | read (capture : Capture)
  /-- The node answered the capture. -/
  | captured (capture : Capture) (snapshot : Snapshot)
  /-- The point is recorded; the node has not confirmed it. -/
  | committed (capture : Capture) (snapshot : Snapshot)
  | acknowledged (capture : Capture)
  /-- Only collection is left. -/
  | published
  /-- The lock is released with an error. -/
  | failed (status : Nat) (message : String)
  /-- `attempt` records the error. -/
  | settling (status : Nat) (message : String)
  | finished
deriving DecidableEq, Repr

namespace Stage

/-- The revision a publication is going to acknowledge. -/
def revision : Stage → Option Nat
  | read capture | captured capture _ | committed capture _ | acknowledged capture =>
      some capture.revision
  | _ => none

/-- Whether the operation lock is held. -/
def holdsLock : Stage → Bool
  | locked | read _ | captured _ _ | committed _ _ | acknowledged _ | published => true
  | _ => false

/-- Whether the run is still to be read. -/
def beforeRead : Stage → Bool
  | called | locked => true
  | _ => false

end Stage

/-- A call of `attempt` or `capture`, with whether the run it was called with had a
baseline. -/
structure Process where
  isAttempt : Bool
  baseline : Bool
  stage : Stage
deriving DecidableEq, Repr

/-- One run, the lock of its publications and the calls made for it. -/
structure State where
  run : Run
  holder : Option Nat := none
  processes : Nat → Option Process := fun _ => none

/-- What can happen to the run or to one of its publications. A flag `recorded` says
whether a status write whose failure is only logged succeeded. -/
inductive Step where
  | request
  | refresh (node : String) (status : Storage) (point : Option MountedPoint)
  | begin (process : Nat) (isAttempt baseline recorded : Bool)
  | lock (process : Nat)
  | read (process : Nat) (attempt : String) (node : Option String)
  | capture (process : Nat) (snapshot : Snapshot)
  | commit (process : Nat) (backupId : String) (uploaded : Nat) (reads : CommitReads)
  | acknowledge (process : Nat)
  | complete (process : Nat)
  | finish (process : Nat)
  | fail (process : Nat) (status : Nat) (message : String)
  | forget (process : Nat) (recorded : Bool)
  | settle (process : Nat) (recorded : Bool)
  | restart

namespace State

/-- The document with another `backup`. -/
def withBackup (state : State) (backup : Backup) : State :=
  { state with run := { state.run with backup := backup } }

/-- A status write, when it is recorded. -/
def record (state : State) (recorded : Bool) (patch : StatusPatch) : State :=
  if recorded then state.withBackup (updateStatus patch state.run.backup) else state

/-- A call moves to another stage. -/
def move (state : State) (process : Nat) (call : Process) (stage : Stage) : State :=
  { state with
    processes := Function.update state.processes process (some { call with stage := stage }) }

/-- A call that holds the lock releases it. -/
def unlock (state : State) (process : Nat) : State :=
  { state with holder := if state.holder = some process then none else state.holder }

/-- One step, if it is enabled. -/
def step (state : State) : Step → Option State
  | .request =>
      match request state.run.backup with
      | .ok backup => some (state.withBackup backup)
      | .error _ => some state
  | .refresh node status point =>
      if status.mode = some onDemandMode then
        some { state with run := recordStatus node status point state.run }
      else none
  | .begin process isAttempt baseline recorded =>
      if state.processes process = none ∧ (isAttempt = true → isProtected state.run) then
        some ((state.record (isAttempt && recorded) .saving).move process
          ⟨isAttempt, baseline, .called⟩ .called)
      else none
  | .lock process => do
      let call ← state.processes process
      if call.stage = .called ∧ state.holder = none then
        some { state.move process call .locked with holder := some process }
      else none
  | .read process attempt node => do
      let call ← state.processes process
      if call.stage = .locked then
        some (state.move process call
          (.read ⟨state.run.backup.requestedCount, attempt, node⟩))
      else none
  | .capture process snapshot => do
      let call ← state.processes process
      match call.stage with
      | .read capture => some (state.move process call (.captured capture snapshot))
      | _ => none
  | .commit process backupId uploaded reads => do
      let call ← state.processes process
      match call.stage with
      | .captured capture snapshot =>
          if snapshot.alreadyPublished then none
          else
            match commit capture snapshot backupId uploaded reads state.run with
            | .ok run =>
                some ({ state with run := run }.move process call
                  (if snapshot.onDemand then .committed capture snapshot else .published))
            | .error error =>
                some ((state.move process call (.failed error.status error.message)).unlock process)
      | _ => none
  | .acknowledge process => do
      let call ← state.processes process
      match call.stage with
      | .captured capture snapshot =>
          if snapshot.alreadyPublished then some (state.move process call (.acknowledged capture))
          else none
      | .committed capture _ => some (state.move process call (.acknowledged capture))
      | _ => none
  | .complete process => do
      let call ← state.processes process
      match call.stage with
      | .acknowledged capture =>
          some ((state.withBackup (completeRequest capture.revision state.run.backup)).move process
            call .published)
      | _ => none
  | .finish process => do
      let call ← state.processes process
      if call.stage = .published then some ((state.move process call .finished).unlock process)
      else none
  | .fail process status message => do
      let call ← state.processes process
      if call.stage.holdsLock ∨ call.stage = .called then
        some ((state.move process call (.failed status message)).unlock process)
      else none
  | .forget process recorded => do
      let call ← state.processes process
      match call.stage with
      | .failed status message =>
          some ((state.record (status ≠ 425 && call.baseline && recorded) .forgetBaseline).move
            process call (if call.isAttempt then .settling status message else .finished))
      | _ => none
  | .settle process recorded => do
      let call ← state.processes process
      match call.stage with
      | .settling status message =>
          some ((state.record recorded (if status = 425 then .pending else .error message)).move
            process call .finished)
      | _ => none
  | .restart =>
      some { state with
        holder := none
        processes := fun process =>
          (state.processes process).map fun call => { call with stage := .finished } }

/-- A run before its first publication. -/
def Fresh (state : State) : Prop :=
  state.run.backup.requestedRevision = none ∧ state.run.backup.acknowledgedRevision = none ∧
    state.holder = none ∧ ∀ process, state.processes process = none

end State

/-! ### What one step does -/

/-- How a step writes the pointer of the run. -/
inductive Writes (state : State) : Step → Backup → Prop where
  | keeps (step : Step) : Writes state step state.run.backup
  | requests {next : Backup} (made : request state.run.backup = .ok next) :
      Writes state .request next
  | records (step : Step) (patch : StatusPatch) :
      Writes state step (updateStatus patch state.run.backup)
  | reports {node : String} {status : Storage} {point : Option MountedPoint}
      (pointer : PublishedPointer)
      (honest : pointer.status = if state.run.backup.requested then .pending else .ready) :
      Writes state (.refresh node status point) (state.run.backup.extend pointer)
  | commits {process : Nat} {call : Process} {capture : Capture} {snapshot : Snapshot}
      {backupId : String} {uploaded : Nat} {reads : CommitReads}
      (found : state.processes process = some call)
      (stage : call.stage = .captured capture snapshot)
      (isNew : snapshot.alreadyPublished = false) {run : Run}
      (committed : commit capture snapshot backupId uploaded reads state.run = .ok run) :
      Writes state (.commit process backupId uploaded reads)
        (state.run.backup.extend (committedPointer snapshot backupId uploaded))
  | completes {process : Nat} {call : Process} {capture : Capture}
      (found : state.processes process = some call)
      (stage : call.stage = .acknowledged capture) :
      Writes state (.complete process) (completeRequest capture.revision state.run.backup)

/-- How a call moves: from no stage, or a stage, to the next, with the lock's holder
after it. -/
inductive Moves (state : State) (process : Nat) : Option Stage → Stage → Option Nat → Prop where
  | called : Moves state process none .called state.holder
  | locked (free : state.holder = none) : Moves state process (some .called) .locked (some process)
  | read (attempt : String) (node : Option String) :
      Moves state process (some .locked)
        (.read ⟨state.run.backup.requestedCount, attempt, node⟩) state.holder
  | onward {before after : Stage} (held : before.holdsLock = true)
      (isRead : after.beforeRead = false)
      (carries : after.revision = none ∨ after.revision = before.revision) :
      Moves state process (some before) after state.holder
  | ended {before after : Stage} {holder : Option Nat} (released : after.holdsLock = false)
      (isRead : after.beforeRead = false)
      (others : ∀ other, other ≠ process → state.holder = some other → holder = some other) :
      Moves state process (some before) after holder

/-- How a step changes the calls. -/
inductive Calls (state next : State) : Prop where
  | keeps (processes : next.processes = state.processes) (holder : next.holder = state.holder)
  | moves (process : Nat) (call : Process) (stage : Stage)
      (processes : next.processes =
        Function.update state.processes process (some { call with stage := stage }))
      (moved : Moves state process ((state.processes process).map Process.stage) stage next.holder)
  | restarts (processes : ∀ process, next.processes process =
        (state.processes process).map fun call => { call with stage := .finished })

namespace State

@[simp] theorem withBackup_backup (state : State) (backup : Backup) :
    (state.withBackup backup).run.backup = backup := rfl

@[simp] theorem move_run (state : State) (process : Nat) (call : Process) (stage : Stage) :
    (state.move process call stage).run = state.run := rfl

@[simp] theorem unlock_run (state : State) (process : Nat) :
    (state.unlock process).run = state.run := rfl

@[simp] theorem unlock_processes (state : State) (process : Nat) :
    (state.unlock process).processes = state.processes := rfl

@[simp] theorem record_processes (state : State) (recorded : Bool) (patch : StatusPatch) :
    (state.record recorded patch).processes = state.processes := by
  cases recorded <;> rfl

@[simp] theorem record_holder (state : State) (recorded : Bool) (patch : StatusPatch) :
    (state.record recorded patch).holder = state.holder := by
  cases recorded <;> rfl

theorem record_writes (state : State) (step : Step) (recorded : Bool) (patch : StatusPatch) :
    Writes state step (state.record recorded patch).run.backup := by
  cases recorded
  · exact .keeps step
  · exact .records step patch

theorem unlock_others (state : State) (process other : Nat) (distinct : other ≠ process)
    (held : state.holder = some other) : (state.unlock process).holder = some other := by
  simp [unlock, held, distinct]

end State

theorem recordStatus_backup (node : String) (status : Storage) (point : Option MountedPoint)
    (run : Run) : (recordStatus node status point run).backup = run.backup ∨
      ∃ pointer, pointer.status = (if run.backup.requested then .pending else .ready) ∧
        (recordStatus node status point run).backup = run.backup.extend pointer := by
  unfold recordStatus
  split
  · exact Or.inl rfl
  · cases point with
    | none => exact Or.inl rfl
    | some point =>
        dsimp only
        split
        · exact Or.inr ⟨_, rfl, rfl⟩
        · exact Or.inl rfl

theorem commit_backup {capture : Capture} {snapshot : Snapshot} {backupId : String}
    {uploaded : Nat} {reads : CommitReads} {run next : Run}
    (committed : commit capture snapshot backupId uploaded reads run = .ok next) :
    next = { run with backup := run.backup.extend (committedPointer snapshot backupId uploaded) } := by
  unfold commit at committed
  split at committed
  · simp at committed
  · cases verified : reads.verified with
    | error error => simp [verified, bind, Except.bind] at committed
    | ok _ =>
        rw [verified] at committed
        exact (Except.ok.inj committed).symm

namespace State

/-- What a step that is enabled does. -/
theorem step_cases {state next : State} {step : Step} (taken : state.step step = some next) :
    Writes state step next.run.backup ∧ Calls state next := by
  cases step with
  | request =>
      simp only [State.step] at taken
      split at taken
      · rename_i made
        obtain rfl := Option.some.inj taken
        exact ⟨.requests made, .keeps rfl rfl⟩
      · obtain rfl := Option.some.inj taken
        exact ⟨.keeps _, .keeps rfl rfl⟩
  | refresh node status point =>
      simp only [State.step] at taken
      split at taken
      · obtain rfl := Option.some.inj taken
        refine ⟨?_, .keeps rfl rfl⟩
        obtain same | ⟨pointer, honest, reported⟩ := recordStatus_backup node status point state.run
        · exact same ▸ .keeps _
        · exact reported ▸ .reports pointer honest
      · simp at taken
  | begin process isAttempt baseline recorded =>
      simp only [State.step] at taken
      split at taken
      · rename_i enabled
        obtain rfl := Option.some.inj taken
        refine ⟨record_writes state _ _ _, .moves process ⟨isAttempt, baseline, .called⟩ .called ?_ ?_⟩
        · simp [move]
        · rw [enabled.1]
          simpa [move] using @Moves.called state process
      · simp at taken
  | lock process =>
      obtain ⟨call, found, taken⟩ := Option.bind_eq_some_iff.mp taken
      split at taken
      · rename_i enabled
        obtain rfl := Option.some.inj taken
        refine ⟨.keeps _, .moves process call .locked rfl ?_⟩
        rw [found, Option.map_some, enabled.1]
        exact .locked enabled.2
      · simp at taken
  | read process attempt node =>
      obtain ⟨call, found, taken⟩ := Option.bind_eq_some_iff.mp taken
      split at taken
      · rename_i isLocked
        obtain rfl := Option.some.inj taken
        refine ⟨.keeps _, .moves process call _ rfl ?_⟩
        rw [found, Option.map_some, isLocked]
        exact .read attempt node
      · simp at taken
  | capture process snapshot =>
      obtain ⟨call, found, taken⟩ := Option.bind_eq_some_iff.mp taken
      split at taken
      · rename_i capture isRead
        obtain rfl := Option.some.inj taken
        refine ⟨.keeps _, .moves process call (.captured capture snapshot) rfl ?_⟩
        rw [found, Option.map_some, isRead]
        exact .onward rfl rfl (Or.inr rfl)
      · simp at taken
  | commit process backupId uploaded reads =>
      obtain ⟨call, found, taken⟩ := Option.bind_eq_some_iff.mp taken
      split at taken
      · rename_i capture snapshot isCaptured
        split at taken
        · simp at taken
        rename_i isNew
        split at taken
        · rename_i run committed
          obtain rfl := Option.some.inj taken
          have moved := commit_backup committed
          subst moved
          refine ⟨.commits found isCaptured (by simpa using isNew) committed,
            .moves process call _ rfl ?_⟩
          rw [found, Option.map_some, isCaptured]
          cases snapshot.onDemand
          · exact .onward rfl rfl (Or.inl rfl)
          · exact .onward rfl rfl (Or.inr rfl)
        · obtain rfl := Option.some.inj taken
          refine ⟨.keeps _, .moves process call _ rfl ?_⟩
          rw [found, Option.map_some]
          exact .ended rfl rfl (unlock_others _ process)
      · simp at taken
  | acknowledge process =>
      obtain ⟨call, found, taken⟩ := Option.bind_eq_some_iff.mp taken
      split at taken
      · rename_i capture snapshot isCaptured
        split at taken
        · obtain rfl := Option.some.inj taken
          refine ⟨.keeps _, .moves process call (.acknowledged capture) rfl ?_⟩
          rw [found, Option.map_some, isCaptured]
          exact .onward rfl rfl (Or.inr rfl)
        · simp at taken
      · rename_i capture snapshot isCommitted
        obtain rfl := Option.some.inj taken
        refine ⟨.keeps _, .moves process call (.acknowledged capture) rfl ?_⟩
        rw [found, Option.map_some, isCommitted]
        exact .onward rfl rfl (Or.inr rfl)
      · simp at taken
  | complete process =>
      obtain ⟨call, found, taken⟩ := Option.bind_eq_some_iff.mp taken
      split at taken
      · rename_i capture isAcknowledged
        obtain rfl := Option.some.inj taken
        refine ⟨.completes found isAcknowledged, .moves process call .published rfl ?_⟩
        rw [found, Option.map_some, isAcknowledged]
        exact .onward rfl rfl (Or.inl rfl)
      · simp at taken
  | finish process =>
      obtain ⟨call, found, taken⟩ := Option.bind_eq_some_iff.mp taken
      split at taken
      · obtain rfl := Option.some.inj taken
        refine ⟨.keeps _, .moves process call .finished rfl ?_⟩
        rw [found, Option.map_some]
        exact .ended rfl rfl (unlock_others _ process)
      · simp at taken
  | fail process status message =>
      obtain ⟨call, found, taken⟩ := Option.bind_eq_some_iff.mp taken
      split at taken
      · obtain rfl := Option.some.inj taken
        refine ⟨.keeps _, .moves process call (.failed status message) rfl ?_⟩
        rw [found, Option.map_some]
        exact .ended rfl rfl (unlock_others _ process)
      · simp at taken
  | forget process recorded =>
      obtain ⟨call, found, taken⟩ := Option.bind_eq_some_iff.mp taken
      split at taken
      · rename_i status message isFailed
        obtain rfl := Option.some.inj taken
        refine ⟨record_writes state _ _ _, .moves process call
          (if call.isAttempt then .settling status message else .finished) ?_ ?_⟩
        · simp [move]
        · rw [found, Option.map_some]
          cases call.isAttempt
          · exact .ended rfl rfl fun _ _ held => by simpa [move] using held
          · exact .ended rfl rfl fun _ _ held => by simpa [move] using held
      · simp at taken
  | settle process recorded =>
      obtain ⟨call, found, taken⟩ := Option.bind_eq_some_iff.mp taken
      split at taken
      · obtain rfl := Option.some.inj taken
        refine ⟨record_writes state _ _ _, .moves process call .finished ?_ ?_⟩
        · simp [move]
        · rw [found, Option.map_some]
          exact .ended rfl rfl fun _ _ held => by simpa [move] using held
      · simp at taken
  | restart =>
      obtain rfl := Option.some.inj taken
      exact ⟨.keeps _, .restarts fun _ => rfl⟩

end State

/-! ### What every run keeps -/

theorem Stage.holdsLock_of_revision {stage : Stage} {revision : Nat}
    (carried : stage.revision = some revision) : stage.holdsLock = true := by
  cases stage <;> first | rfl | simp [Stage.revision] at carried

theorem Writes.counts {state : State} {step : Step} {backup : Backup}
    (writes : Writes state step backup) :
    state.run.backup.requestedCount ≤ backup.requestedCount ∧
      (backup.acknowledgedCount = state.run.backup.acknowledgedCount ∨
        ∃ process call capture, state.processes process = some call ∧
          call.stage = .acknowledged capture ∧ backup.acknowledgedCount = capture.revision) := by
  cases writes with
  | keeps => exact ⟨Nat.le_refl _, Or.inl rfl⟩
  | requests made =>
      obtain ⟨more, same, _⟩ := Backup.request_of_ok made
      exact ⟨by omega, Or.inl same⟩
  | records _ patch => simp
  | reports pointer _ => simp
  | commits => simp
  | completes found stage =>
      exact ⟨Nat.le_refl _, Or.inr ⟨_, _, _, found, stage, rfl⟩⟩

/-- A revision that is carried was carried before, or is the counter just read. -/
theorem Calls.revision {state next : State} (calls : Calls state next) {process : Nat}
    {call : Process} {revision : Nat} (found : next.processes process = some call)
    (carried : call.stage.revision = some revision) :
    ∃ before, state.processes process = some before ∧ (before.stage.revision = some revision ∨
      (before.stage = .locked ∧ revision = state.run.backup.requestedCount)) := by
  cases calls with
  | keeps processes _ => exact ⟨call, processes ▸ found, Or.inl carried⟩
  | restarts processes =>
      obtain ⟨before, _, rfl⟩ := Option.map_eq_some_iff.mp ((processes process).symm.trans found)
      simp [Stage.revision] at carried
  | moves moving before stage processes moved =>
      rw [processes] at found
      by_cases same : process = moving
      · subst same
        rw [Function.update_self] at found
        obtain rfl := Option.some.inj found
        dsimp only at carried
        generalize next.holder = holder at moved
        cases present : state.processes process with
        | none =>
            rw [present, Option.map_none] at moved
            cases moved
            simp [Stage.revision] at carried
        | some earlier =>
            rw [present, Option.map_some] at moved
            refine ⟨earlier, rfl, ?_⟩
            generalize stageIs : earlier.stage = earlierStage at moved
            cases moved with
            | locked free => simp [Stage.revision] at carried
            | read attempt node => exact Or.inr ⟨rfl, (Option.some.inj carried).symm⟩
            | onward _ _ carries =>
                obtain dropped | kept := carries
                · simp [dropped] at carried
                · exact Or.inl (kept ▸ carried)
            | ended released _ _ =>
                simp [Stage.holdsLock_of_revision carried] at released
      · rw [Function.update_of_ne same] at found
        exact ⟨call, found, Or.inl carried⟩

namespace State

/-- The counter is ordered, the lock has one holder, and what a publication is going to
acknowledge lies between the two revisions. -/
structure Sound (state : State) : Prop where
  ordered : state.run.backup.acknowledgedCount ≤ state.run.backup.requestedCount
  exclusive : ∀ process call, state.processes process = some call →
    call.stage.holdsLock = true → state.holder = some process
  carried : ∀ process call revision, state.processes process = some call →
    call.stage.revision = some revision →
    state.run.backup.acknowledgedCount ≤ revision ∧ revision ≤ state.run.backup.requestedCount

variable {state next final : State} {taking : Step} {steps : List Step}

theorem Fresh.sound (fresh : state.Fresh) : state.Sound where
  ordered := by simp [Backup.acknowledgedCount, Backup.requestedCount, fresh.1, fresh.2.1]
  exclusive process call found := by simp [fresh.2.2.2] at found
  carried process call revision found := by simp [fresh.2.2.2] at found

theorem Sound.lock (sound : state.Sound) (calls : Calls state next) (process : Nat)
    (call : Process) (found : next.processes process = some call)
    (held : call.stage.holdsLock = true) : next.holder = some process := by
  cases calls with
  | keeps processes holder =>
      rw [holder]
      exact sound.exclusive process call (processes ▸ found) held
  | restarts processes =>
      obtain ⟨before, _, rfl⟩ := Option.map_eq_some_iff.mp ((processes process).symm.trans found)
      simp [Stage.holdsLock] at held
  | moves moving before stage processes moved =>
      rw [processes] at found
      by_cases same : process = moving
      · subst same
        rw [Function.update_self] at found
        obtain rfl := Option.some.inj found
        dsimp only at held
        cases present : state.processes process with
        | none =>
            rw [present, Option.map_none] at moved
            generalize next.holder = holder at moved
            cases moved
            simp [Stage.holdsLock] at held
        | some earlier =>
            rw [present, Option.map_some] at moved
            have earlierHeld := sound.exclusive process earlier present
            generalize earlier.stage = earlierStage at moved earlierHeld
            generalize next.holder = holder at moved
            cases moved with
            | locked free => rfl
            | read attempt node => exact earlierHeld rfl
            | onward heldBefore _ _ => exact earlierHeld heldBefore
            | ended released _ _ => simp [held] at released
      · rw [Function.update_of_ne same] at found
        have heldBefore := sound.exclusive process call found held
        generalize (state.processes moving).map Process.stage = earlier at moved
        generalize next.holder = holder at moved
        cases moved with
        | called => exact heldBefore
        | locked free => simp [free] at heldBefore
        | read attempt node => exact heldBefore
        | onward _ _ _ => exact heldBefore
        | ended _ _ others => exact others process same heldBefore

/-- Two calls that hold the lock are one. -/
theorem Sound.same_holder (sound : state.Sound) {first second : Nat} {left right : Process}
    (foundLeft : state.processes first = some left) (foundRight : state.processes second = some right)
    (heldLeft : left.stage.holdsLock = true) (heldRight : right.stage.holdsLock = true) :
    left = right := by
  have same : first = second := Option.some.inj
    ((sound.exclusive first left foundLeft heldLeft).symm.trans
      (sound.exclusive second right foundRight heldRight))
  subst same
  exact Option.some.inj (foundLeft.symm.trans foundRight)

theorem Sound.step (sound : state.Sound) (taken : state.step taking = some next) : next.Sound := by
  obtain ⟨writes, calls⟩ := step_cases taken
  obtain ⟨requested, acknowledged⟩ := writes.counts
  refine ⟨?_, sound.lock calls, fun process call revision found carried => ?_⟩
  · obtain same | ⟨process, call, capture, found, stage, completes⟩ := acknowledged
    · have := sound.ordered
      omega
    · have := (sound.carried process call capture.revision found (by rw [stage]; rfl)).2
      omega
  obtain ⟨before, present, origin⟩ := calls.revision found carried
  have heldBefore : before.stage.holdsLock = true := by
    obtain earlier | ⟨isLocked, _⟩ := origin
    · exact Stage.holdsLock_of_revision earlier
    · rw [isLocked]
      rfl
  have bounds : state.run.backup.acknowledgedCount ≤ revision ∧
      revision ≤ state.run.backup.requestedCount := by
    obtain earlier | ⟨_, isCounter⟩ := origin
    · exact sound.carried process before revision present earlier
    · exact ⟨isCounter ▸ sound.ordered, Nat.le_of_eq isCounter⟩
  obtain same | ⟨completing, completer, capture, isCompleting, stage, completes⟩ := acknowledged
  · omega
  · -- The publication that completes holds the lock, so it is the one that carries.
    obtain rfl := sound.same_holder present isCompleting heldBefore (by rw [stage]; rfl)
    rw [stage] at origin
    obtain earlier | ⟨isLocked, _⟩ := origin
    · obtain rfl := Option.some.inj earlier
      omega
    · simp at isLocked

theorem Sound.run (sound : state.Sound)
    (executed : execute State.step state steps = some final) : final.Sound :=
  execute_invariant (fun _ _ _ holds taken => Sound.step holds taken) sound executed

/-- Both revisions grow with every step. -/
theorem Sound.grows (sound : state.Sound) (taken : state.step taking = some next) :
    state.run.backup.requestedCount ≤ next.run.backup.requestedCount ∧
      state.run.backup.acknowledgedCount ≤ next.run.backup.acknowledgedCount := by
  obtain ⟨requested, same | ⟨process, call, capture, found, stage, completes⟩⟩ :=
    (step_cases taken).1.counts
  · exact ⟨requested, Nat.le_of_eq same.symm⟩
  · refine ⟨requested, ?_⟩
    rw [completes]
    exact (sound.carried process call capture.revision found (by rw [stage]; rfl)).1

theorem Sound.run_grows (sound : state.Sound)
    (executed : execute State.step state steps = some final) :
    state.run.backup.requestedCount ≤ final.run.backup.requestedCount ∧
      state.run.backup.acknowledgedCount ≤ final.run.backup.acknowledgedCount := by
  have preserved : ∀ (middle : State) (head : Step) (next : State),
      (middle.Sound ∧ state.run.backup.requestedCount ≤ middle.run.backup.requestedCount ∧
        state.run.backup.acknowledgedCount ≤ middle.run.backup.acknowledgedCount) →
      middle.step head = some next →
      next.Sound ∧ state.run.backup.requestedCount ≤ next.run.backup.requestedCount ∧
        state.run.backup.acknowledgedCount ≤ next.run.backup.acknowledgedCount := by
    intro middle head next holds taken
    obtain ⟨requested, acknowledged⟩ := holds.1.grows taken
    exact ⟨holds.1.step taken, Nat.le_trans holds.2.1 requested,
      Nat.le_trans holds.2.2 acknowledged⟩
  exact (execute_invariant preserved ⟨sound, Nat.le_refl _, Nat.le_refl _⟩ executed).2

/-! ### A request after the read -/

/-- A publication past its read that is going to acknowledge `revision`, or nothing. -/
def Carries (process revision : Nat) (state : State) : Prop :=
  ∃ call, state.processes process = some call ∧ call.stage.beforeRead = false ∧
    ∀ carried, call.stage.revision = some carried → carried = revision

theorem Carries.step {process revision : Nat} (carries : state.Carries process revision)
    (taken : state.step taking = some next) : next.Carries process revision := by
  obtain ⟨call, found, isRead, only⟩ := carries
  obtain ⟨_, calls⟩ := step_cases taken
  cases calls with
  | keeps processes _ => exact ⟨call, processes ▸ found, isRead, only⟩
  | restarts processes =>
      refine ⟨_, by rw [processes, found, Option.map_some], rfl, fun carried isCarried => ?_⟩
      simp [Stage.revision] at isCarried
  | moves moving before stage processes moved =>
      by_cases same : process = moving
      · subst same
        refine ⟨_, by rw [processes, Function.update_self], ?_⟩
        rw [found, Option.map_some] at moved
        generalize call.stage = earlier at moved isRead only
        generalize next.holder = holder at moved
        cases moved with
        | locked free => simp [Stage.beforeRead] at isRead
        | read attempt node => simp [Stage.beforeRead] at isRead
        | onward _ isRead carries =>
            refine ⟨isRead, fun carried isCarried => ?_⟩
            obtain dropped | kept := carries
            · simp [dropped] at isCarried
            · exact only carried (kept ▸ isCarried)
        | ended released isRead _ =>
            refine ⟨isRead, fun carried isCarried => ?_⟩
            simp [Stage.holdsLock_of_revision isCarried] at released
      · refine ⟨call, ?_, isRead, only⟩
        rw [processes, Function.update_of_ne same]
        exact found

theorem Carries.run {process revision : Nat} (carries : state.Carries process revision)
    (executed : execute State.step state steps = some final) : final.Carries process revision :=
  execute_invariant (fun _ _ _ holds taken => Carries.step holds taken) carries executed

theorem carries_of_read {process : Nat} {attempt : String} {node : Option String}
    (taken : state.step (.read process attempt node) = some next) :
    next.Carries process next.run.backup.requestedCount := by
  obtain ⟨call, found, taken⟩ := Option.bind_eq_some_iff.mp taken
  split at taken
  · obtain rfl := Option.some.inj taken
    refine ⟨_, Function.update_self .., rfl, fun carried isCarried => ?_⟩
    exact (Option.some.inj isCarried).symm
  · simp at taken

theorem complete_of_carries {process revision : Nat} (carries : state.Carries process revision)
    (taken : state.step (.complete process) = some next) :
    next.run.backup = completeRequest revision state.run.backup := by
  obtain ⟨carrying, present, _, only⟩ := carries
  obtain ⟨call, found, taken⟩ := Option.bind_eq_some_iff.mp taken
  obtain rfl := Option.some.inj (present.symm.trans found)
  split at taken
  · rename_i capture isAcknowledged
    obtain rfl := Option.some.inj taken
    rw [← only capture.revision (by rw [isAcknowledged]; rfl)]
    rfl
  · simp at taken

/-! ### When a run is ready -/

/-- A run is ready only when no request is outstanding. -/
def Settled (state : State) : Prop :=
  state.run.backup.status = some .ready → state.run.backup.requested = false

/-- A publication of a snapshot that is not on demand commits while a request is
outstanding. -/
def Overtakes (state : State) : Step → Prop
  | .commit process backupId uploaded reads => ∃ call capture snapshot run,
      state.processes process = some call ∧ call.stage = .captured capture snapshot ∧
        snapshot.alreadyPublished = false ∧ snapshot.onDemand = false ∧
        commit capture snapshot backupId uploaded reads state.run = .ok run ∧
        state.run.backup.requested = true
  | _ => False

theorem settled_step (settled : state.Settled) (clear : ¬ state.Overtakes taking)
    (taken : state.step taking = some next) : next.Settled := by
  intro ready
  have writes := (step_cases taken).1
  generalize backupIs : next.run.backup = backup at writes ready ⊢
  cases writes with
  | keeps => exact settled ready
  | requests made => simp [(Backup.request_of_ok made).2.2] at ready
  | records _ patch =>
      rw [Backup.updateStatus_requested]
      exact settled (Backup.updateStatus_ready ready)
  | reports pointer honest =>
      rw [Backup.extend_requested]
      cases outstanding : state.run.backup.requested
      · rfl
      · simp [honest, outstanding] at ready
  | @commits process call capture snapshot backupId uploaded reads found stage isNew run committed =>
      rw [Backup.extend_requested]
      cases outstanding : state.run.backup.requested
      · rfl
      · cases onDemand : snapshot.onDemand
        · exact absurd ⟨call, capture, snapshot, run, found, stage, isNew, onDemand, committed,
            outstanding⟩ clear
        · simp [committedPointer, onDemand] at ready
  | completes found stage => exact Backup.completeRequest_ready ready


theorem not_settled_of_overtakes (overtakes : state.Overtakes taking)
    (taken : state.step taking = some next) : ¬ next.Settled := by
  cases taking with
  | commit process backupId uploaded reads =>
      obtain ⟨call, capture, snapshot, run, found, stage, isNew, onDemand, committed,
        outstanding⟩ := overtakes
      have moved := commit_backup committed
      have reached : next.run = run := by
        simp only [State.step, found, Option.bind_eq_bind, Option.bind_some, stage, isNew,
          Bool.false_eq_true, if_false, committed, Option.some.injEq] at taken
        rw [← taken]
        rfl
      intro settled
      have isSettled := settled (by rw [reached, moved]; simp [committedPointer, onDemand])
      rw [reached, moved, Backup.extend_requested, outstanding] at isSettled
      simp at isSettled
  | _ => exact overtakes.elim

end State

/-- An outstanding request of a run that is not ready makes it due, whatever its node
reported. -/
theorem publicationDue_of_requested {run : Run} {sinceLastMs defaultIntervalMs : Int}
    {failures : Nat} (isolated : isProtected run = true)
    (resumable : run.sessionId.isSome = true ∨ run.storage.mode = some onDemandMode)
    (outstanding : run.backup.requested = true) (notReady : run.backup.status ≠ some .ready)
    (waited : max 5000 (retryDelayMs failures) ≤ sinceLastMs) :
    publicationDue run sinceLastMs defaultIntervalMs failures = true := by
  have resumes : (run.sessionId.isSome || decide (run.storage.mode = some onDemandMode)) = true := by
    simpa using resumable
  simp [publicationDue, isolated, resumes, outstanding, notReady, waited]

/-- What the demand of a run keeps over a run of steps. -/
structure DemandSafe (initial : State) (steps : List Step) : Prop where
  /-- No request is acknowledged before it is made. -/
  ordered : ∀ before after state, steps = before ++ after →
    execute State.step initial before = some state →
    state.run.backup.acknowledgedCount ≤ state.run.backup.requestedCount
  /-- Both revisions only grow. -/
  grows : ∀ before between after earlier later, steps = before ++ between ++ after →
    execute State.step initial before = some earlier →
    execute State.step earlier between = some later →
    earlier.run.backup.requestedCount ≤ later.run.backup.requestedCount ∧
      earlier.run.backup.acknowledgedCount ≤ later.run.backup.acknowledgedCount
  /-- A publication does not acknowledge a request made after its capture, or since it
  read the run before it asked for the capture. -/
  late : ∀ before process attempt node between rest after capturing asked asking completing
      completed,
    steps = before ++ .read process attempt node :: (between ++ .request :: (rest ++
      .complete process :: after)) →
    execute State.step initial (before ++ [.read process attempt node]) = some capturing →
    execute State.step capturing between = some asked →
    request asked.run.backup = .ok asking →
    execute State.step asked (.request :: rest) = some completing →
    completing.step (.complete process) = some completed →
    completed.run.backup.acknowledgedCount < asking.requestedCount ∧
      completed.run.backup.requested = true ∧ completed.run.backup.status = some .pending
  /-- A run is ready only when no request is outstanding. -/
  settled : ∀ before after state, steps = before ++ after →
    execute State.step initial before = some state → state.Settled
  /-- An outstanding request is due. -/
  due : ∀ before after state sinceLastMs defaultIntervalMs failures, steps = before ++ after →
    execute State.step initial before = some state → isProtected state.run = true →
    (state.run.sessionId.isSome = true ∨ state.run.storage.mode = some onDemandMode) →
    state.run.backup.requested = true → max 5000 (retryDelayMs failures) ≤ sinceLastMs →
    publicationDue state.run sinceLastMs defaultIntervalMs failures = true

theorem late_request {initial capturing asked completing completed : State}
    {before between rest : List Step} {process : Nat} {attempt : String} {node : Option String}
    {asking : Backup} (fresh : initial.Fresh)
    (reached : execute State.step initial (before ++ [.read process attempt node]) = some capturing)
    (waited : execute State.step capturing between = some asked)
    (made : request asked.run.backup = .ok asking)
    (ran : execute State.step asked (.request :: rest) = some completing)
    (taken : completing.step (.complete process) = some completed) :
    completed.run.backup.acknowledgedCount < asking.requestedCount ∧
      completed.run.backup.requested = true ∧ completed.run.backup.status = some .pending := by
  obtain ⟨locked, first, last⟩ := execute_append.mp reached
  obtain ⟨read, reading, isRead⟩ := execute_cons.mp last
  obtain rfl := Option.some.inj isRead
  have carries := State.carries_of_read reading
  have soundRead := fresh.sound.run reached
  have soundAsked := soundRead.run waited
  have backup := State.complete_of_carries ((carries.run waited).run ran) taken
  have waitedGrows := (soundRead.run_grows waited).1
  obtain ⟨afterRequest, requested, ran⟩ := execute_cons.mp ran
  have isAsking : afterRequest.run.backup = asking := by
    simp only [State.step, made, Option.some.injEq] at requested
    rw [← requested]
    rfl
  have askedGrows := ((soundAsked.step requested).run_grows ran).1
  have counted := (Backup.request_of_ok made).1
  rw [isAsking] at askedGrows
  have later : completing.run.backup.requestedCount > read.run.backup.requestedCount := by omega
  rw [backup]
  refine ⟨?_, ?_, ?_⟩
  · simp only [Backup.completeRequest_acknowledgedCount]
    omega
  · simpa [Backup.requested] using later
  · simp [completeRequest, later]

theorem State.Settled.run {initial final : State} {steps : List Step} (settled : initial.Settled)
    (throughout : Throughout State.step (fun state step => ¬ state.Overtakes step) initial steps)
    (executed : execute State.step initial steps = some final) : final.Settled :=
  execute_invariant_where (fun _ _ _ holds clear taken => State.settled_step holds clear taken)
    settled throughout executed

/-- The demand of a run is kept over every interleaving exactly when no publication of
a snapshot that is not on demand commits while a request is outstanding. -/
theorem publication_demand_safe {initial final : State} {steps : List Step}
    (fresh : initial.Fresh) (executed : execute State.step initial steps = some final) :
    DemandSafe initial steps ↔
      Throughout State.step (fun state step => ¬ state.Overtakes step) initial steps := by
  constructor
  · intro safe
    refine throughout_iff.mpr fun before head after middle split reached overtakes => ?_
    rw [split] at executed
    obtain ⟨reachedAgain, first, rest⟩ := execute_append.mp executed
    obtain rfl := Option.some.inj (reached.symm.trans first)
    obtain ⟨next, taken, _⟩ := execute_cons.mp rest
    refine State.not_settled_of_overtakes overtakes taken
      (safe.settled (before ++ [head]) after next (by rw [split]; simp) ?_)
    exact execute_append.mpr ⟨middle, reached, execute_cons.mpr ⟨next, taken, rfl⟩⟩
  · intro throughout
    have settled : ∀ before after state, steps = before ++ after →
        execute State.step initial before = some state → state.Settled := by
      intro before after state split reached
      refine State.Settled.run (fun ready => ?_) (throughout_append.mp (split ▸ throughout)).1 reached
      simp [Backup.requested, Backup.requestedCount, Backup.acknowledgedCount, fresh.1, fresh.2.1]
    refine ⟨?_, ?_, ?_, settled, ?_⟩
    · exact fun before after state split reached => (fresh.sound.run reached).ordered
    · exact fun before between after earlier later split reached ran =>
        (fresh.sound.run reached).run_grows ran
    · intro before process attempt node between rest after capturing asked asking completing
        completed split reached waited made ran taken
      exact late_request fresh reached waited made ran taken
    · intro before after state sinceLastMs defaultIntervalMs failures split reached isolated
        resumable outstanding waited
      refine publicationDue_of_requested isolated resumable outstanding (fun ready => ?_) waited
      rw [settled before after state split reached ready] at outstanding
      simp at outstanding

/-- A request, and the publication of a snapshot that is not on demand after it. -/
def overtaken : List Step :=
  [.request, .begin 0 false false false, .lock 0, .read 0 "attempt" none,
    .capture 0 ⟨"snapshot", false, false, none, none⟩,
    .commit 0 "backup" 0 ⟨"attempt", none, none, .ok ()⟩]

theorem ready_while_requested :
    ¬ ∀ (initial final : State) (steps : List Step), initial.Fresh →
      execute State.step initial steps = some final → DemandSafe initial steps := by
  intro claimed
  let initial : State := { run := { id := "run" } }
  have safe := claimed initial _ overtaken ⟨rfl, rfl, rfl, fun _ => rfl⟩ rfl
  exact absurd (safe.settled overtaken [] _ (List.append_nil _).symm rfl rfl) (by decide)

/-- A run that a request, and its publication on demand, bring to ready. -/
theorem publication_demand_safe_on_demand :
    DemandSafe { run := { id := "run" } } [.request, .begin 0 true false true, .lock 0,
      .read 0 "attempt" none, .capture 0 ⟨"snapshot", false, true, some "grant", none⟩,
      .commit 0 "backup" 0 ⟨"attempt", none, some ("run", none), .ok ()⟩, .acknowledge 0,
      .complete 0, .finish 0] := by
  refine (publication_demand_safe ⟨rfl, rfl, rfl, fun _ => rfl⟩ rfl).mpr ?_
  iterate 5
    refine ⟨id, fun _ taken => ?_⟩
    obtain rfl := Option.some.inj taken
  refine ⟨?_, fun _ _ => throughout_of_forall (by simp [State.Overtakes])⟩
  rintro ⟨call, capture, snapshot, run, found, stage, _, onDemand, _⟩
  obtain rfl := Option.some.inj found
  obtain ⟨_, rfl⟩ := Stage.captured.inj stage
  simp at onDemand

end Cairn.Nodes.Publication

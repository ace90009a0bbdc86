import Mathlib.Algebra.Order.Ring.Int
import Mathlib.Data.List.Basic
import Cairn.Error

/-!
Owns the model of the run document and its restart checkpoint (`run_status.rs`,
`worker/checkpoint.rs`, `run_retry.rs`, `run_limits.rs`), the grants an agent runs
with (`service.rs`), and the patches the worker writes to a run.

A field that is read with a conversion holds what the conversion returns. The clock is
an argument.

Does not own the table of runs.
-/

set_option autoImplicit false

namespace Cairn.Worker

/-! ### Agents -/

/-- `Provider`. -/
inductive Provider where
  | codex
  | claude
deriving DecidableEq, Repr

/-- A granted scope, everything if `none`. -/
abbrev Scope := Option (List String)

/-- `allowed`. -/
def allowed (scope : Scope) (id : String) : Bool := scope.all fun ids => ids.contains id

/-- `within`. -/
def within (granted current : Scope) : Bool :=
  match current, granted with
  | none, _ => true
  | some _, none => false
  | some current, some granted => granted.all fun item => current.contains item

/-- What `policy` reads of an agent. -/
structure Policy where
  projects : Scope := none
  skills : Scope := none
  mcps : Scope := none
  mcpTools : List (String × Scope) := []
  github : Bool := true
  sandbox : String := "yolo"
  nodes : Scope := some ["local"]
deriving DecidableEq, Repr

/-- `sandbox_rank`. -/
def sandboxRank (sandbox : String) : Nat :=
  if sandbox = "yolo" then 2 else if sandbox = "workspace-write" then 1 else 0

/-- `snapshot.agent`, and a document of `agents`. -/
structure Agent where
  id : String
  provider : Provider := .codex
  model : String := ""
  reasoning : String := ""
  timeoutMinutes : Option Int := none
  policy : Policy := {}
deriving DecidableEq, Repr

/-- `covers`. -/
def covers (current granted : Agent) : Bool :=
  let current := current.policy
  let granted := granted.policy
  let scopes := within granted.projects current.projects && within granted.skills current.skills &&
    within granted.mcps current.mcps
  let tools := current.mcpTools.all fun tool =>
    within ((granted.mcpTools.lookup tool.1).getD none) tool.2
  let github := current.github || !granted.github
  let sandbox := sandboxRank granted.sandbox ≤ sandboxRank current.sandbox
  scopes && tools && github && sandbox

/-- `require_node`. -/
def requireNode (agent : Agent) : Except Error Unit :=
  if agent.policy.nodes = some [] then
    .error (Error.forbidden "This agent has no authorized execution node.")
  else .ok ()

/-- `budget_ms`. -/
def budgetMs (agent : Agent) : Option Int :=
  (agent.timeoutMinutes.filter fun minutes => 0 < minutes).map fun minutes => minutes * 60000

/-! ### Runs -/

/-- `RunStatus`. -/
inductive RunStatus where
  | queued
  | running
  | succeeded
  | failed
  | cancelled
  | interrupted
deriving DecidableEq, Repr

namespace RunStatus

/-- `is_active`. -/
def isActive : RunStatus → Bool
  | queued | running => true
  | _ => false

/-- `is_resumable`. -/
def isResumable : RunStatus → Bool
  | failed | interrupted | cancelled => true
  | _ => false

end RunStatus

/-- An uploaded chat file. -/
structure Attachment where
  id : String
  name : String := ""
  size : Option Nat := none
deriving DecidableEq, Repr

/-- `ChatExecution`. -/
structure ChatExecution where
  messageId : String
  text : String
  attachments : List Attachment
  recovery : Bool := false
  context : Option String := none
deriving DecidableEq, Repr

/-- `Cause`, without its kind. -/
structure Cause where
  message : String
deriving DecidableEq, Repr

/-- `Retry`. -/
structure Retry where
  attempt : Nat
  limit : Nat
  nextAttemptAt : Option Int
  cause : Cause
deriving DecidableEq, Repr

/-- `MAX_ATTEMPTS`. -/
def maxAttempts : Nat := 3

/-- `Retry::next`, given the jitter it draws. -/
def Retry.next (previous : Option Retry) (cause : Cause) (at_ jitter : Int) : Option Retry :=
  let attempt := (previous.map Retry.attempt).getD 0
  if maxAttempts ≤ attempt then none
  else some ⟨attempt + 1, maxAttempts, some (at_ + 30000 * 2 ^ attempt + jitter), cause⟩

/-- The run document. -/
structure Run where
  id : String
  taskId : String
  status : RunStatus := .queued
  agent : Agent
  projects : List String := []
  createdAt : Int := 0
  startedAt : Option Int := none
  finishedAt : Option Int := none
  summary : String := ""
  error : Option String := none
  outcome : Option String := none
  cancelRequestedAt : Option Int := none
  recoveryPending : Bool := false
  resumeAvailable : Bool := false
  workspaceCleanedAt : Option Int := none
  sessionId : Option String := none
  retry : Option Retry := none
  accountId : Option String := none
  accountWaitReason : Option String := none
  moveRequest : Bool := false
  chatExecution : Option ChatExecution := none
deriving DecidableEq, Repr

/-- `Retry::waiting`. -/
def Run.waiting (run : Run) (at_ : Int) : Bool :=
  (run.retry.bind Retry.nextAttemptAt).any fun next => at_ < next

/-! ### Checkpoints -/

/-- `Settled`. -/
structure Settled where
  status : RunStatus
  summary : String := ""
  error : Option String := none
  finishedAt : Option Int := none
deriving DecidableEq, Repr

/-- `RunCheckpoint`. -/
structure RunCheckpoint where
  launched : Bool := false
  remainingMs : Option (Option Int) := none
  prepared : Bool := false
  isolated : Bool := false
  firecracker : Bool := false
  runnerId : Option String := none
  completed : Bool := false
  retryCause : Option Cause := none
  lastMessage : String := ""
  controllerRecoveries : Nat := 0
  settled : Option Settled := none
  freshSession : Bool := false
deriving DecidableEq, Repr

/-- `RunCheckpoint::fresh`. -/
def RunCheckpoint.fresh (budget : Option Int) : RunCheckpoint where
  remainingMs := some budget

/-- `RunCheckpoint::exhausted`. -/
def RunCheckpoint.exhausted : RunCheckpoint where
  remainingMs := some (some 0)

/-- `Settled::from_run`. -/
def Settled.fromRun (run : Run) : Settled where
  status := run.status
  summary := run.summary
  finishedAt := run.finishedAt

/-- `Settled::failure`. -/
def Settled.failure (status : RunStatus) (summary : String) (now : Int) : Settled where
  status := status
  summary := summary
  error := some summary
  finishedAt := some now

/-! ### Patches -/

/-- The patch `Settled::run_patch` makes. -/
def Settled.patch (settled : Settled) (run : Run) : Run :=
  { run with
    status := settled.status
    summary := settled.summary
    error := settled.error.or run.error
    finishedAt := settled.finishedAt
    accountWaitReason := none
    recoveryPending := false
    retry := if settled.status = .cancelled then none else run.retry }

/-- `cancelled_recovery`. -/
def cancelledRecovery (now : Int) (run : Run) : Run :=
  { run with
    status := .cancelled
    finishedAt := some now
    accountWaitReason := none
    recoveryPending := false
    retry := none }

/-- How `recover` settles a turn that completed before a restart. -/
def completedRecovery (checkpoint : RunCheckpoint) (now : Int) (run : Run) : Run :=
  { run with
    status := .succeeded
    finishedAt := some now
    resumeAvailable := false
    accountWaitReason := none
    recoveryPending := false
    summary :=
      if checkpoint.lastMessage = "" then
        "Conversation completed before worker restart. See Activity for the recorded result."
      else checkpoint.lastMessage }

/-- How a run goes back to recovery. -/
def requeued (reason : Option String) (run : Run) : Run :=
  { run with
    status := .queued
    recoveryPending := true
    finishedAt := none
    accountWaitReason := reason }

end Cairn.Worker

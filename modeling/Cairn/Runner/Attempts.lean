import Cairn.Error
import Cairn.Library.HashMaps
import Cairn.Library.Steps

/-!
Owns the model of the VM controller's attempts: `start`, `stop`, `Execution::run` and
`enforce_limits` of `runner/broker.rs`, and `renew_lease` of `runner/routes.rs`.

A step is what one task does between two of its awaits, so that the steps of all calls, timers
and executions interleave; a call may also be dropped at any of them. The plan file, the
reservation of a VM slot, the result of the VM and what the disk limits of the timer decide are
inputs of the steps. Every file operation may fail.

Does not own what a VM does, project imports or the contents of logs.
-/

set_option autoImplicit false

namespace Cairn.Runner

open Cairn.Library.HashMaps

/-- `CONTROLLER_INTERRUPTED`. -/
def controllerInterrupted : Int := 75

/-- `CONTROLLER_FAILED`. -/
def controllerFailed : Int := 70

/-- `MAX_ATTEMPT_MS`. -/
def maxAttemptMs : Int := 13 * 3600000

/-- `MAX_LEASE_MS`. -/
def maxLeaseMs : Nat := 300000

/-! ### Plans -/

/-- The field `expires` of a plan. -/
inductive Expires where
  | missing
  | unlimited
  | at (milliseconds : Int)
  | other
deriving DecidableEq, Repr

/-- `Plan`: what the life of an attempt reads of it. `named` is what `uuid` says of its run and
`scope` what `validate` says of its imports, workspace and result. -/
structure Plan where
  id : String
  runId : String
  expires : Expires
  nodeLeaseRequired : Bool
  named : Except Error Unit
  scope : Except Error Unit

namespace Plan

/-- `Plan::deadline`. -/
def deadline (plan : Plan) : Option Int :=
  match plan.expires with
  | .at milliseconds => some milliseconds
  | _ => none

/-- `valid_expiry`. -/
def validExpiry (now : Int) : Expires → Bool
  | .unlimited => true
  | .at milliseconds => milliseconds > now && milliseconds ≤ now + maxAttemptMs
  | .missing => false
  | .other => false

/-- `validate`. -/
def validate (plan : Plan) (id : String) (now : Int) : Except Error Unit := do
  plan.named
  if plan.id ≠ id ∨ validExpiry now plan.expires = false then
    throw (.bad "Invalid or expired execution plan.")
  plan.scope

end Plan

/-! ### Registered attempts -/

/-- `Execution::run`: where the execution of an attempt stands. -/
inductive Execution where
  | spawned
  | running
  | returned (result : Except Error Int)
  | coded (code : Int)
  | recorded (code : Int)

/-- The reservation is still with the execution. -/
def Execution.executing : Execution → Bool
  | .spawned => true
  | .running => true
  | _ => false

/-- `enforce_limits`: where the timer of an attempt stands. `deciding`, `storing` and
`cancelling` are one stretch without an await. -/
inductive Timer where
  | waiting
  | reading
  | deciding (lost due : Bool)
  | storing (lost : Bool)
  | cancelling (lost : Bool)
  | limiting
  | ended
deriving DecidableEq, Repr

/-- `Attempt`, with its execution and its timer. `lapsed` records that the timer has cancelled
the attempt for its lease while the VM was still with it. -/
structure Attempt where
  plan : Plan
  slot : Nat
  cancelled : Bool
  execution : Execution
  timer : Timer
  leaseExpired : Bool
  lapsed : Bool

namespace Attempt

/-- An attempt that has just been registered. -/
def spawned (plan : Plan) (slot : Nat) : Attempt where
  plan := plan
  slot := slot
  cancelled := false
  execution := .spawned
  timer := .waiting
  leaseExpired := false
  lapsed := false

/-- `stop.is_cancelled()`: by itself or with the controller. -/
def isCancelled (stopping : Bool) (attempt : Attempt) : Bool := attempt.cancelled || stopping

end Attempt

/-- `exit_code`. -/
def exitCode (result : Except Error Int) (leaseExpired : Bool) : Int :=
  if leaseExpired then controllerInterrupted
  else match result with
    | .error error =>
      if error.status = 503 then controllerInterrupted
      else if error.status = 500 then controllerFailed
      else 1
    | .ok code => code

/-- One step of `Execution::run` before the attempt is removed. -/
inductive ExecutionStep where
  | launch
  | finish (result : Except Error Int) (cancels : Bool)
  | code
  | record (written : Bool)

namespace Attempt

/-- `timer.abort()`: a timer that is at an await ends; one that is not goes on to its next. -/
def abort (timer : Timer) : Timer :=
  match timer with
  | .waiting => .ended
  | .reading => .ended
  | .limiting => .ended
  | timer => timer

/-- `Execution::run`, with the first and the last part of `Reservation::execute`: a cancelled
attempt is not booted, and the token may be cancelled once the VM has exited. -/
def execute (stopping : Bool) (attempt : Attempt) (step : ExecutionStep) : Option Attempt :=
  match attempt.execution, step with
  | .spawned, .launch =>
    if attempt.isCancelled stopping then some { attempt with execution := .returned (.ok 143) }
    else some { attempt with execution := .running }
  | .running, .finish result cancels =>
    some { attempt with
      execution := .returned result
      cancelled := attempt.cancelled || cancels }
  | .returned result, .code =>
    some { attempt with
      execution := .coded (exitCode result attempt.leaseExpired)
      timer := abort attempt.timer }
  | .coded code, .record _ => some { attempt with execution := .recorded code }
  | _, _ => none

/-- One step of `enforce_limits`. `leaseValid` and `now` are what it reads; `fails` is whether
resolving the disk or enforcing its limits cancels the attempt. -/
def enforce (stopping leaseValid : Bool) (now : Int) (fails : Bool) (attempt : Attempt) :
    Option Attempt :=
  match attempt.timer with
  | .waiting =>
    some { attempt with timer := if attempt.isCancelled stopping then .ended else .reading }
  | .reading =>
    let lost := attempt.plan.nodeLeaseRequired && !leaseValid
    let due := attempt.plan.deadline.any fun deadline => now ≥ deadline
    some { attempt with timer := .deciding lost due }
  | .deciding lost due =>
    if due || lost then
      some { attempt with timer := if attempt.isCancelled stopping then .ended else .storing lost }
    else some { attempt with timer := .limiting }
  | .storing lost => some { attempt with leaseExpired := lost, timer := .cancelling lost }
  | .cancelling lost =>
    some { attempt with
      cancelled := true
      timer := .ended
      lapsed := attempt.lapsed || (lost && attempt.execution.executing) }
  | .limiting =>
    if fails then some { attempt with cancelled := true, timer := .ended }
    else some { attempt with timer := .waiting }
  | .ended => none

end Attempt

/-! ### Calls -/

/-- Where a call of `start` stands. -/
inductive Phase where
  | arrived
  | entered
  | fresh
  | loaded (plan : Plan)
  | leased (plan : Plan)
  | resolved (plan : Plan)
  | looked (plan : Plan)
  | reserved (plan : Plan) (slot : Nat)
  | writing (plan : Plan) (slot : Nat)
  | ended (result : Except Error Unit)

/-- The slot a call holds. -/
def Phase.slot? : Phase → Option Nat
  | .reserved _ slot => some slot
  | .writing _ slot => some slot
  | _ => none

/-- A call of `start`. -/
structure Call where
  id : String
  phase : Phase

/-! ### The controller -/

/-- `Broker`, the files it reads and writes, and its calls under way. `guard` is the call of
`start` that keeps the active attempts locked; `earlier` are the exits recorded by controllers
before this one; `exits`, `taken`, `released` and `registered` are what has happened so far. -/
structure Broker where
  active : HashMap String Attempt
  guard : Option Nat
  calls : List Call
  stopped : List String
  earlier : List String
  exits : List (String × Int)
  leases : HashMap String Nat
  renewals : List (String × Nat)
  bootMs : Nat
  now : Int
  stopping : Bool
  taken : Nat
  released : List Nat
  registered : List (Nat × String)

namespace Broker

/-- A controller that has just been opened, over the files of those before it. -/
def opened (stopped earlier : List String) (bootMs : Nat) (now : Int) : Broker where
  active := ∅
  guard := none
  calls := []
  stopped := stopped
  earlier := earlier
  exits := []
  leases := ∅
  renewals := []
  bootMs := bootMs
  now := now
  stopping := false
  taken := 0
  released := []
  registered := []

/-- `has_stopped`. -/
def hasStopped (broker : Broker) (id : String) : Bool :=
  id ∈ broker.stopped || id ∈ broker.earlier || broker.exits.any fun exit => exit.1 = id

/-- `run_is_active`. -/
def runIsActive (broker : Broker) (run : String) : Bool :=
  broker.active.entries.any fun entry => entry.2.plan.runId = run

/-- `lease_valid`. -/
def leaseValid (broker : Broker) (id : String) : Bool :=
  (broker.leases.lookup id).any fun deadline => deadline > broker.bootMs

/-- A call goes on. -/
def goTo (call : Nat) (phase : Phase) (broker : Broker) : Broker :=
  { broker with calls := broker.calls.modify call fun entry => { entry with phase := phase } }

/-- A call returns, and what it held is dropped. -/
def close (call : Nat) (result : Except Error Unit) (slot : Option Nat) (broker : Broker) : Broker :=
  { broker.goTo call (.ended result) with
    guard := if broker.guard = some call then none else broker.guard
    released := slot.toList ++ broker.released }

/-- The last lines of `start`: the attempt is inserted and its execution spawned. -/
def register (call : Nat) (id : String) (plan : Plan) (slot : Nat) (broker : Broker) : Broker :=
  { broker.goTo call (.ended (.ok ())) with
    guard := none
    active := broker.active.insert id (Attempt.spawned plan slot)
    registered := (call, id) :: broker.registered }

/-- What a step of `start` gets from outside. -/
inductive Answer where
  | nothing
  | plan (loaded : Except Error Plan)
  | outcome (result : Except Error Unit)

/-- `start` under the lock, after its reservation: what it does with the attempt. -/
def settle (call : Nat) (id : String) (plan : Plan) (slot : Nat) (broker : Broker) : Broker :=
  if (broker.active.lookup id).isSome then broker.close call (.ok ()) (some slot)
  else if broker.stopping || broker.hasStopped id then
    broker.close call (.error (.conflict "This execution attempt has stopped.")) (some slot)
  else match plan.validate id broker.now with
    | .error error => broker.close call (.error error) (some slot)
    | .ok _ =>
      if broker.runIsActive plan.runId then
        broker.close call (.error (.conflict "This workspace already has an active attempt."))
          (some slot)
      else { broker.goTo call (.writing plan slot) with guard := some call }

/-- One step of a call of `start`, from one await to the next. -/
def advance (call : Nat) (answer : Answer) (broker : Broker) : Option Broker :=
  match broker.calls[call]? with
  | none => none
  | some ⟨id, phase⟩ =>
    match phase, answer with
    | .arrived, .nothing =>
      if broker.guard.isSome then none
      else if (broker.active.lookup id).isSome then some (broker.close call (.ok ()) none)
      else some (broker.goTo call .entered)
    | .entered, .nothing =>
      if broker.hasStopped id then
        some (broker.close call
          (.error (.conflict "This execution attempt has already stopped.")) none)
      else some (broker.goTo call .fresh)
    | .fresh, .plan (.error error) => some (broker.close call (.error error) none)
    | .fresh, .plan (.ok plan) =>
      match plan.validate id broker.now with
      | .error error => some (broker.close call (.error error) none)
      | .ok _ => some (broker.goTo call (.loaded plan))
    | .loaded plan, .nothing =>
      if plan.nodeLeaseRequired && !broker.leaseValid id then
        some (broker.close call
          (.error (.conflict "Node execution lease is missing or expired.")) none)
      else some (broker.goTo call (.leased plan))
    | .leased _, .outcome (.error error) => some (broker.close call (.error error) none)
    | .leased plan, .outcome (.ok _) => some (broker.goTo call (.resolved plan))
    | .resolved plan, .nothing =>
      if broker.guard.isSome then none
      else if broker.runIsActive plan.runId then
        some (broker.close call
          (.error (.conflict "This workspace already has an active attempt.")) none)
      else some (broker.goTo call (.looked plan))
    | .looked _, .outcome (.error error) => some (broker.close call (.error error) none)
    | .looked plan, .outcome (.ok _) =>
      some { broker.goTo call (.reserved plan broker.taken) with taken := broker.taken + 1 }
    | .reserved plan slot, .nothing =>
      if broker.guard.isSome then none else some (broker.settle call id plan slot)
    | .writing _ slot, .outcome (.error error) =>
      some (broker.close call (.error error) (some slot))
    | .writing plan slot, .outcome (.ok _) => some (broker.register call id plan slot)
    | _, _ => none

/-- A call of `start` is dropped with what it holds. -/
def abandon (call : Nat) (broker : Broker) : Option Broker :=
  match broker.calls[call]? with
  | none => none
  | some ⟨_, .ended _⟩ => none
  | some ⟨_, phase⟩ =>
    some (broker.close call (.error (.unavailable "The request was dropped.")) phase.slot?)

/-- `renew_lease` up to its wait for the leases. -/
def requestRenewal (id : String) (remaining : Nat) (broker : Broker) : Except Error Broker := do
  if ¬ (0 < remaining ∧ remaining ≤ maxLeaseMs) then throw (.bad "Invalid lease duration.")
  if broker.hasStopped id then throw (.conflict "Attempt stopped.")
  return { broker with renewals := (id, remaining) :: broker.renewals }

/-- An attempt that is registered goes on. -/
def put (id : String) (attempt : Attempt) (broker : Broker) : Broker :=
  { broker with active := broker.active.insert id attempt }

/-- What an execution's step leaves outside its attempt: the reservation is given back when the
VM has returned, and the exit is recorded if its file can be written. -/
def accounted (id : String) (step : ExecutionStep) (before after : Attempt) (broker : Broker) :
    Broker :=
  let broker := broker.put id after
  match step, after.execution with
  | .launch, .returned _ => { broker with released := before.slot :: broker.released }
  | .finish _ _, _ => { broker with released := before.slot :: broker.released }
  | .record true, .recorded code => { broker with exits := (id, code) :: broker.exits }
  | _, _ => broker

/-- What can happen. -/
inductive Action where
  | begin (id : String)
  | advance (call : Nat) (answer : Answer)
  | abandon (call : Nat)
  | markStopped (id : String)
  | lookUpStopped (id : String)
  | requestRenewal (id : String) (remaining : Nat)
  | storeRenewal (id : String) (remaining : Nat)
  | pass (elapsed : Nat) (now : Int)
  | shutDown
  | execute (id : String) (step : ExecutionStep)
  | remove (id : String)
  | enforce (id : String) (fails : Bool)

/-- One step of the controller. -/
def step (broker : Broker) : Action → Option Broker
  | .begin id => some { broker with calls := broker.calls ++ [⟨id, .arrived⟩] }
  | .advance call answer => broker.advance call answer
  | .abandon call => broker.abandon call
  | .markStopped id => some { broker with stopped := id :: broker.stopped }
  | .lookUpStopped id =>
    if broker.guard.isSome ∨ id ∉ broker.stopped then none
    else match broker.active.lookup id with
      | none => some broker
      | some attempt => some (broker.put id { attempt with cancelled := true })
  | .requestRenewal id remaining =>
    match broker.requestRenewal id remaining with
    | .error _ => some broker
    | .ok next => some next
  | .storeRenewal id remaining =>
    if (id, remaining) ∉ broker.renewals then none
    else some { broker with
      renewals := broker.renewals.erase (id, remaining)
      leases := broker.leases.insert id (broker.bootMs + remaining) }
  | .pass elapsed now => some { broker with bootMs := broker.bootMs + elapsed, now := now }
  | .shutDown => some { broker with stopping := true }
  | .execute id step => do
    let attempt ← broker.active.lookup id
    let next ← attempt.execute broker.stopping step
    some (broker.accounted id step attempt next)
  | .remove id =>
    if broker.guard.isSome then none
    else match broker.active.lookup id with
      | some ⟨_, _, _, .recorded _, _, _, _⟩ => some { broker with active := broker.active.erase id }
      | _ => none
  | .enforce id fails => do
    let attempt ← broker.active.lookup id
    let next ← attempt.enforce broker.stopping (broker.leaseValid id) broker.now fails
    some (broker.put id next)

end Broker

end Cairn.Runner

import Mathlib.Logic.Function.Basic
import Cairn.Library.HashMaps
import Cairn.Library.Steps
import Cairn.Accounts.Record

/-!
Owns the model of the account pool (`accounts/mod.rs`) as its operations interleave:
the stored documents, the leases in memory, the selection lock, one lock for each
account, and any number of calls, each at one point between two of its accesses.
`step_cases` says what one step does; `Sound` is what the locks guarantee.

A transaction that reads and writes a document under its account's lock takes its two
accesses as two steps. `acquire` may choose any account that passes the tests of
`eligible`, of which the code takes the best ranked.

Does not own what an operation does to a document, or the order of eligible accounts.
-/

set_option autoImplicit false

namespace Cairn.Accounts

open Cairn.Library Cairn.Library.HashMaps

/-- `Lease`. -/
structure Lease where
  accountId : String
  provider : Provider
  runId : String
  home : String
  model : String
deriving DecidableEq, Repr

/-- `running`. -/
def running (leases : HashMap String Lease) (id : String) : Nat :=
  sum (fun lease => if lease.accountId = id then 1 else 0) leases

/-- Whether an edit belongs to a refresh. -/
def Edit.isReading : Edit → Bool
  | .update _ | .exhausted .. => false
  | _ => true

/-- A call of an operation of the pool; a refresh comes with the edits its driver's
readings lead to. -/
inductive Call where
  | acquire (run : String) (provider : Provider) (model home : String)
  | release (lease : Lease)
  | relocate (lease : Lease) (home : String)
  | recoverRun (run : String) (account : Option String)
  | update (id : String) (input : UpdateInput)
  | exhausted (id : String) (now : Int) (model : String)
  | refresh (id : String) (edits : List Edit)
  | remove (id : String)
  | reconnect (id : String)
  | add (account : Account)

namespace Call

/-- The account whose lock a call takes, other than an acquisition. -/
def account : Call → Option String
  | acquire .. => none
  | release lease | relocate lease _ => some lease.accountId
  | recoverRun _ account => account
  | update id _ | exhausted id _ _ | refresh id _ | remove id | reconnect id => some id
  | add account => some account.id

/-- The edits a call makes to the document of its account. -/
def edits : Call → List Edit
  | update _ input => [.update input]
  | exhausted _ now model => [.exhausted now model]
  | refresh _ edits => edits
  | _ => []

/-- Whether a call holds the selection lock. -/
def needsSelection : Call → Bool
  | acquire .. | remove _ | reconnect _ | add _ => true
  | _ => false

/-- A refresh makes no edit of another operation. -/
def isWellFormed : Call → Bool
  | refresh _ edits => edits.all Edit.isReading
  | _ => true

/-- Whether a call refuses an account that is connecting. -/
def refusesConnecting : Call → Bool
  | update .. | refresh .. => true
  | _ => false

end Call

/-- Where a call stands. -/
inductive Stage where
  | called
  /-- The selection lock is held. -/
  | selected
  /-- An acquisition has chosen an account from the listing it read. -/
  | listed (account : Account)
  /-- It holds the lock of that account. -/
  | admitting (account : Account)
  /-- Its lease is inserted. -/
  | inserted (account : Account)
  /-- The account to connect has no leases. -/
  | checked (id : String)
  | fenced (id : String)
  /-- The lock of the account is held, with these edits left. -/
  | locked (edits : List Edit)
  /-- The document is read for the next edit. -/
  | read (account : Account) (edit : Edit) (edits : List Edit)
  /-- The account to remove has no leases. -/
  | cleared
  | finished

/-- A call and where it stands. -/
structure Process where
  call : Call
  stage : Stage

namespace Process

/-- Whether the selection lock is held. -/
def holdsSelection (process : Process) : Bool :=
  match process.stage with
  | .called | .finished => false
  | _ => process.call.needsSelection

/-- The account whose lock is held. -/
def holdsLock (process : Process) : Option String :=
  match process.stage with
  | .admitting account | .inserted account => some account.id
  | .fenced id => some id
  | .locked _ | .read .. | .cleared => process.call.account
  | _ => none

end Process

/-- The pool, its locks and the calls made to it. -/
structure Pool where
  documents : String → Option Account
  leases : HashMap String Lease := ∅
  connecting : Option String := none
  selection : Option Nat := none
  locks : String → Option Nat := fun _ => none
  processes : Nat → Option Process := fun _ => none

/-- The next access of a call. -/
inductive Action where
  | takeSelection
  | list (id : String) (now : Int) (recovering supports : Bool)
  | takeLock
  | insert
  | save (now : Int)
  | read
  | write
  | unlease
  | relocate
  | recover
  | check (busy : Bool)
  | create
  | remove
  | connect
  /-- The call ends, with its result or an error, and drops its guards. -/
  | finish

/-- What can happen to the pool. -/
inductive Step where
  | start (process : Nat) (call : Call)
  | act (process : Nat) (action : Action)
  | signedIn
  | restart

namespace Pool

/-- `save`, and `put` in a transaction. -/
def put (pool : Pool) (account : Account) : Pool :=
  { pool with documents := Function.update pool.documents account.id (some account) }

/-- A call moves to another stage. -/
def move (pool : Pool) (id : Nat) (process : Process) (stage : Stage) : Pool :=
  { pool with
    processes := Function.update pool.processes id (some { process with stage := stage }) }

/-- A call takes the lock of an account. -/
def lock (pool : Pool) (id : Nat) (account : String) : Pool :=
  { pool with locks := Function.update pool.locks account (some id) }

/-- A call ends and drops its guards. -/
def finish (pool : Pool) (id : Nat) (process : Process) : Pool :=
  { pool.move id process .finished with
    selection := if pool.selection = some id then none else pool.selection
    locks := fun account => if pool.locks account = some id then none else pool.locks account }

/-- A call moves on once it has the lock of an account. -/
def takeLock (pool : Pool) (id : Nat) (process : Process) (account : String) (stage : Stage) :
    Option Pool :=
  if pool.locks account = none then some ((pool.lock id account).move id process stage) else none

/-- The tests of `eligible`. -/
def eligible (pool : Pool) (provider : Provider) (model : String) (now : Int)
    (recovering supports : Bool) (account : Account) : Bool :=
  account.provider = provider && schedulable account now model &&
    running pool.leases account.id < account.parallelRuns &&
    pool.connecting ≠ some account.id && !recovering && supports

/-- The test before an account is removed or reconnected; `busy` stands for a sign-in in
progress or a run that recovers. -/
def unused (pool : Pool) (busy : Bool) (account : String) : Bool :=
  !busy && running pool.leases account = 0 && (pool.documents account).isSome

/-- One access of a call, if it is its turn. -/
def act (pool : Pool) (id : Nat) (process : Process) (action : Action) : Option Pool :=
  match action with
  | .takeSelection =>
      match process.stage with
      | .called =>
          if process.call.needsSelection ∧ pool.selection = none then
            some { pool.move id process .selected with selection := some id }
          else none
      | _ => none
  | .list account now recovering supports =>
      match process.call, process.stage with
      | .acquire run provider model _, .selected =>
          match pool.documents account with
          | none => none
          | some account =>
              if pool.leases.lookup run = none ∧
                  pool.eligible provider model now recovering supports account then
                some (pool.move id process (.listed account))
              else none
      | _, _ => none
  | .takeLock =>
      match process.stage with
      | .called =>
          if process.call.needsSelection then none
          else
            match process.call.account with
            | none => some (pool.move id process (.locked process.call.edits))
            | some account => pool.takeLock id process account (.locked process.call.edits)
      | .listed account => pool.takeLock id process account.id (.admitting account)
      | .checked account => pool.takeLock id process account (.fenced account)
      | .selected =>
          match process.call with
          | .remove account => pool.takeLock id process account (.locked [])
          | _ => none
      | _ => none
  | .insert =>
      match process.call, process.stage with
      | .acquire run provider model home, .admitting account =>
          some { pool.move id process (.inserted account) with
            leases := pool.leases.insert run ⟨account.id, provider, run, home, model⟩ }
      | _, _ => none
  | .save now =>
      match process.stage with
      | .inserted account =>
          some ((pool.put { account with lastUsedAt := some now }).finish id process)
      | _ => none
  | .read =>
      match process.stage, process.call.account with
      | .locked (edit :: edits), some account =>
          if process.call.refusesConnecting ∧ pool.connecting = some account then none
          else (pool.documents account).map fun document =>
            pool.move id process (.read document edit edits)
      | _, _ => none
  | .write =>
      match process.stage with
      | .read account edit edits =>
          match edit.apply account with
          | .ok next => some ((pool.put next).move id process (.locked edits))
          | .error _ => none
      | _ => none
  | .unlease =>
      match process.call, process.stage with
      | .release lease, .locked _ =>
          some ({ pool with leases := pool.leases.erase lease.runId }.finish id process)
      | _, _ => none
  | .relocate =>
      match process.call, process.stage with
      | .relocate lease home, .locked _ =>
          if lease.home = home then none
          else
            some ({ pool with
              leases := pool.leases.insert lease.runId { lease with home := home } }.finish id
                process)
      | _, _ => none
  | .recover =>
      match process.call, process.stage with
      | .recoverRun run _, .locked _ =>
          some ({ pool with
            leases := retain (fun _ lease => lease.runId ≠ run) pool.leases }.finish id process)
      | _, _ => none
  | .check busy =>
      match process.call, process.stage with
      | .reconnect account, .selected =>
          if pool.unused busy account then some (pool.move id process (.checked account)) else none
      | .remove account, .locked _ =>
          if pool.unused busy account then some (pool.move id process .cleared) else none
      | _, _ => none
  | .create =>
      match process.call, process.stage with
      | .add account, .selected =>
          if pool.documents account.id = none then
            some ((pool.put account).move id process (.checked account.id))
          else none
      | _, _ => none
  | .remove =>
      match process.call, process.stage with
      | .remove account, .cleared =>
          some ({ pool with
            documents := Function.update pool.documents account none }.finish id process)
      | _, _ => none
  | .connect =>
      match process.stage with
      | .fenced account => some ({ pool with connecting := some account }.finish id process)
      | _ => none
  | .finish => some (pool.finish id process)

/-- One step, if it is enabled. -/
def step (pool : Pool) : Step → Option Pool
  | .start id call =>
      if pool.processes id = none ∧ call.isWellFormed then
        some (pool.move id ⟨call, .called⟩ .called)
      else none
  | .act id action => do
      let process ← pool.processes id
      pool.act id process action
  | .signedIn => some { pool with connecting := none }
  | .restart =>
      some {
        documents := pool.documents
        processes := fun id =>
          (pool.processes id).map fun process => { process with stage := .finished } }

/-- The pool after a start: no leases, no sign-in and no calls. -/
def Started (pool : Pool) : Prop :=
  (∀ id account, pool.documents id = some account → account.id = id) ∧ pool.leases = ∅ ∧
    pool.connecting = none ∧ ∀ id, pool.processes id = none

end Pool

/-! ### What one step does -/

/-- How a step changes the stored documents. -/
inductive Stores (pool : Pool) : Step → (String → Option Account) → Prop where
  | keeps (step : Step) : Stores pool step pool.documents
  | saves {id : Nat} {process : Process} {account : Account} {now : Int}
      (found : pool.processes id = some process) (stage : process.stage = .inserted account) :
      Stores pool (.act id (.save now)) (Function.update pool.documents account.id
        (some { account with lastUsedAt := some now }))
  | writes {id : Nat} {process : Process} {account next : Account} {edit : Edit}
      {edits : List Edit} (found : pool.processes id = some process)
      (stage : process.stage = .read account edit edits) (applied : edit.apply account = .ok next) :
      Stores pool (.act id .write) (Function.update pool.documents next.id (some next))
  | creates {id : Nat} {process : Process} {account : Account}
      (found : pool.processes id = some process) (stage : process.stage = .selected)
      (call : process.call = .add account) (fresh : pool.documents account.id = none) :
      Stores pool (.act id .create) (Function.update pool.documents account.id (some account))
  | removes {id : Nat} {process : Process} {account : String}
      (found : pool.processes id = some process) (stage : process.stage = .cleared)
      (call : process.call = .remove account) :
      Stores pool (.act id .remove) (Function.update pool.documents account none)

/-- How a step changes the leases. -/
inductive Leases (pool : Pool) : Step → HashMap String Lease → Prop where
  | keeps (step : Step) : Leases pool step pool.leases
  | inserts {id : Nat} {process : Process} {run : String} {provider : Provider}
      {model home : String} {account : Account} (found : pool.processes id = some process)
      (call : process.call = .acquire run provider model home)
      (stage : process.stage = .admitting account) :
      Leases pool (.act id .insert)
        (pool.leases.insert run ⟨account.id, provider, run, home, model⟩)
  | relocates {id : Nat} {process : Process} {lease : Lease} {home : String}
      (found : pool.processes id = some process) (call : process.call = .relocate lease home) :
      Leases pool (.act id .relocate)
        (pool.leases.insert lease.runId { lease with home := home })
  | drops (step : Step) (leases : HashMap String Lease) (keep : String → Lease → Bool)
      (dropped : leases = retain keep pool.leases) : Leases pool step leases

/-- How a step changes the account that is connecting. -/
inductive Connects (pool : Pool) : Step → Option String → Prop where
  | keeps (step : Step) : Connects pool step pool.connecting
  | clears (step : Step) : Connects pool step none
  | connects {id : Nat} {process : Process} {account : String}
      (found : pool.processes id = some process) (stage : process.stage = .fenced account) :
      Connects pool (.act id .connect) (some account)

/-- How a call moves to its next stage, with the holders of the locks after it. -/
inductive Moves (pool : Pool) (id : Nat) (process : Process) :
    Action → Stage → Option Nat → (String → Option Nat) → Prop where
  | selects (stage : process.stage = .called) (needs : process.call.needsSelection = true)
      (free : pool.selection = none) :
      Moves pool id process .takeSelection .selected (some id) pool.locks
  | lists {run : String} {provider : Provider} {model home : String} {now : Int}
      {recovering supports : Bool} {key : String} {account : Account}
      (call : process.call = .acquire run provider model home) (stage : process.stage = .selected)
      (found : pool.documents key = some account) (unleased : pool.leases.lookup run = none)
      (eligible : pool.eligible provider model now recovering supports account = true) :
      Moves pool id process (.list key now recovering supports) (.listed account) pool.selection pool.locks
  | admits {account : Account} (stage : process.stage = .listed account)
      (free : pool.locks account.id = none) :
      Moves pool id process .takeLock (.admitting account) pool.selection
        (Function.update pool.locks account.id (some id))
  | inserts {account : Account} (stage : process.stage = .admitting account) :
      Moves pool id process .insert (.inserted account) pool.selection pool.locks
  | locks {edits : List Edit} {account : String} (called : process.call.account = some account)
      (stage : (process.stage = .called ∧ process.call.needsSelection = false) ∨
        process.stage = .selected)
      (free : pool.locks account = none) :
      Moves pool id process .takeLock (.locked edits) pool.selection
        (Function.update pool.locks account (some id))
  | proceeds {edits : List Edit} (stage : process.stage = .called)
      (called : process.call.account = none) (unselected : process.call.needsSelection = false) :
      Moves pool id process .takeLock (.locked edits) pool.selection pool.locks
  | reads {account : String} {document : Account} {edit : Edit} {edits : List Edit}
      (called : process.call.account = some account)
      (stage : process.stage = .locked (edit :: edits))
      (found : pool.documents account = some document) :
      Moves pool id process .read (.read document edit edits) pool.selection pool.locks
  | writes {account : Account} {edit : Edit} {edits : List Edit}
      (stage : process.stage = .read account edit edits) :
      Moves pool id process .write (.locked edits) pool.selection pool.locks
  | clears {account : String} {edits : List Edit} {busy : Bool}
      (call : process.call = .remove account) (stage : process.stage = .locked edits)
      (unused : pool.unused busy account = true) :
      Moves pool id process (.check busy) .cleared pool.selection pool.locks
  | checks {account : String} {busy : Bool} (call : process.call = .reconnect account)
      (stage : process.stage = .selected) (unused : pool.unused busy account = true) :
      Moves pool id process (.check busy) (.checked account) pool.selection pool.locks
  | creates {account : Account} (call : process.call = .add account)
      (stage : process.stage = .selected) (fresh : pool.documents account.id = none) :
      Moves pool id process .create (.checked account.id) pool.selection pool.locks
  | fences {account : String} (stage : process.stage = .checked account)
      (free : pool.locks account = none) :
      Moves pool id process .takeLock (.fenced account) pool.selection
        (Function.update pool.locks account (some id))
  | ends (action : Action) : Moves pool id process action .finished
      (if pool.selection = some id then none else pool.selection)
      (fun account => if pool.locks account = some id then none else pool.locks account)

/-- How a step changes the calls. -/
inductive Calls (pool next : Pool) : Step → Prop where
  | keeps (processes : next.processes = pool.processes)
      (selection : next.selection = pool.selection) (locks : next.locks = pool.locks) :
      Calls pool next .signedIn
  | starts (id : Nat) (call : Call) (absent : pool.processes id = none)
      (processes : next.processes = Function.update pool.processes id (some ⟨call, .called⟩))
      (selection : next.selection = pool.selection) (locks : next.locks = pool.locks) :
      Calls pool next (.start id call)
  | moves (id : Nat) (action : Action) (process : Process) (stage : Stage)
      (found : pool.processes id = some process)
      (processes : next.processes =
        Function.update pool.processes id (some { process with stage := stage }))
      (moved : Moves pool id process action stage next.selection next.locks) :
      Calls pool next (.act id action)
  | restarts (processes : ∀ id, next.processes id =
        (pool.processes id).map fun process => { process with stage := .finished }) :
      Calls pool next .restart

namespace Pool

variable {pool next : Pool} {step : Step}

theorem takeLock_of_some {id : Nat} {process : Process} {account : String} {stage : Stage}
    (taken : pool.takeLock id process account stage = some next) :
    pool.locks account = none ∧ next = (pool.lock id account).move id process stage := by
  unfold takeLock at taken
  split at taken
  · exact ⟨by assumption, (Option.some.inj taken).symm⟩
  · simp at taken

/-- What one access of a call does. -/
theorem act_cases {id : Nat} {process : Process} {action : Action}
    (found : pool.processes id = some process) (taken : pool.act id process action = some next) :
    Stores pool (.act id action) next.documents ∧ Leases pool (.act id action) next.leases ∧
      Connects pool (.act id action) next.connecting ∧ ∃ stage, next.processes =
        Function.update pool.processes id (some { process with stage := stage }) ∧
        Moves pool id process action stage next.selection next.locks := by
  cases action with
  | takeSelection =>
      simp only [act] at taken
      split at taken
      · rename_i stage
        split at taken
        · rename_i enabled
          obtain rfl := Option.some.inj taken
          exact ⟨.keeps _, .keeps _, .keeps _, _, rfl, .selects stage enabled.1 enabled.2⟩
        · simp at taken
      · simp at taken
  | list key now recovering supports =>
      simp only [act] at taken
      split at taken
      · rename_i run provider model home call stage
        split at taken
        · simp at taken
        · rename_i account document
          split at taken
          · rename_i enabled
            obtain rfl := Option.some.inj taken
            exact ⟨.keeps _, .keeps _, .keeps _, _, rfl,
              .lists call stage document enabled.1 enabled.2⟩
          · simp at taken
      · simp at taken
  | takeLock =>
      simp only [act] at taken
      split at taken
      · rename_i stage
        split at taken
        · simp at taken
        · rename_i unselected
          split at taken
          · rename_i called
            obtain rfl := Option.some.inj taken
            exact ⟨.keeps _, .keeps _, .keeps _, _, rfl, .proceeds stage called (by simpa using unselected)⟩
          · rename_i account called
            obtain ⟨free, rfl⟩ := takeLock_of_some taken
            exact ⟨.keeps _, .keeps _, .keeps _, _, rfl,
              .locks called (Or.inl ⟨stage, by simpa using unselected⟩) free⟩
      · rename_i account stage
        obtain ⟨free, rfl⟩ := takeLock_of_some taken
        exact ⟨.keeps _, .keeps _, .keeps _, _, rfl, .admits stage free⟩
      · rename_i account stage
        obtain ⟨free, rfl⟩ := takeLock_of_some taken
        exact ⟨.keeps _, .keeps _, .keeps _, _, rfl, .fences stage free⟩
      · rename_i stage
        split at taken
        · rename_i account call
          obtain ⟨free, rfl⟩ := takeLock_of_some taken
          exact ⟨.keeps _, .keeps _, .keeps _, _, rfl,
            .locks (by rw [call]; rfl) (Or.inr stage) free⟩
        · simp at taken
      · simp at taken
  | insert =>
      simp only [act] at taken
      split at taken
      · rename_i run provider model home account call stage
        obtain rfl := Option.some.inj taken
        exact ⟨.keeps _, .inserts found call stage, .keeps _, _, rfl, .inserts stage⟩
      · simp at taken
  | save now =>
      simp only [act] at taken
      split at taken
      · rename_i account stage
        obtain rfl := Option.some.inj taken
        have saved : Stores pool (.act id (.save now)) (Function.update pool.documents account.id
            (some { account with lastUsedAt := some now })) := .saves found stage
        exact ⟨saved, .keeps _, .keeps _, _, rfl, .ends _⟩
      · simp at taken
  | read =>
      simp only [act] at taken
      split at taken
      · rename_i edit edits account stage called
        split at taken
        · simp at taken
        · obtain ⟨document, present, rfl⟩ := Option.map_eq_some_iff.mp taken
          exact ⟨.keeps _, .keeps _, .keeps _, _, rfl, .reads called stage present⟩
      · simp at taken
  | write =>
      simp only [act] at taken
      split at taken
      · rename_i account edit edits stage
        split at taken
        · rename_i written applied
          obtain rfl := Option.some.inj taken
          exact ⟨.writes found stage applied, .keeps _, .keeps _, _, rfl, .writes stage⟩
        · simp at taken
      · simp at taken
  | unlease =>
      simp only [act] at taken
      split at taken
      · obtain rfl := Option.some.inj taken
        exact ⟨.keeps _, .drops _ _ _ (erase_eq_retain pool.leases _), .keeps _, _, rfl, .ends _⟩
      · simp at taken
  | relocate =>
      simp only [act] at taken
      split at taken
      · rename_i lease home edits call stage
        split at taken
        · simp at taken
        · obtain rfl := Option.some.inj taken
          exact ⟨.keeps _, .relocates found call, .keeps _, _, rfl, .ends _⟩
      · simp at taken
  | recover =>
      simp only [act] at taken
      split at taken
      · rename_i run _ _ _ _
        obtain rfl := Option.some.inj taken
        exact ⟨.keeps _, .drops _ _ (fun _ lease => lease.runId ≠ run) rfl, .keeps _, _, rfl, .ends _⟩
      · simp at taken
  | check busy =>
      simp only [act] at taken
      split at taken
      · rename_i account call stage
        split at taken
        · rename_i unused
          obtain rfl := Option.some.inj taken
          exact ⟨.keeps _, .keeps _, .keeps _, _, rfl, .checks call stage unused⟩
        · simp at taken
      · rename_i account edits call stage
        split at taken
        · rename_i unused
          obtain rfl := Option.some.inj taken
          exact ⟨.keeps _, .keeps _, .keeps _, _, rfl, .clears call stage unused⟩
        · simp at taken
      · simp at taken
  | create =>
      simp only [act] at taken
      split at taken
      · rename_i account call stage
        split at taken
        · rename_i fresh
          obtain rfl := Option.some.inj taken
          exact ⟨.creates found stage call fresh, .keeps _, .keeps _, _, rfl,
            .creates call stage fresh⟩
        · simp at taken
      · simp at taken
  | remove =>
      simp only [act] at taken
      split at taken
      · rename_i account call stage
        obtain rfl := Option.some.inj taken
        exact ⟨.removes found stage call, .keeps _, .keeps _, _, rfl, .ends _⟩
      · simp at taken
  | connect =>
      simp only [act] at taken
      split at taken
      · rename_i account stage
        obtain rfl := Option.some.inj taken
        exact ⟨.keeps _, .keeps _, .connects found stage, _, rfl, .ends _⟩
      · simp at taken
  | finish =>
      obtain rfl := Option.some.inj taken
      exact ⟨.keeps _, .keeps _, .keeps _, _, rfl, .ends _⟩

/-- What a step that is enabled does. -/
theorem step_cases (taken : pool.step step = some next) :
    Stores pool step next.documents ∧ Leases pool step next.leases ∧
      Connects pool step next.connecting ∧ Calls pool next step := by
  cases step with
  | start id call =>
      simp only [Pool.step] at taken
      split at taken
      · rename_i enabled
        obtain rfl := Option.some.inj taken
        exact ⟨.keeps _, .keeps _, .keeps _, .starts id call enabled.1 rfl rfl rfl⟩
      · simp at taken
  | act id action =>
      obtain ⟨process, found, taken⟩ := Option.bind_eq_some_iff.mp taken
      obtain ⟨stores, leases, connects, stage, processes, moved⟩ := act_cases found taken
      exact ⟨stores, leases, connects, .moves id action process stage found processes moved⟩
  | signedIn =>
      obtain rfl := Option.some.inj taken
      exact ⟨.keeps _, .keeps _, .clears _, .keeps rfl rfl rfl⟩
  | restart =>
      obtain rfl := Option.some.inj taken
      have dropped : (∅ : HashMap String Lease) = retain (fun _ _ => false) pool.leases :=
        (eq_empty_of_lookup fun run => by simp [lookup_retain]).symm
      exact ⟨.keeps _, .drops _ _ _ dropped, .clears _, .restarts fun _ => rfl⟩

end Pool

/-! ### What the locks guarantee -/

namespace Moves

variable {pool : Pool} {id : Nat} {process : Process} {action : Action} {stage : Stage}
  {selection : Option Nat} {locks : String → Option Nat}

/-- The selection lock is held because it was, or is taken. -/
theorem selection_held (moved : Moves pool id process action stage selection locks)
    (held : ({ process with stage := stage } : Process).holdsSelection = true) :
    (process.holdsSelection = true ∧ selection = pool.selection) ∨ selection = some id := by
  obtain ⟨call, before⟩ := process
  cases moved with
  | selects => exact Or.inr rfl
  | ends => simp [Process.holdsSelection] at held
  | proceeds _ called unselected => simp_all [Process.holdsSelection]
  | locks called stage free =>
      obtain ⟨rfl, unselected⟩ | rfl := stage
      · simp_all [Process.holdsSelection]
      · exact Or.inl ⟨held, rfl⟩
  | lists call stage _ _ _ =>
      subst stage
      exact Or.inl ⟨held, rfl⟩
  | clears _ stage _ | checks _ stage _ | creates _ stage _ =>
      subst stage
      exact Or.inl ⟨held, rfl⟩
  | reads _ stage _ =>
      subst stage
      exact Or.inl ⟨held, rfl⟩
  | admits stage _ | fences stage _ =>
      subst stage
      exact Or.inl ⟨held, rfl⟩
  | inserts stage | writes stage =>
      subst stage
      exact Or.inl ⟨held, rfl⟩

/-- The lock of an account is held because it was, or was free and is taken. -/
theorem lock_held (moved : Moves pool id process action stage selection locks) {account : String}
    (held : ({ process with stage := stage } : Process).holdsLock = some account) :
    (process.holdsLock = some account ∧ locks = pool.locks) ∨
      locks = Function.update pool.locks account (some id) := by
  obtain ⟨call, before⟩ := process
  cases moved with
  | selects | lists | checks | creates | ends => simp [Process.holdsLock] at held
  | proceeds _ called unselected => simp_all [Process.holdsLock]
  | locks called stage free =>
      obtain rfl := Option.some.inj (called.symm.trans held)
      exact Or.inr rfl
  | admits stage free =>
      obtain rfl := Option.some.inj held
      exact Or.inr rfl
  | fences stage free =>
      obtain rfl := Option.some.inj held
      exact Or.inr rfl
  | inserts stage | writes stage =>
      subst stage
      exact Or.inl ⟨held, rfl⟩
  | reads _ stage _ | clears _ stage _ =>
      subst stage
      exact Or.inl ⟨held, rfl⟩

/-- No move takes a lock from another call. -/
theorem others (moved : Moves pool id process action stage selection locks) {other : Nat}
    (distinct : other ≠ id) :
    (pool.selection = some other → selection = some other) ∧
      ∀ account, pool.locks account = some other → locks account = some other := by
  have taking : ∀ taken, pool.locks taken = none → ∀ account, pool.locks account = some other →
      Function.update pool.locks taken (some id) account = some other := by
    intro taken free account held
    have apart : account ≠ taken := by
      rintro rfl
      simp [free] at held
    rw [Function.update_of_ne apart]
    exact held
  cases moved with
  | selects _ needs free => exact ⟨fun held => by simp [free] at held, fun _ held => held⟩
  | lists | inserts | proceeds | reads | writes | clears | checks | creates =>
      exact ⟨fun held => held, fun _ held => held⟩
  | admits _ free | fences _ free => exact ⟨fun held => held, taking _ free⟩
  | locks _ _ free => exact ⟨fun held => held, taking _ free⟩
  | ends => exact ⟨fun held => by simp [held, distinct], fun account held => by simp [held, distinct]⟩

end Moves

/-- Where a call that is there after a step comes from: it is unchanged and keeps its
locks, has just started, has moved, or was ended by a restart. -/
theorem Calls.origin {pool next : Pool} {step : Step} (calls : Calls pool next step) {id : Nat}
    {process : Process} (found : next.processes id = some process) :
    (pool.processes id = some process ∧ (∀ action, step ≠ .act id action) ∧
      (pool.selection = some id → next.selection = some id) ∧
      ∀ account, pool.locks account = some id → next.locks account = some id) ∨
    process.stage = .called ∨ process.stage = .finished ∨
    ∃ action before stage, step = .act id action ∧ pool.processes id = some before ∧
      process = { before with stage := stage } ∧
      Moves pool id before action stage next.selection next.locks := by
  cases calls with
  | keeps processes selection locks =>
      exact Or.inl ⟨processes ▸ found, by simp, fun held => selection ▸ held,
        fun _ held => locks ▸ held⟩
  | starts started call absent processes selection locks =>
      rw [processes] at found
      by_cases same : id = started
      · subst same
        rw [Function.update_self] at found
        obtain rfl := Option.some.inj found
        exact Or.inr (Or.inl rfl)
      · rw [Function.update_of_ne same] at found
        exact Or.inl ⟨found, by simp, fun held => selection ▸ held, fun _ held => locks ▸ held⟩
  | moves moving action before stage present processes moved =>
      rw [processes] at found
      by_cases same : id = moving
      · subst same
        rw [Function.update_self] at found
        exact Or.inr (Or.inr (Or.inr ⟨action, before, stage, rfl, present,
          (Option.some.inj found).symm, moved⟩))
      · rw [Function.update_of_ne same] at found
        refine Or.inl ⟨found, fun other isSame => ?_, moved.others same⟩
        exact same (Step.act.inj isSame).1.symm
  | restarts processes =>
      obtain ⟨before, _, rfl⟩ := Option.map_eq_some_iff.mp ((processes id).symm.trans found)
      exact Or.inr (Or.inr (Or.inl rfl))

/-- A call that holds its lock and has read nothing stores nothing. -/
theorem Stores.of_locked {pool : Pool} {id : Nat} {action : Action}
    {documents : String → Option Account} {process : Process} {edits : List Edit}
    (stores : Stores pool (.act id action) documents)
    (found : pool.processes id = some process) (stage : process.stage = .locked edits) :
    documents = pool.documents := by
  cases stores with
  | keeps => rfl
  | saves present other | writes present other _ | creates present other _ _ | removes present other _ =>
      obtain rfl := Option.some.inj (found.symm.trans present)
      simp [stage] at other

namespace Pool

/-- The locks have one holder each, and a document read under its account's lock is the
stored one. -/
structure Sound (pool : Pool) : Prop where
  keyed : ∀ key account, pool.documents key = some account → account.id = key
  selection : ∀ id process, pool.processes id = some process → process.holdsSelection = true →
    pool.selection = some id
  locks : ∀ id process account, pool.processes id = some process →
    process.holdsLock = some account → pool.locks account = some id
  current : ∀ id process account edit edits, pool.processes id = some process →
    process.stage = .read account edit edits →
    process.call.account = some account.id ∧ pool.documents account.id = some account

theorem Started.sound {pool : Pool} (started : pool.Started) : pool.Sound where
  keyed := started.1
  selection id process found := by simp [started.2.2.2] at found
  locks id process account found := by simp [started.2.2.2] at found
  current id process account edit edits found := by simp [started.2.2.2] at found

namespace Sound

variable {pool next : Pool} {step : Step}

theorem same_lock (sound : pool.Sound) {first second : Nat} {left right : Process}
    {account : String} (foundLeft : pool.processes first = some left)
    (foundRight : pool.processes second = some right) (heldLeft : left.holdsLock = some account)
    (heldRight : right.holdsLock = some account) : first = second :=
  Option.some.inj ((sound.locks first left account foundLeft heldLeft).symm.trans
    (sound.locks second right account foundRight heldRight))

theorem keyed_step (sound : pool.Sound) (stores : Stores pool step next.documents) :
    ∀ key account, next.documents key = some account → account.id = key := by
  intro key account found
  generalize next.documents = documents at stores found
  have updated : ∀ stored : Account,
      Function.update pool.documents stored.id (some stored) key = some account →
      account.id = key := by
    intro stored found
    by_cases same : key = stored.id
    · subst same
      rw [Function.update_self] at found
      rw [Option.some.inj found]
    · rw [Function.update_of_ne same] at found
      exact sound.keyed key account found
  cases stores with
  | keeps => exact sound.keyed key account found
  | @saves _ _ saved now _ _ => exact updated { saved with lastUsedAt := some now } found
  | writes => exact updated _ found
  | creates => exact updated _ found
  | @removes _ _ removed _ _ _ =>
      by_cases same : key = removed
      · subst same
        simp at found
      · rw [Function.update_of_ne same] at found
        exact sound.keyed key account found

/-- A call that holds the lock of a stored document keeps it from every other call. -/
theorem stores_other (sound : pool.Sound) (stores : Stores pool step next.documents)
    {id : Nat} {process : Process} {account : Account}
    (found : pool.processes id = some process) (held : process.holdsLock = some account.id)
    (stored : pool.documents account.id = some account)
    (other : ∀ action, step ≠ .act id action) : next.documents account.id = some account := by
  generalize next.documents = documents at stores
  have untouched : ∀ (writer : Nat) (writing : Process) (key : String) (document : Option Account)
      (action : Action), pool.processes writer = some writing → writing.holdsLock = some key →
      step = .act writer action →
      Function.update pool.documents key document account.id = some account := by
    intro writer writing key document action isWriter holds isStep
    have apart : account.id ≠ key := by
      rintro rfl
      obtain rfl := sound.same_lock found isWriter held holds
      exact other action isStep
    rw [Function.update_of_ne apart]
    exact stored
  cases stores with
  | keeps => exact stored
  | @saves writer _ saved now isWriter stage =>
      exact untouched writer _ saved.id _ _ isWriter (by rw [Process.holdsLock, stage]) rfl
  | @writes writer writing document written edit edits isWriter stage applied =>
      rw [Edit.apply_id applied]
      exact untouched writer writing document.id _ _ isWriter (by
        rw [Process.holdsLock, stage]
        exact (sound.current _ _ _ _ _ isWriter stage).1) rfl
  | creates _ _ _ fresh =>
      have apart : account.id ≠ _ := fun same => by rw [same, fresh] at stored; simp at stored
      rw [Function.update_of_ne apart]
      exact stored
  | @removes writer writing removed isWriter stage call =>
      exact untouched writer writing removed _ _ isWriter (by
        rw [Process.holdsLock, stage, call]
        rfl) rfl

theorem after (sound : pool.Sound) {taking : Step} (taken : pool.step taking = some next) :
    next.Sound := by
  obtain ⟨stores, _, _, calls⟩ := step_cases taken
  refine ⟨sound.keyed_step stores, ?_, ?_, ?_⟩
  · intro id process found held
    obtain ⟨before, _, keeps, _⟩ | isCalled | isFinished | ⟨_, before, stage, _, present, rfl, moved⟩ :=
      calls.origin found
    · exact keeps (sound.selection id process before held)
    · simp [Process.holdsSelection, isCalled] at held
    · simp [Process.holdsSelection, isFinished] at held
    · obtain ⟨heldBefore, same⟩ | taken := moved.selection_held held
      · rw [same]
        exact sound.selection id before present heldBefore
      · exact taken
  · intro id process account found held
    obtain ⟨before, _, _, keeps⟩ | isCalled | isFinished | ⟨_, before, stage, _, present, rfl, moved⟩ :=
      calls.origin found
    · exact keeps account (sound.locks id process account before held)
    · simp [Process.holdsLock, isCalled] at held
    · simp [Process.holdsLock, isFinished] at held
    · obtain ⟨heldBefore, same⟩ | taken := moved.lock_held held
      · rw [same]
        exact sound.locks id before account present heldBefore
      · rw [taken, Function.update_self]
  · intro id process account edit edits found isRead
    obtain ⟨before, other, _, _⟩ | isCalled | isFinished | ⟨action, before, stage, isStep, present, rfl,
      moved⟩ := calls.origin found
    · obtain ⟨called, stored⟩ := sound.current id process account edit edits before isRead
      have held : process.holdsLock = some account.id := by
        rw [Process.holdsLock, isRead]
        exact called
      exact ⟨called, sound.stores_other stores before held stored other⟩
    · simp [isCalled] at isRead
    · simp [isFinished] at isRead
    · obtain rfl : stage = .read account edit edits := isRead
      generalize next.selection = selection at moved
      generalize next.locks = locks at moved
      cases moved with
      | reads called isLocked stored =>
          obtain rfl := sound.keyed _ _ stored
          refine ⟨called, ?_⟩
          rw [isStep] at stores
          rw [stores.of_locked present isLocked]
          exact stored

end Sound

end Pool

end Cairn.Accounts

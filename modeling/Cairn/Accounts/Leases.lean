import Cairn.Accounts.Updates

/-!
Owns the invariant of the leases of the pool: every lease belongs to a stored account
that is not connecting, and an acquisition that has chosen an account still finds a
slot, because the selection lock keeps every other insertion out. `leases_safe` is the
main result.
-/

set_option autoImplicit false

namespace Cairn.Accounts

open Cairn.Library Cairn.Library.HashMaps Cairn.Library.Steps

/-- A lease that has ended is relocated: its run holds none, or one on another account. -/
def RelocatesEnded (pool : Pool) : Step → Prop
  | .act id .relocate => ∃ process lease home, pool.processes id = some process ∧
      process.call = .relocate lease home ∧
      ¬ ∃ held, pool.leases.lookup lease.runId = some held ∧ held.accountId = lease.accountId
  | _ => False

/-- An acquisition inserts its lease although the stored limit of the account leaves no
slot, because it was lowered after the account was listed. -/
def AdmitsOverLimit (pool : Pool) : Step → Prop
  | .act id .insert => ∃ process account stored, pool.processes id = some process ∧
      process.stage = .admitting account ∧ pool.documents account.id = some stored ∧
      stored.parallelRuns ≤ running pool.leases account.id
  | _ => False

/-- A step inserts a lease on an account. -/
def Admits (key : String) (pool : Pool) : Step → Prop
  | .act id .insert => ∃ process account, pool.processes id = some process ∧
      process.stage = .admitting account ∧ account.id = key
  | _ => False

/-- Whether a call at a stage holds the selection lock. -/
def Stage.selects : Stage → Bool
  | .selected | .listed _ | .admitting _ | .inserted _ | .checked _ | .fenced _ | .cleared => true
  | _ => false

/-- The account a call is about to give a lease. -/
def Process.admits (process : Process) : Option Account :=
  match process.stage with
  | .listed account | .admitting account => some account
  | _ => none

/-- The account a call is about to remove or connect. -/
def Process.empties (process : Process) : Option String :=
  match process.stage, process.call with
  | .checked account, _ | .fenced account, _ => some account
  | .cleared, .remove account => some account
  | _, _ => none

theorem Process.selects_of_admits {process : Process} {account : Account}
    (admits : process.admits = some account) : process.stage.selects = true := by
  obtain ⟨call, stage⟩ := process
  cases stage <;> first | rfl | simp [Process.admits] at admits

theorem Process.selects_of_empties {process : Process} {account : String}
    (empties : process.empties = some account) : process.stage.selects = true := by
  obtain ⟨call, stage⟩ := process
  cases stage <;> first | rfl | simp [Process.empties] at empties

/-! ### Counting leases -/

theorem running_le_insert (leases : HashMap String Lease) (run : String) (lease : Lease)
    (id : String) : running (leases.insert run lease) id ≤
      running leases id + if lease.accountId = id then 1 else 0 := by
  unfold running
  rw [sum_insert, erase_eq_retain]
  have := sum_retain_le (fun lease : Lease => if lease.accountId = id then 1 else 0)
    (fun other _ => other ≠ run) leases
  omega

theorem running_replace {leases : HashMap String Lease} {run : String} {held lease : Lease}
    (found : leases.lookup run = some held) (same : held.accountId = lease.accountId) (id : String) :
    running (leases.insert run lease) id = running leases id := by
  have replaced := sum_replace (fun lease : Lease => if lease.accountId = id then 1 else 0) found lease
  simp only [same] at replaced
  exact Nat.add_right_cancel replaced

theorem running_pos {leases : HashMap String Lease} {run : String} {lease : Lease}
    (found : leases.lookup run = some lease) : 0 < running leases lease.accountId := by
  have counted := le_sum (fun other : Lease => if other.accountId = lease.accountId then 1 else 0) found
  simp only [if_true] at counted
  exact counted

theorem running_eq_zero {leases : HashMap String Lease} {id : String}
    (absent : ∀ run lease, leases.lookup run = some lease → lease.accountId ≠ id) :
    running leases id = 0 :=
  sum_eq_zero _ fun run lease found => if_neg (absent run lease found)

/-! ### The invariant -/

/-- Every lease belongs to a stored account that is not connecting, an acquisition that
has chosen an account finds a slot, and an account to remove or connect has no leases. -/
structure Pool.Leased (pool : Pool) : Prop where
  keys : ∀ run lease, pool.leases.lookup run = some lease → lease.runId = run
  known : ∀ run lease, pool.leases.lookup run = some lease →
    (pool.documents lease.accountId).isSome = true ∧ pool.connecting ≠ some lease.accountId
  selecting : ∀ id process, pool.processes id = some process → process.stage.selects = true →
    process.call.needsSelection = true
  admissible : ∀ id process account, pool.processes id = some process →
    process.admits = some account → (pool.documents account.id).isSome = true ∧
      pool.connecting ≠ some account.id ∧
      running pool.leases account.id < account.parallelRuns
  unused : ∀ id process account, pool.processes id = some process →
    process.empties = some account → running pool.leases account = 0

namespace Pool

variable {pool next : Pool} {step : Step}

theorem Started.leased (started : pool.Started) : pool.Leased where
  keys run lease found := by simp [started.2.1] at found
  known run lease found := by simp [started.2.1] at found
  selecting id process found := by simp [started.2.2.2] at found
  admissible id process account found := by simp [started.2.2.2] at found
  unused id process account found := by simp [started.2.2.2] at found

/-- A call past the selection holds its lock, so two of them are one. -/
theorem Leased.same_selection (leased : pool.Leased) (sound : pool.Sound) {first second : Nat}
    {left right : Process} (foundLeft : pool.processes first = some left)
    (foundRight : pool.processes second = some right) (selectsLeft : left.stage.selects = true)
    (selectsRight : right.stage.selects = true) : first = second := by
  have holds : ∀ id process, pool.processes id = some process → process.stage.selects = true →
      pool.selection = some id := by
    intro id process found selects
    refine sound.selection id process found ?_
    have needs := leased.selecting id process found selects
    cases isStage : process.stage <;> simp_all [Stage.selects, Process.holdsSelection]
  exact Option.some.inj ((holds first left foundLeft selectsLeft).symm.trans
    (holds second right foundRight selectsRight))

end Pool

variable {pool next : Pool} {step : Step}

theorem Stores.stored {documents : String → Option Account} (stores : Stores pool step documents)
    {key : String} (present : (pool.documents key).isSome = true)
    (kept : ∀ id process, step = .act id .remove → pool.processes id = some process →
      process.empties ≠ some key) : (documents key).isSome = true := by
  have updated : ∀ (other : String) (account : Account),
      (Function.update pool.documents other (some account) key).isSome = true := by
    intro other account
    by_cases same : key = other
    · subst same
      simp
    · rw [Function.update_of_ne same]
      exact present
  cases stores with
  | keeps => exact present
  | saves => exact updated _ _
  | writes => exact updated _ _
  | creates => exact updated _ _
  | removes found stage call =>
      rw [Function.update_of_ne]
      · exact present
      · rintro rfl
        exact kept _ _ rfl found (by rw [Process.empties, stage, call])

theorem Leases.running_le {leases : HashMap String Lease} (changes : Leases pool step leases)
    (live : ¬ RelocatesEnded pool step) (account : String)
    (quiet : ¬ Admits account pool step) : running leases account ≤ running pool.leases account := by
  cases changes with
  | keeps => exact Nat.le_refl _
  | inserts found call stage =>
      refine (running_le_insert _ _ _ _).trans ?_
      rw [if_neg fun same => quiet ⟨_, _, found, stage, same⟩]
      exact Nat.le_refl _
  | @relocates id process lease home found call =>
      by_cases held : ∃ held, pool.leases.lookup lease.runId = some held ∧
          held.accountId = lease.accountId
      · obtain ⟨held, present, same⟩ := held
        exact Nat.le_of_eq (running_replace present same account)
      · exact absurd ⟨process, lease, home, found, call, held⟩ live
  | drops _ leases keep dropped =>
      rw [dropped]
      exact sum_retain_le _ _ _

/-- The account of a lease had a lease before the step, or is given one by it. -/
theorem Leases.origin {leases : HashMap String Lease} (changes : Leases pool step leases)
    (live : ¬ RelocatesEnded pool step) {run : String} {lease : Lease}
    (found : leases.lookup run = some lease) :
    (∃ held, pool.leases.lookup run = some held ∧ held.accountId = lease.accountId) ∨
      ∃ id process account, step = .act id .insert ∧ pool.processes id = some process ∧
        process.stage = .admitting account ∧ account.id = lease.accountId := by
  cases changes with
  | keeps => exact Or.inl ⟨lease, found, rfl⟩
  | @inserts id process owner provider model home account present call stage =>
      rw [lookup_insert] at found
      split at found
      · obtain rfl := Option.some.inj found
        exact Or.inr ⟨id, process, account, rfl, present, stage, rfl⟩
      · exact Or.inl ⟨lease, found, rfl⟩
  | @relocates id process moved home present call =>
      rw [lookup_insert] at found
      split at found
      · rename_i same
        subst same
        obtain rfl := Option.some.inj found
        by_cases held : ∃ held, pool.leases.lookup moved.runId = some held ∧
            held.accountId = moved.accountId
        · exact Or.inl held
        · exact absurd ⟨process, moved, home, present, call, held⟩ live
      · exact Or.inl ⟨lease, found, rfl⟩
  | drops _ leases keep dropped =>
      rw [dropped, lookup_retain, Option.filter_eq_some_iff] at found
      exact Or.inl ⟨lease, found.1, rfl⟩

theorem Leases.keys {leases : HashMap String Lease} (changes : Leases pool step leases)
    (keyed : ∀ run lease, pool.leases.lookup run = some lease → lease.runId = run) :
    ∀ run lease, leases.lookup run = some lease → lease.runId = run := by
  intro run lease found
  cases changes with
  | keeps => exact keyed run lease found
  | inserts | relocates =>
      rw [lookup_insert] at found
      split at found
      · rename_i same
        obtain rfl := Option.some.inj found
        exact same.symm
      · exact keyed run lease found
  | drops _ leases keep dropped =>
      rw [dropped, lookup_retain, Option.filter_eq_some_iff] at found
      exact keyed run lease found.1

/-- A call past the selection was past it before, or takes it. -/
theorem Moves.selecting {id : Nat} {process : Process} {action : Action} {stage : Stage}
    {selection : Option Nat} {locks : String → Option Nat}
    (moved : Moves pool id process action stage selection locks) (selects : stage.selects = true)
    (selecting : process.stage.selects = true → process.call.needsSelection = true) :
    process.call.needsSelection = true := by
  cases moved with
  | selects _ needs _ => exact needs
  | lists call _ _ _ _ | clears call _ _ | checks call _ _ | creates call _ _ =>
      rw [call]
      rfl
  | admits stage _ | fences stage _ => exact selecting (by rw [stage]; rfl)
  | inserts stage => exact selecting (by rw [stage]; rfl)
  | locks | proceeds | reads | writes | ends => simp [Stage.selects] at selects

namespace Pool

theorem Leased.known_after (leased : pool.Leased) (live : ¬ RelocatesEnded pool step)
    (stores : Stores pool step next.documents) (changes : Leases pool step next.leases)
    (connects : Connects pool step next.connecting) {run : String} {lease : Lease}
    (found : next.leases.lookup run = some lease) :
    (next.documents lease.accountId).isSome = true ∧ next.connecting ≠ some lease.accountId := by
  obtain ⟨held, present, same⟩ | ⟨id, process, account, rfl, mover, stage, same⟩ :=
    changes.origin live found
  · rw [← same]
    obtain ⟨stored, apart⟩ := leased.known run held present
    have occupied := running_pos present
    refine ⟨stores.stored stored fun id process _ mover empties => ?_, ?_⟩
    · have := leased.unused id process held.accountId mover empties
      omega
    · generalize next.connecting = connecting at connects
      cases connects with
      | keeps => exact apart
      | clears => simp
      | connects mover stage =>
          rintro isConnecting
          obtain rfl := Option.some.inj isConnecting
          have := leased.unused _ _ _ mover (by rw [Process.empties, stage])
          omega
  · rw [← same]
    obtain ⟨stored, apart, _⟩ := leased.admissible id process account mover
      (by rw [Process.admits, stage])
    refine ⟨stores.stored stored (by simp), ?_⟩
    generalize next.connecting = connecting at connects
    cases connects with
    | keeps => exact apart
    | clears => simp

/-- A call past the selection that does not move keeps what it has found. -/
theorem Leased.others_after (leased : pool.Leased) (sound : pool.Sound)
    (live : ¬ RelocatesEnded pool step)
    (stores : Stores pool step next.documents) (changes : Leases pool step next.leases)
    (connects : Connects pool step next.connecting) {id : Nat} {process : Process}
    (found : pool.processes id = some process) (selects : process.stage.selects = true)
    (other : ∀ action, step ≠ .act id action) (account : String) :
    running next.leases account ≤ running pool.leases account ∧
      ((pool.documents account).isSome = true → (next.documents account).isSome = true) ∧
      (next.connecting = pool.connecting ∨ next.connecting = none) := by
  have alone : ∀ mover moving action, pool.processes mover = some moving →
      moving.stage.selects = true → step ≠ .act mover action := by
    intro mover moving action present movingSelects isStep
    obtain rfl := leased.same_selection sound found present selects movingSelects
    exact other action isStep
  refine ⟨changes.running_le live account ?_, fun stored => stores.stored stored ?_, ?_⟩
  · intro admits
    cases step with
    | act mover action =>
        cases action with
        | insert =>
            obtain ⟨moving, admitted, present, stage, _⟩ := admits
            exact alone mover moving _ present (by rw [stage]; rfl) rfl
        | _ => exact admits
    | _ => exact admits
  · exact fun mover moving isStep present empties =>
      alone mover moving _ present (Process.selects_of_empties empties) isStep
  · generalize next.connecting = connecting at connects
    cases connects with
    | keeps => exact Or.inl rfl
    | clears => exact Or.inr rfl
    | connects present stage => exact absurd rfl (alone _ _ _ present (by rw [stage]; rfl))

theorem Leased.admissible_after (leased : pool.Leased) (sound : pool.Sound)
    (live : ¬ RelocatesEnded pool step) (taken : pool.step step = some next) {id : Nat}
    {process : Process} {account : Account} (found : next.processes id = some process)
    (admits : process.admits = some account) : (next.documents account.id).isSome = true ∧
      next.connecting ≠ some account.id ∧
      running next.leases account.id < account.parallelRuns := by
  obtain ⟨stores, changes, connects, calls⟩ := step_cases taken
  obtain ⟨before, other, _, _⟩ | isCalled | isFinished | ⟨action, before, stage, rfl, present, rfl,
    moved⟩ := calls.origin found
  · obtain ⟨stored, apart, fits⟩ := leased.admissible id process account before admits
    obtain ⟨fewer, kept, calm⟩ := leased.others_after sound live stores changes connects before
      (Process.selects_of_admits admits) other account.id
    refine ⟨kept stored, ?_, Nat.lt_of_le_of_lt fewer fits⟩
    obtain same | cleared := calm
    · exact same ▸ apart
    · simp [cleared]
  · simp [Process.admits, isCalled] at admits
  · simp [Process.admits, isFinished] at admits
  · -- A call that moves inserts no lease and connects no account when it lists or locks one.
    generalize next.selection = selection at moved
    generalize next.locks = locks at moved
    have settled : (pool.documents account.id).isSome = true →
        pool.connecting ≠ some account.id →
        running pool.leases account.id < account.parallelRuns → action ≠ .insert →
        action ≠ .remove → action ≠ .connect → (next.documents account.id).isSome = true ∧
          next.connecting ≠ some account.id ∧
          running next.leases account.id < account.parallelRuns := by
      intro stored apart fits noInsert noRemove noConnect
      refine ⟨stores.stored stored fun _ _ isStep => ?_, ?_, Nat.lt_of_le_of_lt
        (changes.running_le live account.id fun admits => ?_) fits⟩
      · exact absurd (Step.act.inj isStep).2 noRemove
      · generalize next.connecting = connecting at connects
        cases connects with
        | keeps => exact apart
        | clears => simp
        | connects => exact absurd rfl noConnect
      · cases action with
        | insert => exact noInsert rfl
        | _ => exact admits
    cases moved with
    | lists call stage stored unleased eligible =>
        obtain rfl := Option.some.inj admits
        obtain rfl := sound.keyed _ _ stored
        simp only [Pool.eligible, Bool.and_eq_true, decide_eq_true_eq, Bool.not_eq_true'] at eligible
        exact settled (by rw [stored]; rfl) eligible.1.1.2 eligible.1.1.1.2 (by simp) (by simp)
          (by simp)
    | admits stage free =>
        obtain rfl := Option.some.inj admits
        obtain ⟨stored, apart, fits⟩ := leased.admissible id before _ present
          (by rw [Process.admits, stage])
        exact settled stored apart fits (by simp) (by simp) (by simp)
    | _ => simp [Process.admits] at admits

theorem Leased.unused_after (leased : pool.Leased) (sound : pool.Sound)
    (live : ¬ RelocatesEnded pool step) (taken : pool.step step = some next) {id : Nat}
    {process : Process} {account : String} (found : next.processes id = some process)
    (empties : process.empties = some account) : running next.leases account = 0 := by
  obtain ⟨stores, changes, connects, calls⟩ := step_cases taken
  obtain ⟨before, other, _, _⟩ | isCalled | isFinished | ⟨action, before, stage, rfl, present, rfl,
    moved⟩ := calls.origin found
  · have none := leased.unused id process account before empties
    have fewer := (leased.others_after sound live stores changes connects before
      (Process.selects_of_empties empties) other account).1
    omega
  · simp [Process.empties, isCalled] at empties
  · simp [Process.empties, isFinished] at empties
  · generalize next.selection = selection at moved
    generalize next.locks = locks at moved
    have settled : running pool.leases account = 0 → action ≠ .insert →
        running next.leases account = 0 := by
      intro none noInsert
      have fewer := changes.running_le live account fun admits => by
        cases action with
        | insert => exact noInsert rfl
        | _ => exact admits
      omega
    cases moved with
    | clears call stage unused =>
        simp only [Process.empties, call, Option.some.injEq] at empties
        simp only [Pool.unused, empties, Bool.and_eq_true, decide_eq_true_eq] at unused
        exact settled unused.1.2 (by simp)
    | checks call stage unused =>
        obtain rfl := Option.some.inj empties
        simp only [Pool.unused, Bool.and_eq_true, decide_eq_true_eq] at unused
        exact settled unused.1.2 (by simp)
    | creates call stage fresh =>
        obtain rfl := Option.some.inj empties
        refine settled (running_eq_zero fun run lease found same => ?_) (by simp)
        have stored := (leased.known run lease found).1
        rw [same, fresh] at stored
        simp at stored
    | fences stage free =>
        obtain rfl := Option.some.inj empties
        exact settled (leased.unused id before _ present (by rw [Process.empties, stage])) (by simp)
    | _ => simp [Process.empties] at empties

theorem Leased.after (leased : pool.Leased) (sound : pool.Sound)
    (live : ¬ RelocatesEnded pool step) (taken : pool.step step = some next) : next.Leased where
  keys := (step_cases taken).2.1.keys leased.keys
  known run lease found := by
    obtain ⟨stores, changes, connects, _⟩ := step_cases taken
    exact leased.known_after live stores changes connects found
  selecting id process found selects := by
    obtain ⟨before, _, _, _⟩ | isCalled | isFinished | ⟨action, before, stage, _, present, rfl,
      moved⟩ := (step_cases taken).2.2.2.origin found
    · exact leased.selecting id process before selects
    · simp [Stage.selects, isCalled] at selects
    · simp [Stage.selects, isFinished] at selects
    · exact moved.selecting selects (leased.selecting id before present)
  admissible id process account found admits :=
    leased.admissible_after sound live taken found admits
  unused id process account found empties := leased.unused_after sound live taken found empties

theorem Leased.run (leased : pool.Leased) (sound : pool.Sound) {steps : List Step} {final : Pool}
    (live : Throughout Pool.step (fun pool step => ¬ RelocatesEnded pool step) pool steps)
    (executed : execute Pool.step pool steps = some final) : final.Leased := by
  have preserved : ∀ (state : Pool) (head : Step) (next : Pool), state.Sound ∧ state.Leased →
      ¬ RelocatesEnded state head → state.step head = some next → next.Sound ∧ next.Leased :=
    fun state head next holds live taken =>
      ⟨holds.1.after taken, holds.2.after holds.1 live taken⟩
  exact (execute_invariant_where preserved ⟨sound, leased⟩ live executed).2

/-- Without an insertion on an account its leases do not become more. -/
theorem run_running_le {key : String} {steps : List Step} {final : Pool}
    (live : Throughout Pool.step (fun pool step => ¬ RelocatesEnded pool step) pool steps)
    (quiet : Throughout Pool.step (fun pool step => ¬ Admits key pool step) pool steps)
    (executed : execute Pool.step pool steps = some final) :
    running final.leases key ≤ running pool.leases key := by
  induction steps generalizing pool with
  | nil =>
      obtain rfl := Option.some.inj executed
      exact Nat.le_refl _
  | cons head tail inductionHypothesis =>
      obtain ⟨next, taken, rest⟩ := execute_cons.mp executed
      have changes := (step_cases taken).2.1
      exact (inductionHypothesis (live.2 next taken) (quiet.2 next taken) rest).trans
        (changes.running_le live.1 key quiet.1)

end Pool

/-- What the leases of the pool keep over a run of steps. -/
structure LeasesSafe (initial : Pool) (steps : List Step) : Prop where
  /-- The leases of an account never exceed the limit that was stored for it when its
  last lease was inserted. -/
  limit : ∀ before id process account stored between after admitting admitted pool,
    steps = before ++ .act id .insert :: (between ++ after) →
    execute Pool.step initial before = some admitting →
    admitting.processes id = some process → process.stage = .admitting account →
    admitting.documents account.id = some stored →
    admitting.step (.act id .insert) = some admitted →
    execute Pool.step admitted between = some pool →
    Throughout Pool.step (fun pool step => ¬ Admits account.id pool step) admitted between →
    running pool.leases account.id ≤ stored.parallelRuns
  /-- An account that was never given a lease has none. -/
  none : ∀ before after key pool, steps = before ++ after →
    execute Pool.step initial before = some pool →
    Throughout Pool.step (fun pool step => ¬ Admits key pool step) initial before →
    running pool.leases key = 0
  /-- A run holds at most one lease. -/
  single : ∀ before after pool first second left right, steps = before ++ after →
    execute Pool.step initial before = some pool → pool.leases.lookup first = some left →
    pool.leases.lookup second = some right → left.runId = right.runId → left = right
  /-- A lease belongs to a stored account that is not connecting. -/
  known : ∀ before after pool run lease, steps = before ++ after →
    execute Pool.step initial before = some pool → pool.leases.lookup run = some lease →
    (pool.documents lease.accountId).isSome = true ∧ pool.connecting ≠ some lease.accountId
  /-- A release leaves no lease for its run. -/
  released : ∀ before after pool next id process lease, steps = before ++ .act id .unlease :: after →
    execute Pool.step initial before = some pool → pool.processes id = some process →
    process.call = .release lease → pool.step (.act id .unlease) = some next →
    ∀ run held, next.leases.lookup run = some held → held.runId ≠ lease.runId
  /-- The recovery of a run leaves no lease for it. -/
  recovered : ∀ before after pool next id process run account,
    steps = before ++ .act id .recover :: after →
    execute Pool.step initial before = some pool → pool.processes id = some process →
    process.call = .recoverRun run account → pool.step (.act id .recover) = some next →
    ∀ other held, next.leases.lookup other = some held → held.runId ≠ run
  /-- A run without a lease is given one only by an acquisition of its own. -/
  regained : ∀ before head after pool next run, steps = before ++ head :: after →
    execute Pool.step initial before = some pool → pool.step head = some next →
    pool.leases.lookup run = .none → next.leases.lookup run ≠ .none →
    ∃ id process provider model home, head = .act id .insert ∧ pool.processes id = some process ∧
      process.call = .acquire run provider model home

namespace Pool

theorem unlease_leases {id : Nat} {process : Process} {lease : Lease}
    (found : pool.processes id = some process) (call : process.call = .release lease)
    (taken : pool.step (.act id .unlease) = some next) :
    next.leases = pool.leases.erase lease.runId := by
  obtain ⟨again, present, acted⟩ := Option.bind_eq_some_iff.mp taken
  obtain rfl := Option.some.inj (found.symm.trans present)
  simp only [act, call] at acted
  split at acted
  · rename_i same _
    obtain rfl := Call.release.inj same
    obtain rfl := Option.some.inj acted
    rfl
  · simp at acted

theorem recover_leases {id : Nat} {process : Process} {run : String} {account : Option String}
    (found : pool.processes id = some process) (call : process.call = .recoverRun run account)
    (taken : pool.step (.act id .recover) = some next) :
    next.leases = retain (fun _ lease => lease.runId ≠ run) pool.leases := by
  obtain ⟨again, present, acted⟩ := Option.bind_eq_some_iff.mp taken
  obtain rfl := Option.some.inj (found.symm.trans present)
  simp only [act, call] at acted
  split at acted
  · rename_i same _
    obtain ⟨rfl, _⟩ := Call.recoverRun.inj same
    obtain rfl := Option.some.inj acted
    rfl
  · simp at acted

/-- An insertion that the stored limit leaves a slot for stays within it. -/
theorem Leased.insert_le {id : Nat} {process : Process} {account stored : Account}
    (found : pool.processes id = some process) (stage : process.stage = .admitting account)
    (isStored : pool.documents account.id = some stored)
    (fits : ¬ AdmitsOverLimit pool (.act id .insert))
    (taken : pool.step (.act id .insert) = some next) :
    running next.leases account.id ≤ stored.parallelRuns := by
  have slot : running pool.leases account.id < stored.parallelRuns :=
    Nat.lt_of_not_le fun above => fits ⟨process, account, stored, found, stage, isStored, above⟩
  have changes := (step_cases taken).2.1
  generalize next.leases = leases at changes
  cases changes with
  | keeps => exact Nat.le_of_lt slot
  | inserts present call other =>
      obtain rfl := Option.some.inj (found.symm.trans present)
      obtain rfl := Stage.admitting.inj (stage.symm.trans other)
      refine (running_le_insert _ _ _ _).trans ?_
      rw [if_pos rfl]
      exact slot
  | drops _ leases keep dropped =>
      rw [dropped]
      exact (sum_retain_le _ _ _).trans (Nat.le_of_lt slot)

end Pool

/-- Over every interleaving in which no ended lease is relocated and no limit is lowered
below the leases of an account between the listing and the insertion of an acquisition,
the leases keep to the limits and to their accounts. -/
theorem leases_safe {initial final : Pool} {steps : List Step} (started : initial.Started)
    (executed : execute Pool.step initial steps = some final)
    (clear : Throughout Pool.step (fun pool step =>
      ¬ RelocatesEnded pool step ∧ ¬ AdmitsOverLimit pool step) initial steps) :
    LeasesSafe initial steps := by
  have reach : ∀ before after pool, steps = before ++ after →
      execute Pool.step initial before = some pool → pool.Sound ∧ pool.Leased ∧
        Throughout Pool.step (fun pool step =>
          ¬ RelocatesEnded pool step ∧ ¬ AdmitsOverLimit pool step) pool after := by
    intro before after pool split reached
    subst split
    have live : Throughout Pool.step (fun pool step => ¬ RelocatesEnded pool step) initial before :=
      (throughout_append.mp clear).1.mono fun _ _ both => both.1
    exact ⟨started.sound.run reached, started.leased.run started.sound live reached,
      (throughout_append.mp clear).2 pool reached⟩
  refine ⟨?_, ?_, ?_, ?_, ?_, ?_, ?_⟩
  · intro before id process account stored between after admitting admitted pool split reached
      found stage isStored taken ran quiet
    obtain ⟨_, _, rest⟩ := reach before _ admitting split reached
    have live : Throughout Pool.step (fun pool step => ¬ RelocatesEnded pool step) admitted between :=
      (throughout_append.mp (rest.2 admitted taken)).1.mono fun _ _ both => both.1
    exact (Pool.run_running_le live quiet ran).trans
      (Pool.Leased.insert_le found stage isStored rest.1.2 taken)
  · intro before after key pool split reached quiet
    subst split
    have live : Throughout Pool.step (fun pool step => ¬ RelocatesEnded pool step) initial before :=
      (throughout_append.mp clear).1.mono fun _ _ both => both.1
    have fewer := Pool.run_running_le live quiet reached
    rw [started.2.1] at fewer
    exact Nat.le_zero.mp fewer
  · intro before after pool first second left right split reached foundLeft foundRight same
    have leased := (reach before after pool split reached).2.1
    rw [leased.keys first left foundLeft, leased.keys second right foundRight] at same
    subst same
    exact Option.some.inj (foundLeft.symm.trans foundRight)
  · exact fun before after pool run lease split reached found =>
      (reach before after pool split reached).2.1.known run lease found
  · intro before after pool next id process lease split reached found call taken run held present
    have leased := (reach before _ pool split reached).2.1
    rw [Pool.unlease_leases found call taken, lookup_erase] at present
    split at present
    · simp at present
    · rename_i apart
      rw [leased.keys run held present]
      exact apart
  · intro before after pool next id process run account split reached found call taken other held
      present
    rw [Pool.recover_leases found call taken, lookup_retain, Option.filter_eq_some_iff] at present
    exact of_decide_eq_true present.2
  · intro before head after pool next run split reached taken absent present
    obtain ⟨_, _, rest⟩ := reach before _ pool split reached
    have changes := (Pool.step_cases taken).2.1
    generalize next.leases = leases at changes present
    cases changes with
    | keeps => exact absurd absent present
    | @inserts id process owner provider model home account found call stage =>
        by_cases same : run = owner
        · exact ⟨id, process, provider, model, home, rfl, found, same ▸ call⟩
        · rw [lookup_insert, if_neg same] at present
          exact absurd absent present
    | @relocates id process lease home found call =>
        by_cases same : run = lease.runId
        · refine absurd ⟨process, lease, home, found, call, ?_⟩ rest.1.1
          rintro ⟨held, isHeld, _⟩
          rw [← same, absent] at isHeld
          simp at isHeld
        · rw [lookup_insert, if_neg same] at present
          exact absurd absent present
    | drops _ leases keep dropped =>
        rw [dropped, lookup_retain, absent] at present
        exact absurd rfl present

/-- A limit of one that is stored while the second of two acquisitions waits for the
lock of the account it has listed. -/
def lowering : List Step :=
  [.start 0 (.acquire "first" .claude "model" "home"), .act 0 .takeSelection,
    .act 0 (.list "account" 1 false true), .act 0 .takeLock, .act 0 .insert, .act 0 (.save 2),
    .start 1 (.acquire "second" .claude "model" "home"), .act 1 .takeSelection,
    .act 1 (.list "account" 3 false true),
    .start 2 (.update "account" { maxConcurrentRuns := some (some 1) }), .act 2 .takeLock,
    .act 2 .read, .act 2 .write, .act 2 .finish, .act 1 .takeLock]

theorem lowered_limit_exceeded :
    ¬ ∀ (initial final : Pool) (steps : List Step), initial.Started →
      execute Pool.step initial steps = some final → LeasesSafe initial steps := by
  intro claimed
  have safe := claimed poolOfOne _ (lowering ++ [.act 1 .insert]) poolOfOne_started rfl
  have within := safe.limit lowering 1 _ _ _ [] [] _ _ _ rfl rfl rfl rfl rfl rfl rfl trivial
  exact absurd within (by decide)

/-- An acquisition whose lease is relocated and released. -/
theorem leases_safe_relocated :
    LeasesSafe poolOfOne [.start 0 (.acquire "run" .claude "model" "home"), .act 0 .takeSelection,
      .act 0 (.list "account" 1 false true), .act 0 .takeLock, .act 0 .insert, .act 0 (.save 2),
      .start 1 (.relocate ⟨"account", .claude, "run", "home", "model"⟩ "guest"), .act 1 .takeLock,
      .act 1 .relocate, .start 2 (.release ⟨"account", .claude, "run", "guest", "model"⟩),
      .act 2 .takeLock, .act 2 .unlease] := by
  refine leases_safe poolOfOne_started rfl ?_
  iterate 4
    refine ⟨⟨id, id⟩, fun _ taken => ?_⟩
    obtain rfl := Option.some.inj taken
  refine ⟨⟨id, ?_⟩, fun _ taken => ?_⟩
  · rintro ⟨process, account, stored, found, stage, isStored, above⟩
    obtain rfl := Option.some.inj found
    obtain rfl := Stage.admitting.inj stage
    obtain rfl := Option.some.inj isStored
    exact absurd above (by decide)
  obtain rfl := Option.some.inj taken
  iterate 3
    refine ⟨⟨id, id⟩, fun _ taken => ?_⟩
    obtain rfl := Option.some.inj taken
  refine ⟨⟨?_, id⟩, fun _ _ => throughout_of_forall (by simp [RelocatesEnded, AdmitsOverLimit])⟩
  rintro ⟨process, lease, home, found, call, ended⟩
  obtain rfl := Option.some.inj found
  obtain ⟨rfl, rfl⟩ := Call.relocate.inj call
  exact ended ⟨_, rfl, rfl⟩

end Cairn.Accounts

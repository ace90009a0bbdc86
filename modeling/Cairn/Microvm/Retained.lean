import Mathlib.Algebra.Order.Ring.Nat
import Mathlib.Data.List.Basic

/-!
Owns the queue of idle conversation VMs of `microvm/pool.rs` and
`microvm/pool/retained.rs`: what may enter it, and `maintain_retained`, which evicts
from it. The queue changes only under the admission lock, which maintenance holds
throughout; what it measures may differ at every turn of its loop.

Does not own the VMs themselves, or the journals behind `publication_pending`.
-/

set_option autoImplicit false

namespace Cairn.Microvm

/-- The part of `Budget` that retention depends on. -/
structure Budget where
  memoryMiB : Nat
deriving DecidableEq

/-- `Retained`, with the instant it expires. -/
structure Retained where
  run : String
  expires : Nat
deriving DecidableEq, Repr

/-- What one turn of the loop measures: `usage`, the clock, and of each entry whether its
VMM has exited, what it occupies and whether its journal waits for publication. -/
structure Reading where
  memoryMiB : Nat
  pressure : Option String
  now : Nat
  exited : Retained → Bool
  bytes : Retained → Option Nat
  pending : Retained → Bool

/-- `MAX_RETAINED`. -/
def maxRetained : Nat := 2

/-- `MAX_MEMORY_BYTES`. -/
def maxMemoryBytes : Nat := 2048 * 1048576

/-- `within_budget`. -/
def withinBudget (count bytes : Nat) (budget : Budget) : Bool :=
  count ≤ maxRetained && bytes ≤ min (budget.memoryMiB * 1048576 / 4) maxMemoryBytes

/-- The queue, once the node's budgets are set if anything is in it. -/
structure Pool where
  budget : Option Budget
  retained : List Retained
  configured : budget = none → retained = []

namespace Pool

/-- A pool that has just been made. -/
def initial : Pool := ⟨none, [], fun _ => rfl⟩

/-- `configure`, which retires what can be before it sets the budgets. -/
def configure (next : Budget) (pending : Retained → Bool) (pool : Pool) : Pool where
  budget := some next
  retained := pool.retained.filter pending
  configured unset := by cases unset

/-- The end of an execution that keeps its VM. -/
def retain (idle : Retained) (pool : Pool) : Pool where
  budget := pool.budget
  retained := if pool.budget.isSome then pool.retained ++ [idle] else pool.retained
  configured unset := by rw [if_neg (by simp [unset]), pool.configured unset]

/-- An entry leaves the queue: it is reused or evicted. -/
def take (index : Nat) (pool : Pool) : Pool where
  budget := pool.budget
  retained := pool.retained.eraseIdx index
  configured unset := by rw [pool.configured unset, List.eraseIdx_nil]

/-- `reserve` puts an entry it cannot replace yet back at the end. -/
def requeue (index : Nat) (pool : Pool) : Pool where
  budget := pool.budget
  retained := pool.retained.eraseIdx index ++ pool.retained[index]?.toList
  configured unset := by rw [pool.configured unset]; rfl

end Pool

/-! ### One turn -/

namespace Reading

variable (reading : Reading) (budget : Budget) (queue : List Retained)

/-- The instant of an entry has come. -/
def expired (idle : Retained) : Bool := idle.expires ≤ reading.now

/-- `expired` of the loop: the entry at the front. -/
def frontExpired : Bool := queue.head?.any reading.expired

/-- `memory_pressure`. -/
def memoryPressure : Bool := reading.memoryMiB > budget.memoryMiB * 75 / 100

/-- `under_pressure`. -/
def underPressure : Bool := reading.pressure.isSome || reading.memoryPressure budget

/-- What the queue occupies, if it is known and can be counted. -/
def retainedBytes : Option Nat :=
  queue.foldlM (fun total idle => (reading.bytes idle).bind fun bytes =>
    if total + bytes < 2 ^ 64 then some (total + bytes) else none) 0

/-- The queue is within its count and its memory. -/
def within : Bool :=
  (reading.retainedBytes queue).any fun bytes => withinBudget queue.length bytes budget

/-- The loop has nothing to do. -/
def settled : Bool :=
  !queue.any reading.exited && !reading.frontExpired queue && !reading.underPressure budget &&
    reading.within budget queue

/-- `reason`. -/
def reason : String :=
  if queue.any reading.exited then "process_exited"
  else if reading.frontExpired queue then "expired"
  else if reading.pressure.isSome then "node_pressure"
  else if reading.memoryPressure budget then "node_memory"
  else if (reading.retainedBytes queue).isNone then "memory_unavailable"
  else "retained_budget"

/-- `index`: an exited entry, or else the first one with nothing to publish. -/
def victim : Option Nat :=
  (queue.findIdx? reading.exited).or (queue.findIdx? fun idle => !reading.pending idle)

end Reading

/-- A turn of the loop: what it measured of which queue, and what it evicts, or nothing
where it returns. -/
structure Turn where
  reading : Reading
  queue : List Retained
  evicted : Option (Retained × String)

/-- The loop of `maintain_retained`, until it returns or fails to measure. -/
def maintainFrom (budget : Budget) (readings : Nat → Option Reading) (index : Nat)
    (queue : List Retained) : List Turn :=
  match readings index with
  | none => []
  | some reading =>
      if reading.settled budget queue then [⟨reading, queue, none⟩]
      else
        match reading.victim queue with
        | none => [⟨reading, queue, none⟩]
        | some position =>
            if inside : position < queue.length then
              ⟨reading, queue, some (queue[position], reading.reason budget queue)⟩ ::
                maintainFrom budget readings (index + 1) (queue.eraseIdx position)
            else [⟨reading, queue, none⟩]
termination_by queue.length
decreasing_by
  rw [List.length_eraseIdx_of_lt inside]
  omega

/-- `maintain_retained`: the turns it takes, with what each of them measures. -/
def Pool.maintain (readings : Nat → Option Reading) (pool : Pool) : List Turn :=
  match pool.budget with
  | none => []
  | some budget => maintainFrom budget readings 0 pool.retained

namespace Turn

/-- What is asked of a turn: it evicts no VM with an unpublished journal unless it exited;
without pressure and within the budgets only what exited or expired; and it does not
return without pressure while something exited, or expired and published, is left. -/
def Sound (budget : Budget) (turn : Turn) : Prop :=
  match turn.evicted with
  | some (idle, _) =>
      (turn.reading.pending idle = true → turn.reading.exited idle = true) ∧
        (turn.reading.underPressure budget = false → turn.reading.within budget turn.queue = true →
          turn.reading.exited idle = true ∨ turn.reading.expired idle = true)
  | none =>
      turn.reading.underPressure budget = false → ∀ idle ∈ turn.queue,
        turn.reading.exited idle = false ∧
          (turn.reading.expired idle = true → turn.reading.pending idle = true)

/-- Where nothing else calls for an eviction, the front has expired exactly when what
can be evicted first, or at all, has. -/
def InOrder (budget : Budget) (turn : Turn) : Prop :=
  turn.queue.any turn.reading.exited = false → turn.reading.underPressure budget = false →
    turn.reading.within budget turn.queue = true →
      if turn.reading.frontExpired turn.queue then
        ∀ idle, turn.queue.find? (fun idle => !turn.reading.pending idle) = some idle →
          turn.reading.expired idle = true
      else ∀ idle ∈ turn.queue,
        turn.reading.expired idle = true → turn.reading.pending idle = true

end Turn

/-! ### The loop -/

variable {budget : Budget} {readings : Nat → Option Reading} {reading : Reading}
  {queue : List Retained}

theorem getElem_findIdx? {test : Retained → Bool} {position : Nat}
    (found : queue.findIdx? test = some position) (inside : position < queue.length) :
    test queue[position] = true := by
  obtain ⟨_, meets, -⟩ := List.findIdx?_eq_some_iff_getElem.mp found
  exact meets

theorem find?_of_findIdx? {test : Retained → Bool} {position : Nat}
    (found : queue.findIdx? test = some position) (inside : position < queue.length) :
    queue.find? test = some queue[position] := by
  obtain ⟨_, meets, before⟩ := List.findIdx?_eq_some_iff_getElem.mp found
  rw [List.find?_eq_some_iff_getElem]
  exact ⟨meets, position, inside, rfl, fun earlier below => by simpa using before earlier below⟩

/-- A turn that returns because there is nothing to do. -/
theorem sound_settled (settled : reading.settled budget queue = true) :
    Turn.Sound budget ⟨reading, queue, none⟩ ↔ Turn.InOrder budget ⟨reading, queue, none⟩ := by
  simp only [Reading.settled, Bool.and_eq_true, Bool.not_eq_true'] at settled
  obtain ⟨⟨⟨running, front⟩, relaxed⟩, within⟩ := settled
  simp only [Turn.Sound, Turn.InOrder, running, front, relaxed, within, forall_const,
    Bool.false_eq_true, if_false]
  have alive := List.any_eq_false.mp running
  exact ⟨fun sound idle member => (sound idle member).2, fun ordered idle member =>
    ⟨by simpa using alive idle member, ordered idle member⟩⟩

/-- A turn that returns because everything waits for publication. -/
theorem sound_pending (budget : Budget) (none : reading.victim queue = none) :
    Turn.Sound budget ⟨reading, queue, .none⟩ ∧
      Turn.InOrder budget ⟨reading, queue, .none⟩ := by
  obtain ⟨running, waiting⟩ := Option.or_eq_none_iff.mp none
  have alive := List.findIdx?_eq_none_iff.mp running
  have pending : ∀ idle ∈ queue, reading.pending idle = true := fun idle member => by
    simpa using List.findIdx?_eq_none_iff.mp waiting idle member
  refine ⟨fun _ idle member => ⟨alive idle member, fun _ => pending idle member⟩, fun _ _ _ => ?_⟩
  split
  · intro idle found
    have published := List.find?_some found
    simp [pending idle (List.mem_of_find?_eq_some found)] at published
  · exact fun idle member _ => pending idle member

/-- A turn that evicts. -/
theorem sound_evicts {position : Nat} (busy : reading.settled budget queue = false)
    (victim : reading.victim queue = some position) (inside : position < queue.length)
    (reason : String) :
    Turn.Sound budget ⟨reading, queue, some (queue[position], reason)⟩ ↔
      Turn.InOrder budget ⟨reading, queue, some (queue[position], reason)⟩ := by
  rcases Option.or_eq_some_iff.mp victim with exits | ⟨alive, publishable⟩
  · -- an exited VM may always go
    have exited := getElem_findIdx? exits inside
    have some : queue.any reading.exited = true :=
      List.any_eq_true.mpr ⟨_, List.getElem_mem inside, exited⟩
    constructor
    · intro _ none
      rw [some] at none
      cases none
    · exact fun _ => ⟨fun _ => exited, fun _ _ => .inl exited⟩
  · have running : queue.any reading.exited = false :=
      List.any_eq_false.mpr fun idle member => by
        simp [List.findIdx?_eq_none_iff.mp alive idle member]
    have published := getElem_findIdx? publishable inside
    have first := find?_of_findIdx? publishable inside
    have stays : reading.exited queue[position] = false :=
      List.findIdx?_eq_none_iff.mp alive _ (List.getElem_mem inside)
    simp only [Bool.not_eq_true'] at published
    constructor
    · intro sound _ relaxed within
      have front : reading.frontExpired queue = true := by
        simpa [Reading.settled, running, relaxed, within] using busy
      rw [if_pos front]
      intro idle found
      obtain rfl := Option.some.inj (first.symm.trans found)
      rcases sound.2 relaxed within with exited | expired
      · rw [stays] at exited
        cases exited
      · exact expired
    · intro ordered
      refine ⟨fun pending => ?_, fun relaxed within => .inr ?_⟩
      · rw [published] at pending
        cases pending
      · have front : reading.frontExpired queue = true := by
          simpa [Reading.settled, running, relaxed, within] using busy
        have orderedHere := ordered running relaxed within
        rw [if_pos front] at orderedHere
        exact orderedHere _ first

/-- Every turn of the loop is sound exactly when its queue is in order. -/
theorem maintainFrom_sound (index : Nat) {turn : Turn}
    (taken : turn ∈ maintainFrom budget readings index queue) :
    turn.Sound budget ↔ turn.InOrder budget := by
  fun_induction maintainFrom budget readings index queue with
  | case1 index queue failed => cases taken
  | case2 index queue reading measured settled =>
      obtain rfl := List.mem_singleton.mp taken
      exact sound_settled settled
  | case3 index queue reading measured busy none =>
      obtain rfl := List.mem_singleton.mp taken
      have both := sound_pending budget none
      exact ⟨fun _ => both.2, fun _ => both.1⟩
  | case4 index queue reading measured busy position victim inside inductionHypothesis =>
      rcases List.mem_cons.mp taken with rfl | later
      · exact sound_evicts (by simpa using busy) victim inside _
      · exact inductionHypothesis later
  | case5 index queue reading measured busy position victim outside =>
      exfalso
      rcases Option.or_eq_some_iff.mp victim with found | ⟨-, found⟩
      · exact outside (List.findIdx?_eq_some_iff_getElem.mp found).1
      · exact outside (List.findIdx?_eq_some_iff_getElem.mp found).1

/-- Each turn but the last one makes the queue shorter. -/
theorem maintainFrom_length (budget : Budget) (readings : Nat → Option Reading) (index : Nat)
    (queue : List Retained) :
    (maintainFrom budget readings index queue).length ≤ queue.length + 1 := by
  fun_induction maintainFrom budget readings index queue with
  | case1 index queue failed => exact Nat.zero_le _
  | case2 index queue reading measured settled => exact Nat.le_add_left _ _
  | case3 index queue reading measured busy none => exact Nat.le_add_left _ _
  | case4 index queue reading measured busy position victim inside inductionHypothesis =>
      rw [List.length_eraseIdx_of_lt inside] at inductionHypothesis
      rw [List.length_cons]
      omega
  | case5 index queue reading measured busy position victim outside => exact Nat.le_add_left _ _

/-! ### Maintenance -/

/-- What is asked of `maintain_retained`: it ends, every turn is sound, and a pool without
budgets, which it leaves alone, holds nothing. -/
def Pool.MaintainsSoundly (readings : Nat → Option Reading) (pool : Pool) : Prop :=
  (pool.maintain readings).length ≤ pool.retained.length + 1 ∧
    (∀ budget, pool.budget = some budget → ∀ turn ∈ pool.maintain readings, turn.Sound budget) ∧
      (pool.budget = none → pool.retained = [])

/-- Maintenance evicts exactly what must go if and only if at every turn without an exited
VM, without pressure and within the budgets, the entry at the front has expired whenever
a publishable one has, and then so has the first publishable one. -/
theorem maintains_soundly_iff (readings : Nat → Option Reading) (pool : Pool) :
    pool.MaintainsSoundly readings ↔
      ∀ budget, pool.budget = some budget →
        ∀ turn ∈ pool.maintain readings, turn.InOrder budget := by
  have each : ∀ budget, pool.budget = some budget → ∀ turn ∈ pool.maintain readings,
      (turn.Sound budget ↔ turn.InOrder budget) := by
    intro budget known turn taken
    simp only [Pool.maintain, known] at taken
    exact maintainFrom_sound 0 taken
  constructor
  · intro sound budget known turn taken
    exact (each budget known turn taken).mp (sound.2.1 budget known turn taken)
  · intro ordered
    refine ⟨?_, fun budget known turn taken =>
      (each budget known turn taken).mpr (ordered budget known turn taken), pool.configured⟩
    unfold Pool.maintain
    split
    · exact Nat.zero_le _
    · exact maintainFrom_length _ _ _ _

/-- A reading without pressure at which one journal waits for publication. -/
def calmReading : Reading where
  memoryMiB := 0
  pressure := none
  now := 50
  exited _ := false
  bytes _ := some 0
  pending idle := idle.run = "a"

/-- An expired VM whose journal is unpublished at the front, and a fresh one behind it. -/
def pinnedFront : Pool :=
  (Pool.initial.configure ⟨4096⟩ fun _ => true).retain ⟨"a", 40⟩ |>.retain ⟨"b", 60⟩

/-- The fresh VM is evicted in the place of the expired one. -/
theorem fresh_vm_evicted : ¬ pinnedFront.MaintainsSoundly fun _ => some calmReading := by
  intro sound
  have taken : (⟨calmReading, [⟨"a", 40⟩, ⟨"b", 60⟩], some (⟨"b", 60⟩, "expired")⟩ : Turn) ∈
      pinnedFront.maintain fun _ => some calmReading := by
    show _ ∈ maintainFrom ⟨4096⟩ (fun _ => some calmReading) 0 [⟨"a", 40⟩, ⟨"b", 60⟩]
    rw [maintainFrom]
    exact List.mem_cons_self
  rcases (sound.2.1 ⟨4096⟩ rfl _ taken).2 rfl rfl with exited | expired
  · cases exited
  · cases expired

end Cairn.Microvm

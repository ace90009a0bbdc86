import Mathlib.Data.Finset.Card
import Mathlib.Data.Finset.Dedup
import Mathlib.Data.List.Perm.Subperm
import Cairn.Library.Steps
import Cairn.Nodes.Placement

/-!
Owns what every interleaving of the placement transactions keeps: the conversations on
a node stay within its capacity, a conversation has one active destination and one
active execution, and what a claim takes over was a destination of the conversation.

Does not own the choice among the nodes that fit.
-/

set_option autoImplicit false

namespace Cairn.Nodes.Placement

open Cairn.Library.Records
open Cairn.Library.Steps

/-! ### The conversations of a node and the attempts of a conversation -/

/-- The conversations with an active attempt on a node. -/
def Db.conversations (db : Db) (node : String) : Finset String :=
  ((Fleet.activeOn ⟨db.attempts, db.volumes⟩ node).map Attempt.runId).toFinset

/-- An active attempt of a conversation in a role. -/
def Attempt.isActiveIn (role : AttemptRole) (run : String) (attempt : Attempt) : Bool :=
  attempt.runId = run && attempt.role = role && isActiveAttempt attempt

/-- The number of active attempts of a conversation in a role. -/
def Db.activeAttempts (db : Db) (role : AttemptRole) (run : String) : Nat :=
  db.attempts.countP (Attempt.isActiveIn role run)

/-- The capacity of a node, none if there is no such node. -/
def Db.capacityOf (db : Db) (configured : Bool) (node : String) : Nat :=
  ((find Node.id node (db.placementNodes configured)).map capacity).getD 0

/-! ### The transactions as steps -/

/-- The tables, whether a controller is configured, and the reservations that the moves
of each conversation made. -/
structure State where
  db : Db
  configured : Bool
  moves : List (String × String) := []

/-- A transaction, a move that ends, or a change of the nodes. -/
inductive Step where
  | reserve (now : Int) (run : Run) (agent : Option Access) (checkpoint : Checkpoint)
      (attempt : String)
  | release (now : Int) (attempt : String)
  | materialize (attempt : String)
  | resume (run : String) (reservation : Option String)
  | report (nodes : List Node)

/-- The reservation that a conversation is to take over is one of its moves. -/
def State.moved (state : State) (run : String) (reservation : Option String) : Bool :=
  reservation.all fun id => state.moves.contains (run, id)

/-- One step. The id of a new attempt is fresh, the reservation of a conversation comes
from one of its moves, and no change of the nodes lowers a capacity. -/
def State.step (state : State) : Step → Option State
  | .reserve now run agent checkpoint attempt =>
      if state.db.attempt? attempt = none ∧
          (run.placementTransition || state.moved run.id run.moveReservation) then
        match reserveIn state.db run agent checkpoint now state.configured attempt with
        | .error _ => some state
        | .ok (db, _) =>
            some { state with
              db
              moves :=
                if run.placementTransition then (run.id, attempt) :: state.moves else state.moves }
      else none
  | .release now attempt => some { state with db := releaseIn state.db now attempt }
  | .materialize attempt =>
      match materialize state.db attempt with
      | .error _ => some state
      | .ok db => some { state with db }
  | .resume run reservation =>
      if state.moved run reservation then
        some { state with
          db := { state.db with
            moveReservation := fun other =>
              if other = run then reservation else state.db.moveReservation other } }
      else none
  | .report nodes =>
      let reported := { state.db with nodes }
      if (nodes.map Node.id).Nodup ∧ ∀ node ∈ state.db.placementNodes state.configured,
          capacity node ≤ reported.capacityOf state.configured node.id then
        some { state with db := reported }
      else none

/-- A node table and no attempt. -/
def State.Started (state : State) : Prop :=
  Keyed Node.id state.db.nodes ∧ state.db.attempts = [] ∧ state.moves = []

/-- The capacity of nodes, the exclusive roles of a conversation's attempts and the
provenance of claims, over a run. -/
structure PlacementSafe (initial : State) (steps : List Step) : Prop where
  capacity : ∀ before after state, steps = before ++ after →
    execute State.step initial before = some state →
    ∀ node, (state.db.conversations node).card ≤ state.db.capacityOf state.configured node
  destination : ∀ before after state, steps = before ++ after →
    execute State.step initial before = some state →
    ∀ run, state.db.activeAttempts .destination run ≤ 1
  execution : ∀ before after state, steps = before ++ after →
    execute State.step initial before = some state →
    ∀ run, state.db.activeAttempts .execution run ≤ 1
  claimed : ∀ before after state now run agent checkpoint attempt reservation db placed,
    steps = before ++ .reserve now run agent checkpoint attempt :: after →
    execute State.step initial before = some state → run.placementTransition = false →
    run.moveReservation = some reservation →
    reserveIn state.db run agent checkpoint now state.configured attempt = .ok (db, placed) →
    ∃ held, state.db.attempt? reservation = some held ∧ isActiveAttempt held = true ∧
      held.role = .destination ∧ held.runId = run.id ∧ held.nodeId = placed.nodeId

/-- The tests of `claim_reservation`. -/
def Claimable (db : Db) (access : Access) (configured : Bool) (run reservation : String) : Prop :=
  ∃ held record, db.attempt? reservation = some held ∧
    find Node.id held.nodeId (db.placementNodes configured) = some record ∧
    record.fuse = true ∧ record.maintenance = none ∧ held.released = false ∧
    held.runId = run ∧ allowed access held.nodeId = true ∧ record.revoked = false

/-- A step that claims a reservation of a conversation whose earlier execution is still
active. -/
def ClaimsOwned (state : State) : Step → Prop
  | .reserve _ run (some access) _ _ =>
      run.placementTransition = false ∧ ∃ reservation, run.moveReservation = some reservation ∧
        Claimable state.db access state.configured run.id reservation ∧
        0 < state.db.activeAttempts .execution run.id
  | _ => False

/-! ### What a selection fits -/

theorem mem_placementOrder {run : Run} {nodes : List Node} {node : Node}
    (member : node ∈ placementOrder run nodes) : node ∈ nodes := by
  simp only [placementOrder, List.mem_append, List.mem_filter] at member
  rcases member with ((⟨member, _⟩ | ⟨member, _⟩) | ⟨member, _⟩) | ⟨member, _⟩ <;> exact member

theorem fit_pos {fleet : Fleet} {request : Request} {node : Node} {resources : Resources}
    {headroom : Rat} (fits : fleet.fit request node resources = .ok (some headroom)) :
    0 < fleet.freeSlots request node := by
  unfold Fleet.fit at fits
  cases policy : node.storage with
  | error error => simp [policy, bind, Except.bind] at fits
  | ok policy =>
      simp only [‹node.storage = _›, bind, Except.bind] at fits
      split at fits
      · simp at fits
      · rename_i tight
        exact Nat.pos_of_ne_zero fun none => tight (by simp [none])

/-- The loop keeps a best node among those it has seen, with a free slot. -/
theorem selectFrom_fits {fleet : Fleet} {request : Request} {now : Int} {configured : Bool}
    {all nodes : List Node} {best chosen : Option Candidate} {full later : List String}
    (within : ∀ node ∈ nodes, node ∈ all)
    (fits : ∀ candidate, best = some candidate →
      candidate.node ∈ all ∧ 0 < fleet.freeSlots request candidate.node)
    (selected : selectFrom fleet request now configured nodes best full = .ok (chosen, later)) :
    ∀ candidate, chosen = some candidate →
      candidate.node ∈ all ∧ 0 < fleet.freeSlots request candidate.node := by
  induction nodes generalizing best full with
  | nil =>
      obtain ⟨rfl, _⟩ := Prod.mk.inj (Except.ok.inj selected)
      exact fits
  | cons node nodes inductionHypothesis =>
      have tail : ∀ other ∈ nodes, other ∈ all := fun other member =>
        within other (List.mem_cons_of_mem _ member)
      unfold selectFrom at selected
      split at selected
      · split at selected
        · exact inductionHypothesis tail fits selected
        · split at selected
          · simp at selected
          · exact inductionHypothesis tail fits selected
          · rename_i resources _ _ headroom fit
            refine inductionHypothesis tail (fun candidate kept => ?_) selected
            split at kept
            · obtain rfl := Option.some.inj kept
              exact ⟨within node List.mem_cons_self, fit_pos fit⟩
            · exact fits candidate kept
      · exact inductionHypothesis tail fits selected

theorem select_fits {db : Db} {request : Request} {now : Int} {configured : Bool}
    {best : Candidate} (selected : select db request now configured = .ok best) :
    best.node ∈ db.placementNodes configured ∧
      0 < Fleet.freeSlots ⟨db.attempts, db.volumes⟩ request best.node := by
  unfold select at selected
  simp only [bind, Except.bind] at selected
  split at selected
  · simp at selected
  · rename_i chosen looped
    split at selected
    · rename_i candidate isChosen
      obtain rfl := Except.ok.inj selected
      exact selectFrom_fits (fun node member => mem_placementOrder member) (by simp) looped
        candidate isChosen
    · simp at selected

/-! ### What a transaction does to the attempts -/

/-- What an admission requires and records. -/
theorem admit_of_ok {db next : Db} {request : Request} {best : Candidate} {now : Int}
    {attempt : String} {placed : Placed}
    (admitted : admitAttempt db request best now attempt = .ok (next, placed)) :
    stillOwned request db.attempts = false ∧ next.nodes = db.nodes ∧
      ∃ additional, next.attempts =
        put Attempt.id (newAttempt request best now attempt additional) db.attempts := by
  unfold admitAttempt at admitted
  split at admitted
  · simp at admitted
  · rename_i free
    obtain ⟨rfl, _⟩ := Prod.mk.inj (Except.ok.inj admitted)
    exact ⟨Bool.eq_false_iff.mpr free, rfl, _, rfl⟩

/-- The attempt that takes a reservation over. -/
def takeOver (held : Attempt) (now : Int) (attempt : String) : Attempt :=
  { held with
    id := attempt
    role := .execution
    leaseExpiresAt := now + reservationLeaseMs }

/-- What a claim requires, releases and records. -/
theorem claim_of_ok {db next : Db} {request : Request} {now : Int} {configured : Bool}
    {reservation attempt : String} {placed : Placed}
    (claimed : claimReservation db request now configured reservation attempt = .ok (next, placed)) :
    Claimable db request.access configured request.run.id reservation ∧
      ∃ held, db.attempt? reservation = some held ∧ held.released = false ∧
        held.runId = request.run.id ∧ held.nodeId = placed.nodeId ∧ next.nodes = db.nodes ∧
        next.attempts = put Attempt.id (takeOver held now attempt)
          (put Attempt.id { held with released := true } db.attempts) ∧
        next.volumes = db.volumes := by
  unfold claimReservation at claimed
  split at claimed
  · simp at claimed
  · rename_i held found
    split at claimed
    · simp at claimed
    · rename_i record known
      split at claimed
      · simp at claimed
      · rename_i fuse
        split at claimed
        · simp at claimed
        · rename_i maintained
          split at claimed
          · simp at claimed
          · rename_i granted
            obtain ⟨rfl, rfl⟩ := Prod.mk.inj (Except.ok.inj claimed)
            simp only [Bool.or_eq_true, decide_eq_true_eq, Bool.not_eq_true', not_or,
              Bool.not_eq_true, Bool.not_eq_false, ne_eq, not_not] at granted fuse
            obtain ⟨⟨⟨active, own⟩, granted⟩, revoked⟩ := granted
            exact ⟨⟨held, record, found, known, fuse, by simpa using maintained, active, own,
              granted, revoked⟩, held, found, active, own, rfl, rfl, rfl, rfl⟩

/-- The tests are all a claim makes. -/
theorem claim_ok_of_claimable {db : Db} {request : Request} (now : Int) {configured : Bool}
    {reservation : String} (attempt : String)
    (claimable : Claimable db request.access configured request.run.id reservation) :
    ∃ next placed, claimReservation db request now configured reservation attempt =
      .ok (next, placed) := by
  obtain ⟨held, record, found, known, fuse, maintained, active, own, granted, revoked⟩ := claimable
  simp only [claimReservation, found, known, fuse, maintained, active, own, granted, revoked]
  rw [if_neg (by simp), if_neg (by simp), if_neg (by simp)]
  exact ⟨_, _, rfl⟩

/-- A reservation is a claim or an admission on a node with a free slot. -/
theorem reserveIn_of_ok {db next : Db} {run : Run} {agent : Option Access}
    {checkpoint : Checkpoint} {now : Int} {configured : Bool} {attempt : String} {placed : Placed}
    (reserved : reserveIn db run agent checkpoint now configured attempt = .ok (next, placed)) :
    ∃ access, agent = some access ∧
      ((run.placementTransition = false ∧ ∃ reservation, run.moveReservation = some reservation ∧
          claimReservation db ⟨run, access, checkpoint⟩ now configured reservation attempt =
            .ok (next, placed)) ∨
        ∃ best, select db ⟨run, access, checkpoint⟩ now configured = .ok best ∧
          admitAttempt db ⟨run, access, checkpoint⟩ best now attempt = .ok (next, placed)) := by
  unfold reserveIn at reserved
  cases agent with
  | none => simp at reserved
  | some access =>
      refine ⟨access, rfl, ?_⟩
      simp only [Request.moving] at reserved
      split at reserved
      · rename_i reservation taken
        obtain ⟨still, isReservation⟩ : run.placementTransition = false ∧
            run.moveReservation = some reservation := by
          cases moving : run.placementTransition <;> simp [moving] at taken
          exact ⟨rfl, taken⟩
        exact .inl ⟨still, reservation, isReservation, reserved⟩
      · simp only [bind, Except.bind] at reserved
        split at reserved
        · simp at reserved
        · exact .inr ⟨_, ‹_›, reserved⟩

/-- An attempt is stored again with its role, conversation and node, not active unless
it was. -/
structure Updates (db next : Db) (old record : Attempt) : Prop where
  found : db.attempt? record.id = some old
  role : record.role = old.role
  runId : record.runId = old.runId
  nodeId : record.nodeId = old.nodeId
  active : isActiveAttempt record = true → isActiveAttempt old = true
  attempts : next.attempts = put Attempt.id record db.attempts
  nodes : next.nodes = db.nodes

theorem releaseIn_cases (db : Db) (now : Int) (attempt : String) :
    releaseIn db now attempt = db ∨ ∃ old record, Updates db (releaseIn db now attempt) old record := by
  unfold releaseIn
  cases found : db.attempt? attempt with
  | none => exact .inl rfl
  | some record =>
      obtain rfl : record.id = attempt := (mem_of_find found).2
      simp only
      split
      · exact .inl rfl
      · right
        refine ⟨record, { record with released := true, releasedAt := some now },
          found, rfl, rfl, rfl, by simp [isActiveAttempt], ?_, ?_⟩
        · split
          · rfl
          · split <;> split <;> rfl
        · split
          · rfl
          · split <;> split <;> rfl

theorem materialize_of_ok {db next : Db} {attempt : String}
    (materialized : materialize db attempt = .ok next) :
    ∃ old record, Updates db next old record := by
  unfold materialize at materialized
  split at materialized
  · simp at materialized
  · rename_i record found
    obtain rfl : record.id = attempt := (mem_of_find found).2
    split at materialized
    · simp at materialized
    · split at materialized
      · simp at materialized
      · obtain rfl := Except.ok.inj materialized
        exact ⟨record, { record with diskMaterialized := true },
          found, rfl, rfl, rfl, id, rfl, rfl⟩

/-! ### Counting conversations and attempts -/

theorem mem_conversations {db : Db} {node run : String} :
    run ∈ db.conversations node ↔ ∃ attempt ∈ db.attempts, attempt.nodeId = node ∧
      isActiveAttempt attempt = true ∧ attempt.runId = run := by
  simp [Db.conversations, Fleet.activeOn, and_assoc]

theorem isActiveIn_iff {role : AttemptRole} {run : String} {attempt : Attempt} :
    attempt.isActiveIn role run = true ↔
      attempt.runId = run ∧ attempt.role = role ∧ isActiveAttempt attempt = true := by
  simp [Attempt.isActiveIn, and_assoc]

theorem conversations_subset {db next : Db}
    (known : ∀ attempt ∈ next.attempts, isActiveAttempt attempt = true →
      ∃ earlier ∈ db.attempts, earlier.nodeId = attempt.nodeId ∧
        isActiveAttempt earlier = true ∧ earlier.runId = attempt.runId) (node : String) :
    next.conversations node ⊆ db.conversations node := by
  intro run member
  obtain ⟨attempt, stored, rfl, active, rfl⟩ := mem_conversations.mp member
  exact mem_conversations.mpr (known attempt stored active)

theorem capacityOf_congr {db next : Db} (same : next.nodes = db.nodes) (configured : Bool)
    (node : String) : next.capacityOf configured node = db.capacityOf configured node := by
  simp only [Db.capacityOf, Db.placementNodes, same]

theorem keyed_placementNodes {db : Db} (keyed : Keyed Node.id db.nodes) (configured : Bool) :
    Keyed Node.id (db.placementNodes configured) := by
  unfold Db.placementNodes
  split
  · rename_i absent
    rw [Keyed, List.map_append, List.nodup_append]
    refine ⟨keyed, List.nodup_singleton _, ?_⟩
    simp only [Bool.and_eq_true, List.all_eq_true, decide_eq_true_eq] at absent
    intro id member other isLocal same
    obtain ⟨node, stored, rfl⟩ := List.mem_map.mp member
    obtain rfl := List.mem_singleton.mp isLocal
    exact absent.2 node stored same
  · exact keyed

theorem capacityOf_of_mem {db : Db} {configured : Bool} {node : Node}
    (keyed : Keyed Node.id db.nodes) (member : node ∈ db.placementNodes configured) :
    db.capacityOf configured node.id = capacity node := by
  rw [Db.capacityOf, find_of_mem (keyed_placementNodes keyed configured) member]
  rfl

/-- Each attempt of another conversation takes one of the slots that are not free. -/
theorem others_lt_capacity {fleet : Fleet} {request : Request} {node : Node}
    (free : 0 < fleet.freeSlots request node) :
    ((((fleet.activeOn node.id).filter fun attempt => attempt.runId ≠ request.run.id).map
      Attempt.runId).toFinset).card < capacity node := by
  have counted : ((fleet.activeOn node.id).filter fun attempt =>
      attempt.runId ≠ request.run.id).length ≤ ((fleet.activeOn node.id).filter fun attempt =>
        !(request.moving && attempt.runId = request.run.id)).length := by
    refine (List.monotone_filter_right _ fun attempt other => ?_).length_le
    have apart : attempt.runId ≠ request.run.id := of_decide_eq_true other
    simp [apart]
  have distinct := List.toFinset_card_le
    (((fleet.activeOn node.id).filter fun attempt => attempt.runId ≠ request.run.id).map
      Attempt.runId)
  rw [List.length_map] at distinct
  exact (distinct.trans counted).trans_lt (Nat.lt_of_sub_pos free)

/-- A conversation is added to those of one node, where it takes at most one slot. -/
theorem conversations_put_le {db next : Db} {request : Request} {best : Candidate}
    {record : Attempt} (attempts : next.attempts = put Attempt.id record db.attempts)
    (run : record.runId = request.run.id) (place : record.nodeId = best.node.id)
    (free : 0 < Fleet.freeSlots ⟨db.attempts, db.volumes⟩ request best.node) (node : String) :
    (next.conversations node).card ≤
      max (db.conversations node).card (if node = best.node.id then capacity best.node else 0) := by
  by_cases chosen : node = best.node.id
  · subst chosen
    rw [if_pos rfl]
    refine le_trans ?_ (le_max_right _ _)
    refine le_trans (Finset.card_le_card ?_)
      ((Finset.card_insert_le request.run.id _).trans (others_lt_capacity free))
    intro other member
    obtain ⟨attempt, stored, onNode, active, rfl⟩ := mem_conversations.mp member
    rw [attempts, mem_put] at stored
    rcases stored with rfl | ⟨stored, _⟩
    · exact Finset.mem_insert.mpr (.inl run)
    · by_cases own : attempt.runId = request.run.id
      · exact Finset.mem_insert.mpr (.inl own)
      · refine Finset.mem_insert_of_mem (List.mem_toFinset.mpr (List.mem_map.mpr ⟨attempt, ?_, rfl⟩))
        simp [Fleet.activeOn, stored, onNode, active, own]
  · refine le_trans (Finset.card_le_card ?_) (le_max_left _ _)
    intro other member
    obtain ⟨attempt, stored, onNode, active, rfl⟩ := mem_conversations.mp member
    rw [attempts, mem_put] at stored
    rcases stored with rfl | ⟨stored, _⟩
    · exact absurd (onNode.symm.trans place) chosen
    · exact mem_conversations.mpr ⟨attempt, stored, onNode, active, rfl⟩

namespace Updates

variable {db next : Db} {old record : Attempt}

theorem conversations_subset (updates : Updates db next old record) (node : String) :
    next.conversations node ⊆ db.conversations node := by
  refine Placement.conversations_subset (fun attempt stored active => ?_) node
  rw [updates.attempts, mem_put] at stored
  rcases stored with rfl | ⟨stored, _⟩
  · exact ⟨old, (mem_of_find updates.found).1, updates.nodeId.symm, updates.active active,
      updates.runId.symm⟩
  · exact ⟨attempt, stored, rfl, active, rfl⟩

/-- A count gives up the old attempt and takes the stored one. -/
theorem activeAttempts_eq (updates : Updates db next old record)
    (keyed : Keyed Attempt.id db.attempts) (role : AttemptRole) (run : String) :
    next.activeAttempts role run + (if old.isActiveIn role run then 1 else 0) =
      db.activeAttempts role run + (if record.isActiveIn role run then 1 else 0) := by
  rw [Db.activeAttempts, updates.attempts]
  exact countP_put_of_found keyed _ updates.found

theorem activeAttempts_le (updates : Updates db next old record)
    (keyed : Keyed Attempt.id db.attempts) (role : AttemptRole) (run : String) :
    next.activeAttempts role run ≤ db.activeAttempts role run := by
  have counted := updates.activeAttempts_eq keyed role run
  have weaker : record.isActiveIn role run = true → old.isActiveIn role run = true := by
    simp only [isActiveIn_iff]
    rintro ⟨isRun, isRole, active⟩
    exact ⟨updates.runId.symm.trans isRun, updates.role.symm.trans isRole, updates.active active⟩
  by_cases counts : record.isActiveIn role run = true
  · rw [if_pos counts, if_pos (weaker counts)] at counted
    omega
  · rw [if_neg counts] at counted
    omega

end Updates

/-- A new attempt adds one to the count of its role and conversation. -/
theorem activeAttempts_put {db next : Db} {record : Attempt}
    (attempts : next.attempts = put Attempt.id record db.attempts)
    (absent : db.attempt? record.id = none) (role : AttemptRole) (run : String) :
    next.activeAttempts role run =
      db.activeAttempts role run + (if record.isActiveIn role run then 1 else 0) := by
  rw [Db.activeAttempts, attempts]
  exact countP_put_of_absent _ absent

/-- An admission finds no active attempt in the role it gives. -/
theorem activeAttempts_admit_le {db next : Db} {request : Request} {best : Candidate} {now : Int}
    {attempt : String} {placed : Placed} {role : AttemptRole} {run : String}
    (admitted : admitAttempt db request best now attempt = .ok (next, placed))
    (fresh : db.attempt? attempt = none) (single : db.activeAttempts role run ≤ 1) :
    next.activeAttempts role run ≤ 1 := by
  obtain ⟨free, _, additional, attempts⟩ := admit_of_ok admitted
  rw [activeAttempts_put attempts fresh]
  split
  · rename_i counts
    obtain ⟨rfl, rfl, _⟩ := isActiveIn_iff.mp counts
    have none : db.activeAttempts (newAttempt request best now attempt additional).role
        request.run.id = 0 := by
      refine List.countP_eq_zero.mpr fun other stored active => ?_
      obtain ⟨own, role, live⟩ := isActiveIn_iff.mp active
      refine absurd (List.any_eq_false.mp free other stored) ?_
      cases moving : request.moving <;> simp [own, role, live, newAttempt, moving]
    exact Nat.add_le_add_right none.le 1
  · exact single

/-- A claim releases what it takes over before it records the new attempt. -/
theorem claim_updates {db next : Db} {request : Request} {now : Int} {configured : Bool}
    {reservation attempt : String} {placed : Placed} (fresh : db.attempt? attempt = none)
    (claimed : claimReservation db request now configured reservation attempt = .ok (next, placed)) :
    ∃ held middle, db.attempt? reservation = some held ∧ isActiveAttempt held = true ∧
      held.runId = request.run.id ∧ held.nodeId = placed.nodeId ∧
      Updates db middle held { held with released := true } ∧
      middle.attempt? (takeOver held now attempt).id = none ∧
      next.attempts = put Attempt.id (takeOver held now attempt) middle.attempts ∧
      next.nodes = db.nodes := by
  obtain ⟨_, held, found, active, own, place, nodes, attempts, _⟩ := claim_of_ok claimed
  have named : held.id = reservation := (mem_of_find found).2
  refine ⟨held, db.putAttempt { held with released := true }, found, ?_, own, place,
    ⟨named ▸ found, rfl, rfl, rfl, ?_, rfl, rfl⟩, ?_, attempts, nodes⟩
  · simp [isActiveAttempt, active]
  · simp [isActiveAttempt]
  · have apart : attempt ≠ held.id := by
      rintro rfl
      rw [named, found] at fresh
      simp at fresh
    rw [Db.attempt?, Db.putAttempt, find_put]
    exact (if_neg apart).trans fresh

/-! ### The invariant -/

/-- Every stored attempt keeps its conversation and its role. -/
def Retains (db next : Db) : Prop :=
  ∀ id held, db.attempt? id = some held →
    ∃ later, next.attempt? id = some later ∧ later.runId = held.runId ∧ later.role = held.role

theorem Retains.trans {db middle next : Db} (first : Retains db middle)
    (second : Retains middle next) : Retains db next := by
  intro id held found
  obtain ⟨later, isLater, run, role⟩ := first id held found
  obtain ⟨last, isLast, lastRun, lastRole⟩ := second id later isLater
  exact ⟨last, isLast, lastRun.trans run, lastRole.trans role⟩

theorem retains_put {db next : Db} {record : Attempt}
    (attempts : next.attempts = put Attempt.id record db.attempts)
    (agrees : ∀ old, db.attempt? record.id = some old →
      record.runId = old.runId ∧ record.role = old.role) : Retains db next := by
  intro id held found
  rw [Db.attempt?, attempts, find_put]
  split
  · rename_i same
    exact ⟨record, rfl, agrees held (same ▸ found)⟩
  · exact ⟨held, found, rfl, rfl⟩

/-- What every run of the placement transactions keeps. -/
structure State.Sound (state : State) : Prop where
  attempts : Keyed Attempt.id state.db.attempts
  nodes : Keyed Node.id state.db.nodes
  moves : ∀ run id, (run, id) ∈ state.moves →
    ∃ held, state.db.attempt? id = some held ∧ held.runId = run ∧ held.role = .destination
  capacity : ∀ node,
    (state.db.conversations node).card ≤ state.db.capacityOf state.configured node
  destination : ∀ run, state.db.activeAttempts .destination run ≤ 1

theorem State.Started.sound {state : State} (started : state.Started) : state.Sound := by
  obtain ⟨keyed, empty, unmoved⟩ := started
  refine ⟨?_, keyed, ?_, fun node => ?_, fun run => ?_⟩
  · rw [empty]
    exact List.nodup_nil
  · rw [unmoved]
    exact fun _ _ member => absurd member List.not_mem_nil
  · simp [Db.conversations, Fleet.activeOn, empty]
  · simp [Db.activeAttempts, empty]

namespace State.Sound

variable {state : State} {db : Db}

theorem moves_of_retains (sound : state.Sound) (retains : Retains state.db db) (run id : String)
    (member : (run, id) ∈ state.moves) :
    ∃ held, db.attempt? id = some held ∧ held.runId = run ∧ held.role = .destination := by
  obtain ⟨held, found, isRun, isRole⟩ := sound.moves run id member
  obtain ⟨later, isLater, laterRun, laterRole⟩ := retains id held found
  exact ⟨later, isLater, laterRun.trans isRun, laterRole.trans isRole⟩

theorem updated {old record : Attempt} (sound : state.Sound)
    (updates : Updates state.db db old record) : State.Sound { state with db } where
  attempts := updates.attempts ▸ keyed_put sound.attempts
  nodes := updates.nodes ▸ sound.nodes
  moves := sound.moves_of_retains (retains_put updates.attempts fun other found => by
    obtain rfl := Option.some.inj (updates.found.symm.trans found)
    exact ⟨updates.runId, updates.role⟩)
  capacity node := by
    rw [capacityOf_congr updates.nodes]
    exact (Finset.card_le_card (updates.conversations_subset node)).trans (sound.capacity node)
  destination run :=
    (updates.activeAttempts_le sound.attempts .destination run).trans (sound.destination run)

/-- An admission takes a free slot, and a moving conversation had no destination. -/
theorem admitted {request : Request} {best : Candidate} {now : Int} {attempt : String}
    {placed : Placed} (sound : state.Sound)
    (selected : select state.db request now state.configured = .ok best)
    (fresh : state.db.attempt? attempt = none)
    (admitted : admitAttempt state.db request best now attempt = .ok (db, placed)) :
    State.Sound { state with
      db
      moves := if request.moving then (request.run.id, attempt) :: state.moves else state.moves } := by
  obtain ⟨_, nodes, additional, attempts⟩ := admit_of_ok admitted
  have retains : Retains state.db db := retains_put attempts fun old found =>
    absurd (fresh.symm.trans found) (by simp)
  have recorded : db.attempt? attempt =
      some (newAttempt request best now attempt additional) := by
    rw [Db.attempt?, attempts, find_put]
    exact if_pos rfl
  refine ⟨attempts ▸ keyed_put sound.attempts, nodes ▸ sound.nodes, ?_, ?_, ?_⟩
  · intro run id member
    cases moving : request.moving with
    | false =>
        rw [moving, if_neg (by simp)] at member
        exact sound.moves_of_retains retains run id member
    | true =>
        rw [moving, if_pos rfl] at member
        rcases List.mem_cons.mp member with own | earlier
        · obtain ⟨rfl, rfl⟩ := Prod.mk.inj own
          exact ⟨_, recorded, rfl, by simp [newAttempt, moving]⟩
        · exact sound.moves_of_retains retains run id earlier
  · intro node
    obtain ⟨member, slot⟩ := select_fits selected
    refine (conversations_put_le attempts rfl rfl slot node).trans (max_le ?_ ?_)
    · rw [capacityOf_congr nodes]
      exact sound.capacity node
    · split
      · rename_i same
        rw [capacityOf_congr nodes, same, capacityOf_of_mem sound.nodes member]
      · exact Nat.zero_le _
  · exact fun run => activeAttempts_admit_le admitted fresh (sound.destination run)

/-- A claim puts an execution where its conversation held a slot. -/
theorem claimed {request : Request} {now : Int} {reservation attempt : String} {placed : Placed}
    (sound : state.Sound) (fresh : state.db.attempt? attempt = none)
    (claimed : claimReservation state.db request now state.configured reservation attempt =
      .ok (db, placed)) : State.Sound { state with db } := by
  obtain ⟨held, middle, found, active, _, _, updates, absent, attempts, nodes⟩ :=
    claim_updates fresh claimed
  have keyed : Keyed Attempt.id middle.attempts := updates.attempts ▸ keyed_put sound.attempts
  have released : Retains state.db middle := retains_put updates.attempts fun other isOther => by
    obtain rfl := Option.some.inj (updates.found.symm.trans isOther)
    exact ⟨rfl, rfl⟩
  have recorded : Retains middle db := retains_put attempts fun old isOld =>
    absurd (absent.symm.trans isOld) (by simp)
  refine ⟨attempts ▸ keyed_put keyed, nodes ▸ sound.nodes,
    sound.moves_of_retains (released.trans recorded), fun node => ?_, fun run => ?_⟩
  · rw [capacityOf_congr nodes]
    refine (Finset.card_le_card ?_).trans (sound.capacity node)
    refine conversations_subset (fun other stored live => ?_) node
    rw [attempts, mem_put, updates.attempts, mem_put] at stored
    rcases stored with rfl | ⟨rfl | ⟨stored, _⟩, _⟩
    · exact ⟨held, (mem_of_find found).1, rfl, active, rfl⟩
    · exact absurd live (by simp [isActiveAttempt])
    · exact ⟨other, stored, rfl, live, rfl⟩
  · rw [activeAttempts_put attempts absent, if_neg (by simp [Attempt.isActiveIn, takeOver])]
    exact (updates.activeAttempts_le sound.attempts .destination run).trans (sound.destination run)

/-- Every step keeps the invariant. -/
theorem step {next : State} {step : Step} (sound : state.Sound)
    (taken : state.step step = some next) : next.Sound := by
  cases step with
  | reserve now run agent checkpoint attempt =>
      simp only [State.step] at taken
      split at taken
      · rename_i guard
        split at taken
        · exact Option.some.inj taken ▸ sound
        · rename_i db placed reserved
          obtain rfl := Option.some.inj taken
          obtain ⟨access, rfl, ⟨still, reservation, _, claimed⟩ | ⟨best, selected, admitted⟩⟩ :=
            reserveIn_of_ok reserved
          · simpa [still] using sound.claimed guard.1 claimed
          · exact sound.admitted selected guard.1 admitted
      · simp at taken
  | release now attempt =>
      obtain rfl := Option.some.inj taken
      rcases releaseIn_cases state.db now attempt with same | ⟨old, record, updates⟩
      · rw [same]
        exact sound
      · exact sound.updated updates
  | materialize attempt =>
      simp only [State.step] at taken
      split at taken
      · exact Option.some.inj taken ▸ sound
      · rename_i db materialized
        obtain rfl := Option.some.inj taken
        obtain ⟨old, record, updates⟩ := materialize_of_ok materialized
        exact sound.updated updates
  | resume run reservation =>
      simp only [State.step] at taken
      split at taken
      · obtain rfl := Option.some.inj taken
        exact ⟨sound.attempts, sound.nodes, sound.moves, sound.capacity, sound.destination⟩
      · simp at taken
  | report nodes =>
      simp only [State.step] at taken
      split at taken
      · rename_i guard
        obtain rfl := Option.some.inj taken
        refine ⟨sound.attempts, guard.1, sound.moves, fun node => ?_, sound.destination⟩
        refine (sound.capacity node).trans ?_
        cases known : find Node.id node (state.db.placementNodes state.configured) with
        | none => simp [Db.capacityOf, known]
        | some record =>
            obtain ⟨member, rfl⟩ := mem_of_find known
            rw [capacityOf_of_mem sound.nodes member]
            exact guard.2 record member
      · simp at taken

/-- The reservation that a claim takes over is a destination of the conversation. -/
theorem held_destination {run reservation : String} {held : Attempt} (sound : state.Sound)
    (moved : state.moved run (some reservation) = true)
    (found : state.db.attempt? reservation = some held) : held.role = .destination := by
  obtain ⟨other, isOther, _, role⟩ := sound.moves run reservation (by simpa [State.moved] using moved)
  obtain rfl := Option.some.inj (found.symm.trans isOther)
  exact role

/-- A claim adds one execution, whatever is still active. -/
theorem claim_executions {request : Request} {now : Int} {reservation attempt : String}
    {placed : Placed} (sound : state.Sound) (fresh : state.db.attempt? attempt = none)
    (moved : state.moved request.run.id (some reservation) = true)
    (claimed : claimReservation state.db request now state.configured reservation attempt =
      .ok (db, placed)) (run : String) :
    db.activeAttempts .execution run =
      state.db.activeAttempts .execution run + (if request.run.id = run then 1 else 0) := by
  obtain ⟨held, middle, found, active, own, _, updates, absent, attempts, _⟩ :=
    claim_updates fresh claimed
  have role := sound.held_destination moved found
  have kept := updates.activeAttempts_eq sound.attempts .execution run
  rw [if_neg (by simp [Attempt.isActiveIn, role]), if_neg (by simp [Attempt.isActiveIn, role]),
    Nat.add_zero, Nat.add_zero] at kept
  have live : (takeOver held now attempt).isActiveIn .execution run = true ↔
      request.run.id = run := by
    rw [isActiveIn_iff, ← own]
    exact ⟨fun counts => counts.1, fun same => ⟨same, rfl, active⟩⟩
  rw [activeAttempts_put attempts absent, kept, if_congr live rfl rfl]

/-- A reservation that is no claim of a conversation with an active execution leaves at
most one execution. -/
theorem reserve_executions {now : Int} {run : Run} {agent : Option Access}
    {checkpoint : Checkpoint} {attempt : String} {placed : Placed} (sound : state.Sound)
    (single : ∀ run, state.db.activeAttempts .execution run ≤ 1)
    (clear : ¬ ClaimsOwned state (.reserve now run agent checkpoint attempt))
    (fresh : state.db.attempt? attempt = none)
    (moved : (run.placementTransition || state.moved run.id run.moveReservation) = true)
    (reserved : reserveIn state.db run agent checkpoint now state.configured attempt =
      .ok (db, placed)) (other : String) : db.activeAttempts .execution other ≤ 1 := by
  obtain ⟨access, rfl, ⟨still, reservation, held, claimed⟩ | ⟨best, _, admitted⟩⟩ :=
    reserveIn_of_ok reserved
  · rw [still, held, Bool.false_or] at moved
    rw [sound.claim_executions fresh moved claimed]
    split
    · rename_i same
      have none : state.db.activeAttempts .execution run.id = 0 :=
        Nat.eq_zero_of_not_pos fun owned =>
          clear ⟨still, reservation, held, (claim_of_ok claimed).1, owned⟩
      rw [← same, none]
    · exact single other
  · exact activeAttempts_admit_le admitted fresh (single other)

/-- A step that claims no owned conversation leaves at most one execution. -/
theorem step_executions {next : State} {step : Step} (sound : state.Sound)
    (single : ∀ run, state.db.activeAttempts .execution run ≤ 1)
    (clear : ¬ ClaimsOwned state step) (taken : state.step step = some next) :
    ∀ run, next.db.activeAttempts .execution run ≤ 1 := by
  cases step with
  | reserve now run agent checkpoint attempt =>
      simp only [State.step] at taken
      split at taken
      · rename_i guard
        split at taken
        · exact Option.some.inj taken ▸ single
        · rename_i db placed reserved
          obtain rfl := Option.some.inj taken
          exact sound.reserve_executions single clear guard.1 guard.2 reserved
      · simp at taken
  | release now attempt =>
      obtain rfl := Option.some.inj taken
      rcases releaseIn_cases state.db now attempt with same | ⟨old, record, updates⟩
      · rw [same]
        exact single
      · exact fun run => (updates.activeAttempts_le sound.attempts _ run).trans (single run)
  | materialize attempt =>
      simp only [State.step] at taken
      split at taken
      · exact Option.some.inj taken ▸ single
      · rename_i db materialized
        obtain rfl := Option.some.inj taken
        obtain ⟨old, record, updates⟩ := materialize_of_ok materialized
        exact fun run => (updates.activeAttempts_le sound.attempts _ run).trans (single run)
  | resume run reservation =>
      simp only [State.step] at taken
      split at taken
      · obtain rfl := Option.some.inj taken
        exact single
      · simp at taken
  | report nodes =>
      simp only [State.step] at taken
      split at taken
      · obtain rfl := Option.some.inj taken
        exact single
      · simp at taken

/-- A claim of an owned conversation leaves two executions. -/
theorem claims_owned_executions {next : State} {step : Step} (sound : state.Sound)
    (owned : ClaimsOwned state step) (taken : state.step step = some next) :
    ∃ run, 1 < next.db.activeAttempts .execution run := by
  cases step with
  | reserve now run agent checkpoint attempt =>
      cases agent with
      | none => exact owned.elim
      | some access =>
          obtain ⟨still, reservation, held, claimable, active⟩ := owned
          obtain ⟨db, placed, claimed⟩ :=
            @claim_ok_of_claimable _ ⟨run, access, checkpoint⟩ now _ _ attempt claimable
          have reserved : reserveIn state.db run (some access) checkpoint now state.configured
              attempt = .ok (db, placed) := by
            simpa [reserveIn, Request.moving, still, held] using claimed
          simp only [State.step, reserved] at taken
          split at taken
          · rename_i guard
            obtain rfl := Option.some.inj taken
            have moved := guard.2
            rw [still, held, Bool.false_or] at moved
            refine ⟨run.id, ?_⟩
            rw [sound.claim_executions guard.1 moved claimed, if_pos rfl]
            exact Nat.succ_lt_succ active
          · simp at taken
  | _ => exact owned.elim

theorem run {initial final : State} {steps : List Step} (sound : initial.Sound)
    (executed : execute State.step initial steps = some final) : final.Sound :=
  execute_invariant (fun _ _ _ held taken => held.step taken) sound executed

end State.Sound

/-- Every claim takes over an active destination of its conversation and node. -/
theorem State.Sound.claim_held {state : State} {db : Db} {now : Int} {run : Run}
    {agent : Option Access} {checkpoint : Checkpoint} {attempt reservation : String}
    {placed : Placed} (sound : state.Sound) (moved : state.moved run.id run.moveReservation = true)
    (still : run.placementTransition = false) (isReservation : run.moveReservation = some reservation)
    (reserved : reserveIn state.db run agent checkpoint now state.configured attempt =
      .ok (db, placed)) :
    ∃ held, state.db.attempt? reservation = some held ∧ isActiveAttempt held = true ∧
      held.role = .destination ∧ held.runId = run.id ∧ held.nodeId = placed.nodeId := by
  cases agent with
  | none => simp [reserveIn] at reserved
  | some access =>
      have claimed : claimReservation state.db ⟨run, access, checkpoint⟩ now state.configured
          reservation attempt = .ok (db, placed) := by
        simpa [reserveIn, Request.moving, still, isReservation] using reserved
      obtain ⟨_, held, found, active, own, place, _⟩ := claim_of_ok claimed
      rw [isReservation] at moved
      exact ⟨held, found, by simp [isActiveAttempt, active], sound.held_destination moved found,
        own, place⟩

/-- In a run from a table without attempts, conversations keep to the capacity of nodes
and to one active destination and execution, and every claim takes over a destination
of its conversation and node, exactly when no claim takes over the reservation of a
conversation whose earlier execution is still active. -/
theorem placement_safe_iff {initial final : State} {steps : List Step} (started : initial.Started)
    (executed : execute State.step initial steps = some final) :
    PlacementSafe initial steps ↔
      Throughout State.step (fun state step => ¬ ClaimsOwned state step) initial steps := by
  constructor
  · intro safe
    refine throughout_iff.mpr fun before head after state split reached owned => ?_
    subst split
    obtain ⟨middle, isMiddle, rest⟩ := execute_append.mp executed
    obtain rfl := Option.some.inj (reached.symm.trans isMiddle)
    obtain ⟨next, taken, _⟩ := execute_cons.mp rest
    obtain ⟨run, twice⟩ := (started.sound.run reached).claims_owned_executions owned taken
    have extended : execute State.step initial (before ++ [head]) = some next :=
      execute_append.mpr ⟨state, reached, execute_cons.mpr ⟨next, taken, rfl⟩⟩
    exact absurd (safe.execution (before ++ [head]) after next (by simp) extended run)
      (Nat.not_le.mpr twice)
  · intro clear
    refine ⟨?_, ?_, ?_, ?_⟩
    · exact fun before after state _ reached => (started.sound.run reached).capacity
    · exact fun before after state _ reached => (started.sound.run reached).destination
    · intro before after state split reached
      subst split
      have single : ∀ run, initial.db.activeAttempts .execution run ≤ 1 := by
        simp [Db.activeAttempts, started.2.1]
      have preserved : ∀ state head next,
          (state.Sound ∧ ∀ run, state.db.activeAttempts .execution run ≤ 1) →
          ¬ ClaimsOwned state head → State.step state head = some next →
          next.Sound ∧ ∀ run, next.db.activeAttempts .execution run ≤ 1 :=
        fun _ _ _ held clear taken =>
          ⟨held.1.step taken, held.1.step_executions held.2 clear taken⟩
      exact (execute_invariant_where preserved ⟨started.sound, single⟩
        (throughout_append.mp clear).1 reached).2
    · intro before after state now run agent checkpoint attempt reservation db placed split reached
        still isReservation reserved
      subst split
      obtain ⟨middle, isMiddle, rest⟩ := execute_append.mp executed
      obtain rfl := Option.some.inj (reached.symm.trans isMiddle)
      obtain ⟨next, taken, _⟩ := execute_cons.mp rest
      have moved : state.moved run.id run.moveReservation = true := by
        simp only [State.step] at taken
        split at taken
        · rename_i guard
          simpa [still] using guard.2
        · simp at taken
      exact (started.sound.run reached).claim_held moved still isReservation reserved

/-- A node with one slot that reports no free space. -/
def plainNode (id : String) : Node where
  id := id
  slots := some 1
  limits := some ⟨2, 4096, 1024⟩
  limitsDiskMiB := some 1024
  kvm := true
  fuse := true
  executionReady := true
  lastSeen := some 0
  accepting := true
  runtimes := ["runtime"]

/-- Two nodes. -/
def twoNodes : State where
  db := { nodes := [plainNode "first", plainNode "second"] }
  configured := true

/-- A conversation that is to run on a node. -/
def runOn (node : String) : Run where
  id := "run"
  targetNodeId := some node
  requiredRuntime := some "runtime"

/-- The move of a conversation to another node while its execution may still be active. -/
def movingRun : List Step :=
  [.reserve 0 { runOn "second" with placementTransition := true } (some none) {} "destination",
    .resume "run" (some "destination")]

/-- The claim of the destination. -/
def claimingRun : Step :=
  .reserve 0 { runOn "second" with moveReservation := some "destination" } (some none) {} "later"

theorem twoNodes_started : twoNodes.Started :=
  ⟨(by decide : ["first", "second"].Nodup), rfl, rfl⟩

theorem claimed_beside_execution :
    ¬ ∀ (initial final : State) (steps : List Step), initial.Started →
      execute State.step initial steps = some final → PlacementSafe initial steps := by
  intro claimed
  have safe := claimed twoNodes _
    (.reserve 0 (runOn "first") (some none) {} "earlier" :: (movingRun ++ [claimingRun]))
    twoNodes_started rfl
  have single := safe.execution _ [] _ (List.append_nil _).symm rfl "run"
  exact absurd single (by decide)

/-- The same move after the execution was released. -/
def releasedRun : List Step :=
  .reserve 0 (runOn "first") (some none) {} "earlier" :: .release 0 "earlier" :: movingRun

theorem placement_safe_released : PlacementSafe twoNodes (releasedRun ++ [claimingRun]) := by
  have none : (execute State.step twoNodes releasedRun).map
      (fun state => state.db.activeAttempts .execution "run") = some 0 := by decide
  refine (placement_safe_iff twoNodes_started rfl).mpr
    (throughout_append.mpr ⟨throughout_of_forall ?_, fun middle reached => ⟨?_, fun _ _ => trivial⟩⟩)
  · simp [releasedRun, movingRun, ClaimsOwned, runOn]
  · rintro ⟨_, _, _, _, owned⟩
    rw [reached] at none
    exact absurd (Option.some.inj none) owned.ne'

end Cairn.Nodes.Placement

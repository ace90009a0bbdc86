import Cairn.Error
import Cairn.Library.Results
import Cairn.Library.Transactions

/-!
Owns the model of `nodes/disk_grants.rs`: the read grant of a mounted disk, the
transaction both receipts of a publication run on it, and what a grant keeps
over any sequence of them. `disk_grants_safe` is the main result.

A field that is read with a conversion holds what the conversion returns.

Does not own who may use a grant.
-/

set_option autoImplicit false

namespace Cairn.Nodes.DiskGrants

open Cairn.Library Cairn.Library.Transactions

/-- `LOCAL_NODE_ID`. -/
def localNodeId : String := "00000000-0000-4000-8000-000000000002"

/-- `owner_node` of a record, from its `nodeId`. -/
def ownerNode (nodeId : Option String) : String := nodeId.getD localNodeId

/-- What `update` reads of a recovery point. -/
structure Point where
  id : String
  runId : String
  nodeId : Option String
  diskGeneration : Option Int
deriving DecidableEq, Repr

/-- `Pending`. -/
structure Pending where
  id : String
  generation : Int
deriving DecidableEq, Repr

/-- A document of `node-disk-grants`. -/
structure Grant where
  runId : String
  nodeId : Option String
  backups : Option (List String)
  pending : List Pending := []
  generation : Option Int := none
  published : Option String := none
deriving DecidableEq, Repr

namespace Grant

/-- `new_disk`. -/
def newDisk (runId : String) (nodeId : String) : Grant where
  runId := runId
  nodeId := some nodeId
  backups := some []

/-- `issue` of a point. -/
def issue (runId : String) (nodeId : String) (backup : String) : Grant where
  runId := runId
  nodeId := some nodeId
  backups := some [backup]

/-- The acknowledged generation. -/
def current (grant : Grant) : Int := grant.generation.getD 0

/-- The entries of `backups`. -/
def backupIds (grant : Grant) : List String := grant.backups.getD []

/-- The branch of an acknowledgement. -/
def acknowledge (id : String) (generation : Int) (grant : Grant) : Grant :=
  let pending := grant.pending.filter fun point => point.generation > generation
  { grant with
    pending := pending
    generation := some generation
    published := some id
    backups := some (id :: pending.map Pending.id) }

/-- The branch of an extension, over the entries of `backups`. -/
def extend (id : String) (generation : Int) (ids : List String) (grant : Grant) : Grant :=
  { grant with
    backups := some (if id ∈ ids then ids else ids ++ [id])
    pending :=
      if grant.pending.any fun point => point.id = id then grant.pending
      else grant.pending ++ [⟨id, generation⟩] }

end Grant

/-- The positive generation of a point. -/
def journalGeneration (backup : Point) : Except Error Int :=
  match backup.diskGeneration.filter (fun generation => generation > 0) with
  | some generation => .ok generation
  | none => .error (Error.bad "Missing journal publication generation.")

/-- `update`. -/
def update (backup : Point) (acknowledged : Bool) (grant : Option Grant) :
    Except Error Grant :=
  match grant with
  | none => .error (Error.forbidden "Disk read grant missing.")
  | some grant =>
      if grant.runId ≠ backup.runId ∨ ownerNode grant.nodeId ≠ ownerNode backup.nodeId then
        .error (Error.forbidden "Publication belongs to another disk owner.")
      else do
        let generation ← journalGeneration backup
        if generation < grant.current then .ok grant
        else if generation = grant.current then
          if grant.published = some backup.id then .ok grant
          else .error (Error.conflict "Conflicting journal publication generation.")
        else if acknowledged then .ok (grant.acknowledge backup.id generation)
        else
          match grant.backups with
          | none => .error (Error.bad "Invalid disk grant.")
          | some ids => .ok (grant.extend backup.id generation ids)

/-- `pinned`. -/
def pinned (run : String) (grants : List Grant) : List String :=
  (grants.filter fun grant => grant.runId = run).flatMap Grant.backupIds

/-- A receipt of a publication: `extend` or `acknowledged`. -/
structure Call where
  point : Point
  acknowledged : Bool

/-- A receipt on one grant. -/
def apply (call : Call) (grant : Grant) : Except Error Grant :=
  update call.point call.acknowledged (some grant)

/-! ### One receipt -/

/-- What a receipt that is taken does. -/
theorem apply_cases {call : Call} {grant next : Grant} (applied : apply call grant = .ok next) :
    ∃ generation, call.point.diskGeneration = some generation ∧ 0 < generation ∧
      ((generation < grant.current ∧ next = grant) ∨
       (generation = grant.current ∧ grant.published = some call.point.id ∧ next = grant) ∨
       (grant.current < generation ∧ call.acknowledged = true ∧
          next = grant.acknowledge call.point.id generation) ∨
       (grant.current < generation ∧ call.acknowledged = false ∧
          ∃ ids, grant.backups = some ids ∧ next = grant.extend call.point.id generation ids)) := by
  unfold apply update at applied
  dsimp only at applied
  split at applied
  · simp at applied
  rw [Results.bind_eq_ok] at applied
  obtain ⟨generation, read, applied⟩ := applied
  have isGeneration : call.point.diskGeneration = some generation ∧ 0 < generation := by
    unfold journalGeneration at read
    split at read
    · rename_i found
      obtain rfl := Except.ok.inj read
      obtain ⟨stored, positive⟩ := Option.filter_eq_some_iff.mp found
      exact ⟨stored, by simpa using positive⟩
    · simp at read
  refine ⟨generation, isGeneration.1, isGeneration.2, ?_⟩
  split at applied
  · exact Or.inl ⟨by assumption, (Except.ok.inj applied).symm⟩
  split at applied
  · split at applied
    · exact Or.inr (Or.inl ⟨by assumption, by assumption, (Except.ok.inj applied).symm⟩)
    · simp at applied
  · have newer : grant.current < generation := by omega
    split at applied
    · exact Or.inr (Or.inr (Or.inl ⟨newer, by assumption, (Except.ok.inj applied).symm⟩))
    · rename_i extending
      split at applied
      · simp at applied
      · rename_i ids isArray
        exact Or.inr (Or.inr (Or.inr ⟨newer, by simpa using extending, ids, isArray,
          (Except.ok.inj applied).symm⟩))

/-! ### What a grant keeps -/

namespace Grant

/-- A grant as it is created. -/
def Issued (grant : Grant) : Prop :=
  ∃ runId nodeId, grant = newDisk runId nodeId ∨ ∃ backup, grant = issue runId nodeId backup

/-- Pending candidates are newer than the acknowledged point and pinned beside it;
once a point is acknowledged nothing else is pinned. -/
structure Consistent (grant : Grant) : Prop where
  nonnegative : 0 ≤ grant.current
  newer : ∀ point ∈ grant.pending, grant.current < point.generation
  pinned : ∀ point ∈ grant.pending, point.id ∈ grant.backupIds
  exact : ∀ id, grant.published = some id →
    ∀ other, other ∈ grant.backupIds ↔ other = id ∨ other ∈ grant.pending.map Pending.id
  unpublished : grant.published = none → grant.current = 0

theorem Issued.consistent {grant : Grant} (issued : grant.Issued) : grant.Consistent := by
  obtain ⟨runId, nodeId, rfl | ⟨backup, rfl⟩⟩ := issued
  · exact ⟨Int.le_refl 0, by simp [newDisk], by simp [newDisk], by simp [newDisk], fun _ => rfl⟩
  · exact ⟨Int.le_refl 0, by simp [issue], by simp [issue], by simp [issue], fun _ => rfl⟩

theorem mem_acknowledge_pending {id : String} {generation : Int} {grant : Grant}
    {point : Pending} : point ∈ (grant.acknowledge id generation).pending ↔
      point ∈ grant.pending ∧ generation < point.generation := by
  simp [acknowledge]

theorem mem_acknowledge_backupIds {id other : String} {generation : Int} {grant : Grant} :
    other ∈ (grant.acknowledge id generation).backupIds ↔
      other = id ∨ other ∈ (grant.acknowledge id generation).pending.map Pending.id := by
  simp [acknowledge, backupIds]

theorem mem_extend_backupIds {id other : String} {generation : Int} {ids : List String}
    {grant : Grant} : other ∈ (grant.extend id generation ids).backupIds ↔
      other ∈ ids ∨ other = id := by
  by_cases held : id ∈ ids
  · simp only [extend, backupIds, held, if_true, Option.getD_some]
    exact ⟨Or.inl, fun either => either.elim (fun inIds => inIds) (fun same => same ▸ held)⟩
  · simp [extend, backupIds, held]

/-- The candidate of an extension is pending after it, under the generation it was
first extended with. -/
theorem mem_extend_pending {id : String} {generation : Int} {ids : List String} {grant : Grant}
    {point : Pending} (member : point ∈ (grant.extend id generation ids).pending) :
    point ∈ grant.pending ∨ point = ⟨id, generation⟩ := by
  unfold extend at member
  dsimp only at member
  split at member
  · exact Or.inl member
  · simpa using member

theorem pending_of_extend (id : String) (generation : Int) (ids : List String) (grant : Grant) :
    id ∈ (grant.extend id generation ids).pending.map Pending.id ∧
      ∀ point ∈ grant.pending, point ∈ (grant.extend id generation ids).pending := by
  unfold extend
  dsimp only
  split
  · rename_i present
    obtain ⟨point, member, same⟩ := List.any_eq_true.mp present
    refine ⟨List.mem_map.mpr ⟨point, member, by simpa using same⟩, fun _ inPending => inPending⟩
  · exact ⟨by simp, fun point inPending => by simp [inPending]⟩

theorem Consistent.acknowledge {grant : Grant} (consistent : grant.Consistent) {id : String}
    {generation : Int} (newer : grant.current < generation) :
    (grant.acknowledge id generation).Consistent where
  nonnegative := by
    have := consistent.nonnegative
    show 0 ≤ generation
    omega
  newer := fun point member => (mem_acknowledge_pending.mp member).2
  pinned := fun point member => mem_acknowledge_backupIds.mpr
    (Or.inr (List.mem_map_of_mem member))
  exact := fun other isPublished => by
    obtain rfl : id = other := Option.some.inj isPublished
    exact fun _ => mem_acknowledge_backupIds
  unpublished := fun isNone => by simp [Grant.acknowledge] at isNone

theorem Consistent.extend {grant : Grant} (consistent : grant.Consistent) {id : String}
    {generation : Int} {ids : List String} (newer : grant.current < generation)
    (isArray : grant.backups = some ids) : (grant.extend id generation ids).Consistent := by
  have backupIds : grant.backupIds = ids := by simp [Grant.backupIds, isArray]
  refine ⟨consistent.nonnegative, fun point member => ?_, fun point member => ?_,
    fun published isPublished other => ?_, consistent.unpublished⟩
  · obtain old | rfl := mem_extend_pending member
    · exact consistent.newer point old
    · exact newer
  · rw [mem_extend_backupIds, ← backupIds]
    obtain old | rfl := mem_extend_pending member
    · exact Or.inl (consistent.pinned point old)
    · exact Or.inr rfl
  · rw [mem_extend_backupIds, ← backupIds, consistent.exact published isPublished]
    obtain ⟨candidate, kept⟩ := pending_of_extend id generation ids grant
    constructor
    · rintro ((same | old) | rfl)
      · exact Or.inl same
      · obtain ⟨point, member, rfl⟩ := List.mem_map.mp old
        exact Or.inr (List.mem_map_of_mem (kept point member))
      · exact Or.inr candidate
    · rintro (same | new)
      · exact Or.inl (Or.inl same)
      · obtain ⟨point, member, rfl⟩ := List.mem_map.mp new
        obtain old | rfl := mem_extend_pending member
        · exact Or.inl (Or.inr (List.mem_map_of_mem old))
        · exact Or.inr rfl

end Grant

open Grant

theorem Consistent.apply {call : Call} {grant next : Grant} (consistent : grant.Consistent)
    (applied : apply call grant = .ok next) : next.Consistent := by
  obtain ⟨generation, _, _, ⟨_, rfl⟩ | ⟨_, _, rfl⟩ | ⟨newer, _, rfl⟩ | ⟨newer, _, ids, isArray, rfl⟩⟩ :=
    apply_cases applied
  · exact consistent
  · exact consistent
  · exact consistent.acknowledge newer
  · exact consistent.extend newer isArray

/-- A receipt never takes the acknowledged generation back, and the published point
changes only with it. -/
theorem apply_current {call : Call} {grant next : Grant} (applied : apply call grant = .ok next) :
    next.runId = grant.runId ∧ (grant.current < next.current ∨
      (next.current = grant.current ∧ next.published = grant.published)) := by
  obtain ⟨generation, _, _, ⟨_, rfl⟩ | ⟨_, _, rfl⟩ | ⟨newer, _, rfl⟩ | ⟨_, _, ids, _, rfl⟩⟩ :=
    apply_cases applied
  · exact ⟨rfl, Or.inr ⟨rfl, rfl⟩⟩
  · exact ⟨rfl, Or.inr ⟨rfl, rfl⟩⟩
  · exact ⟨rfl, Or.inl newer⟩
  · exact ⟨rfl, Or.inr ⟨rfl, rfl⟩⟩

/-- A candidate stays pending through every receipt except an acknowledgement of
its generation or a later one. -/
theorem apply_pending {call : Call} {grant next : Grant} {point : Pending}
    (applied : apply call grant = .ok next) (pending : point ∈ grant.pending)
    (earlier : call.acknowledged = true → ∀ generation,
      call.point.diskGeneration = some generation → generation < point.generation) :
    point ∈ next.pending := by
  obtain ⟨generation, read, _, ⟨_, rfl⟩ | ⟨_, _, rfl⟩ | ⟨_, isAck, rfl⟩ | ⟨_, _, ids, _, rfl⟩⟩ :=
    apply_cases applied
  · exact pending
  · exact pending
  · exact mem_acknowledge_pending.mpr ⟨pending, earlier isAck generation read⟩
  · exact (pending_of_extend _ _ _ _).2 point pending

/-! ### Any sequence of receipts -/

/-- A receipt is accepted as an acknowledgement of a generation at or above `own`. -/
def Acknowledges (own : Int) (call : Call) (grant : Grant) : Prop :=
  call.acknowledged = true ∧
    (∃ generation, call.point.diskGeneration = some generation ∧ own ≤ generation) ∧
    ∃ next, apply call grant = .ok next

/-- A point is the published one of a generation. -/
def Publishes (generation : Int) (id : String) (grant : Grant) : Prop :=
  0 < generation ∧ grant.current = generation ∧ grant.published = some id

theorem runs_consistent {grant : Grant} (consistent : grant.Consistent) (calls : List Call) :
    (runs apply grant calls).Consistent :=
  runs_invariant (fun _ _ _ holds applied => Consistent.apply holds applied) calls consistent

/-- What two moments of a grant have in common: its run, and while the acknowledged
generation is the same its published point. -/
def Follows (grant later : Grant) : Prop :=
  later.runId = grant.runId ∧ (grant.current < later.current ∨
    (later.current = grant.current ∧ later.published = grant.published))

theorem Follows.apply {call : Call} {grant state next : Grant} (follows : Follows grant state)
    (applied : apply call state = .ok next) : Follows grant next := by
  obtain ⟨sameRun, grows⟩ := follows
  obtain ⟨keepsRun, further | ⟨same, published⟩⟩ := apply_current applied
  · refine ⟨keepsRun.trans sameRun, Or.inl ?_⟩
    obtain before | ⟨before, _⟩ := grows
    · exact Int.lt_trans before further
    · exact before ▸ further
  · refine ⟨keepsRun.trans sameRun, ?_⟩
    rw [same, published]
    exact grows

theorem runs_follows (grant : Grant) (calls : List Call) :
    Follows grant (runs apply grant calls) :=
  runs_invariant (fun _ _ _ follows applied => Follows.apply follows applied) calls
    ⟨rfl, Or.inr ⟨rfl, rfl⟩⟩

theorem Follows.current_le {grant later : Grant} (follows : Follows grant later) :
    grant.current ≤ later.current := by
  obtain ⟨_, grows | ⟨same, _⟩⟩ := follows <;> omega

/-- A candidate stays pending while no acknowledgement reaches its generation. -/
theorem runs_pending {grant : Grant} {point : Pending} {calls : List Call}
    (pending : point ∈ grant.pending)
    (unreached : ∀ before call after, calls = before ++ call :: after →
      ¬ Acknowledges point.generation call (runs apply grant before)) :
    point ∈ (runs apply grant calls).pending := by
  induction calls generalizing grant with
  | nil => exact pending
  | cons call calls inductionHypothesis =>
      have later : point ∈ (attempt apply grant call).pending := by
        cases applied : apply call grant with
        | error failure =>
            rw [attempt_of_error applied]
            exact pending
        | ok next =>
            rw [attempt_of_ok applied]
            refine apply_pending applied pending fun isAck generation read => ?_
            refine Int.not_le.mp fun reached => ?_
            exact unreached [] call calls rfl ⟨isAck, ⟨generation, read, reached⟩, next, applied⟩
      exact inductionHypothesis later fun before next after split =>
        unreached (call :: before) next after (by rw [split, List.cons_append])

/-- A pending candidate was extended with the generation it is pending under. -/
theorem apply_pending_source {call : Call} {grant next : Grant} {point : Pending}
    (applied : apply call grant = .ok next) (pending : point ∈ next.pending) :
    point ∈ grant.pending ∨ (call.acknowledged = false ∧ call.point.id = point.id ∧
      call.point.diskGeneration = some point.generation) := by
  obtain ⟨generation, read, _, ⟨_, rfl⟩ | ⟨_, _, rfl⟩ | ⟨_, _, rfl⟩ | ⟨_, isExtension, ids, _, rfl⟩⟩ :=
    apply_cases applied
  · exact Or.inl pending
  · exact Or.inl pending
  · exact Or.inl (mem_acknowledge_pending.mp pending).1
  · obtain old | rfl := mem_extend_pending pending
    · exact Or.inl old
    · exact Or.inr ⟨isExtension, rfl, read⟩

theorem runs_pending_source {grant : Grant} {point : Pending} {calls : List Call}
    (pending : point ∈ (runs apply grant calls).pending) :
    point ∈ grant.pending ∨ ∃ call ∈ calls, call.acknowledged = false ∧
      call.point.id = point.id ∧ call.point.diskGeneration = some point.generation := by
  induction calls generalizing grant with
  | nil => exact Or.inl pending
  | cons call calls inductionHypothesis =>
      obtain before | ⟨earlier, member, isSource⟩ := inductionHypothesis pending
      · cases applied : apply call grant with
        | error failure =>
            rw [attempt_of_error applied] at before
            exact Or.inl before
        | ok next =>
            rw [attempt_of_ok applied] at before
            obtain old | isSource := apply_pending_source applied before
            · exact Or.inl old
            · exact Or.inr ⟨call, by simp, isSource⟩
      · exact Or.inr ⟨earlier, by simp [member], isSource⟩

/-- What a grant keeps over a sequence of receipts. -/
structure Safe (grant : Grant) (calls : List Call) : Prop where
  /-- The acknowledged generation never decreases. -/
  monotone : ∀ before after, calls = before ++ after →
    (runs apply grant before).current ≤ (runs apply grant calls).current
  /-- A candidate extended above the acknowledged generation is pending under the
  generation of one of its own extensions, of this one unless it was pending before,
  and readable until an acknowledgement reaches that generation. -/
  held : ∀ before call after next generation, calls = before ++ call :: after →
    call.acknowledged = false → apply call (runs apply grant before) = .ok next →
    call.point.diskGeneration = some generation →
    (runs apply grant before).current < generation →
    ∃ own, ⟨call.point.id, own⟩ ∈ next.pending ∧
      (call.point.id ∉ (runs apply grant before).pending.map Pending.id → own = generation) ∧
      (∃ extension ∈ before ++ [call], extension.acknowledged = false ∧
        extension.point.id = call.point.id ∧ extension.point.diskGeneration = some own) ∧
      ((∀ between later rest, after = between ++ later :: rest →
          ¬ Acknowledges own later (runs apply next between)) →
        call.point.id ∈ (runs apply grant calls).backupIds ∧
        ∀ grants, runs apply grant calls ∈ grants → call.point.id ∈ pinned grant.runId grants)
  /-- No acknowledgement drops a newer candidate. -/
  newer : ∀ before call after next generation, calls = before ++ call :: after →
    call.acknowledged = true → apply call (runs apply grant before) = .ok next →
    call.point.diskGeneration = some generation →
    ∀ point ∈ (runs apply grant before).pending, generation < point.generation →
      point ∈ next.pending ∧ point.id ∈ next.backupIds
  /-- After an acknowledgement the acknowledged point and the candidates still pending
  are readable, and no other. -/
  exact : ∀ before call after next generation, calls = before ++ call :: after →
    call.acknowledged = true → apply call (runs apply grant before) = .ok next →
    call.point.diskGeneration = some generation →
    (generation ≥ (runs apply grant before).current →
      Publishes generation call.point.id next) ∧
    ∃ published, next.published = some published ∧ generation ≤ next.current ∧
      (∀ point ∈ next.pending, next.current < point.generation) ∧
      ∀ other, other ∈ next.backupIds ↔ other = published ∨ other ∈ next.pending.map Pending.id
  /-- One generation has one published point. -/
  unique : ∀ before between after generation first second, calls = before ++ between ++ after →
    Publishes generation first (runs apply grant before) →
    Publishes generation second (runs apply grant (before ++ between)) → first = second

theorem mem_pinned {grant : Grant} {grants : List Grant} {id : String}
    (member : grant ∈ grants) (held : id ∈ grant.backupIds) : id ∈ pinned grant.runId grants :=
  List.mem_flatMap.mpr ⟨grant, List.mem_filter.mpr ⟨member, by simp⟩, held⟩

theorem runs_step {grant next : Grant} {before after : List Call} {call : Call}
    (applied : apply call (runs apply grant before) = .ok next) :
    runs apply grant (before ++ call :: after) = runs apply next after := by
  rw [runs_append, runs_cons, attempt_of_ok applied]

/-- What an extension above the acknowledged generation leaves pending. -/
theorem extension_pending {call : Call} {grant next : Grant} {generation : Int}
    (isExtension : call.acknowledged = false) (applied : apply call grant = .ok next)
    (read : call.point.diskGeneration = some generation) (above : grant.current < generation) :
    ∃ own, ⟨call.point.id, own⟩ ∈ next.pending ∧
      (call.point.id ∉ grant.pending.map Pending.id → own = generation) := by
  obtain ⟨_, sameRead, _, ⟨stale, _⟩ | ⟨equal, _, _⟩ | ⟨_, isAck, _⟩ | ⟨_, _, ids, _, rfl⟩⟩ :=
    apply_cases applied
  · obtain rfl := Option.some.inj (sameRead.symm.trans read)
    omega
  · obtain rfl := Option.some.inj (sameRead.symm.trans read)
    omega
  · simp [isAck] at isExtension
  · obtain rfl := Option.some.inj (read.symm.trans sameRead)
    obtain ⟨point, member, same⟩ := List.mem_map.mp
      (pending_of_extend call.point.id generation ids grant).1
    refine ⟨point.generation, same ▸ member, fun absent => ?_⟩
    obtain old | rfl := mem_extend_pending member
    · exact absurd (same ▸ List.mem_map_of_mem old) absent
    · rfl

/-- What an acknowledgement leaves published. -/
theorem acknowledgement_published {call : Call} {grant next : Grant} {generation : Int}
    (consistent : grant.Consistent)
    (isAck : call.acknowledged = true) (applied : apply call grant = .ok next)
    (read : call.point.diskGeneration = some generation) :
    (generation ≥ grant.current → Publishes generation call.point.id next) ∧
      ∃ published, next.published = some published ∧ generation ≤ next.current := by
  obtain ⟨_, sameRead, positive, ⟨stale, rfl⟩ | ⟨equal, same, rfl⟩ | ⟨_, _, rfl⟩ |
    ⟨_, isExtension, _⟩⟩ := apply_cases applied
  all_goals
    obtain rfl := Option.some.inj (sameRead.symm.trans read)
  · refine ⟨fun above => absurd stale (Int.not_lt.mpr above), ?_⟩
    cases found : next.published with
    | none =>
        have := consistent.unpublished found
        omega
    | some published => exact ⟨published, rfl, Int.le_of_lt stale⟩
  · exact ⟨fun _ => ⟨positive, equal.symm, same⟩, call.point.id, same, Int.le_of_eq equal⟩
  · exact ⟨fun _ => ⟨positive, rfl, rfl⟩, call.point.id, rfl, Int.le_refl _⟩
  · simp [isAck] at isExtension

/-- Over any sequence of receipts on an issued grant the acknowledged generation
grows, a candidate is readable until it is overtaken, and one generation has one
published point. -/
theorem disk_grants_safe {grant : Grant} (issued : grant.Issued) (calls : List Call) :
    Safe grant calls where
  monotone before after split := by
    rw [split, runs_append]
    exact (runs_follows _ after).current_le
  held before call after next generation split isExtension applied read above := by
    obtain ⟨own, pending, ownIs⟩ := extension_pending isExtension applied read above
    have source : ∃ extension ∈ before ++ [call], extension.acknowledged = false ∧
        extension.point.id = call.point.id ∧ extension.point.diskGeneration = some own := by
      obtain old | ⟨isExtension, _, read⟩ := apply_pending_source applied pending
      · obtain initial | ⟨earlier, member, isSource⟩ := runs_pending_source old
        · obtain ⟨_, _, rfl | ⟨_, rfl⟩⟩ := issued
          · simp [newDisk] at initial
          · simp [issue] at initial
        · exact ⟨earlier, by simp [member], isSource⟩
      · exact ⟨call, by simp, isExtension, rfl, read⟩
    refine ⟨own, pending, ownIs, source, fun unreached => ?_⟩
    have reached : runs apply grant calls = runs apply next after := by
      rw [split, runs_step applied]
    have stays := runs_pending pending unreached
    rw [← reached] at stays
    have held := (runs_consistent issued.consistent calls).pinned _ stays
    refine ⟨held, fun grants member => ?_⟩
    have isPinned := mem_pinned member held
    rwa [(runs_follows grant calls).1] at isPinned
  newer before call after next generation split isAck applied read point pending above := by
    have stays : point ∈ next.pending := by
      refine apply_pending applied pending fun _ other otherRead => ?_
      obtain rfl := Option.some.inj (otherRead.symm.trans read)
      exact above
    exact ⟨stays, (Consistent.apply (runs_consistent issued.consistent before) applied).pinned
      point stays⟩
  exact before call after next generation split isAck applied read := by
    have consistent := runs_consistent issued.consistent before
    obtain ⟨publishes, published, isPublished, reaches⟩ :=
      acknowledgement_published consistent isAck applied read
    have after := Consistent.apply consistent applied
    exact ⟨publishes, published, isPublished, reaches, after.newer, after.exact _ isPublished⟩
  unique before between after generation first second split isFirst isSecond := by
    obtain ⟨_, sameFirst, publishedFirst⟩ := isFirst
    obtain ⟨_, sameSecond, publishedSecond⟩ := isSecond
    rw [runs_append] at sameSecond publishedSecond
    obtain ⟨_, grows | ⟨_, same⟩⟩ := runs_follows (runs apply grant before) between
    · omega
    · rw [publishedFirst, publishedSecond] at same
      exact (Option.some.inj same).symm

/-- A point that is extended again under a larger generation stays pending under the
first: an acknowledgement between the two revokes it. -/
theorem reextended_candidate_dropped :
    ¬ ∀ grant : Grant, grant.Issued → ∀ before call after next generation,
      call.acknowledged = false → apply call (runs apply grant before) = .ok next →
      call.point.diskGeneration = some generation →
      (runs apply grant before).current < generation →
      (∀ between later rest, after = between ++ later :: rest →
        ¬ Acknowledges generation later (runs apply next between)) →
      call.point.id ∈ (runs apply grant (before ++ call :: after)).backupIds := by
  intro claimed
  let point (id : String) (generation : Int) : Point := ⟨id, "run", some "node", some generation⟩
  let call (id : String) (generation : Int) (acknowledged : Bool) : Call :=
    ⟨point id generation, acknowledged⟩
  have held := claimed (newDisk "run" "node") ⟨"run", "node", Or.inl rfl⟩ [call "a" 5 false]
    (call "a" 7 false) [call "b" 6 true] _ 7 rfl rfl rfl (by decide) (by
      intro between later rest split
      cases between with
      | nil =>
          obtain ⟨rfl, _⟩ := List.cons.inj split
          rintro ⟨_, ⟨generation, read, above⟩, _⟩
          obtain rfl := Option.some.inj read
          exact absurd above (by decide)
      | cons _ tail => simp at split)
  exact absurd held (by decide)

theorem disk_grants_safe_restored : Safe (issue "run" "node" "base")
    [⟨⟨"a", "run", some "node", some 1⟩, false⟩, ⟨⟨"a", "run", some "node", some 1⟩, true⟩] :=
  disk_grants_safe ⟨"run", "node", Or.inr ⟨"base", rfl⟩⟩ _

end Cairn.Nodes.DiskGrants

import Mathlib.Algebra.Order.BigOperators.Group.List
import Mathlib.Algebra.Order.Ring.Nat
import Cairn.Nodes.PlacementCapacity

/-!
Owns the books of the volumes: over every run of the placement transactions the size
recorded for a volume is what it had at first and the growth of the attempts that still
count, and releasing an attempt takes back what admitting it added.

Does not own whether a size fits a node.
-/

set_option autoImplicit false

namespace Cairn.Nodes.Placement

open Cairn.Library.Records
open Cairn.Library.Steps
open Cairn.Nodes.Publication (onDemandMode)

/-! ### The books -/

/-- The volume of an attempt. -/
def Attempt.volume (attempt : Attempt) : String × String := (attempt.runId, attempt.nodeId)

/-- A reservation that a claim has taken over: nothing else marks an attempt released
without a time. -/
def Attempt.consumed (attempt : Attempt) : Bool := attempt.released && attempt.releasedAt.isNone

/-- The growth of an attempt counts while it is active, and for good once its disk is
materialized, unless its execution carries it. -/
def Attempt.counts (attempt : Attempt) : Bool :=
  isActiveAttempt attempt || (attempt.diskMaterialized && !attempt.consumed)

/-- What an attempt adds to a volume. -/
def Attempt.growth (key : String × String) (attempt : Attempt) : Nat :=
  if attempt.volume = key ∧ attempt.counts = true then attempt.additionalDiskMiB else 0

/-- What an attempt adds to a volume for good. -/
def Attempt.lasting (key : String × String) (attempt : Attempt) : Nat :=
  if attempt.diskMaterialized then attempt.growth key else 0

/-- The recorded size of a volume, none if there is no such volume. -/
def Db.size (db : Db) (key : String × String) : Nat :=
  ((find Volume.id key db.volumes).bind Volume.diskMiB).getD 0

/-- A state with the size each volume had at first, none once it was removed. -/
structure Books where
  state : State
  base : String × String → Nat

/-- The books of the volumes that are left. -/
def rebase (db : Db) (base : String × String → Nat) (key : String × String) : Nat :=
  if find Volume.id key db.volumes = none then 0 else base key

/-- One step, with the books kept. -/
def Books.step (books : Books) (step : Step) : Option Books :=
  (books.state.step step).map fun next => ⟨next, rebase next.db books.base⟩

/-- No attempt, and volumes with the sizes of the books. -/
def Books.Started (books : Books) : Prop :=
  books.state.db.attempts = [] ∧ (∀ key, books.base key = books.state.db.size key) ∧
    ∀ volume ∈ books.state.db.volumes, volume.diskMiB.getD 0 ≤ maxU64

/-- The balance of every volume, and what each transaction does to it, over a run. -/
structure VolumesBalanced (initial : Books) (steps : List Step) : Prop where
  balance : ∀ before after books, steps = before ++ after →
    execute Books.step initial before = some books → ∀ key,
      books.state.db.size key = books.base key + total (Attempt.growth key) books.state.db.attempts
  floor : ∀ before after books, steps = before ++ after →
    execute Books.step initial before = some books → ∀ key,
      books.base key + total (Attempt.lasting key) books.state.db.attempts ≤ books.state.db.size key
  admitted : ∀ before after books now run access checkpoint attempt best db placed,
    steps = before ++ .reserve now run (some access) checkpoint attempt :: after →
    execute Books.step initial before = some books →
    admitAttempt books.state.db ⟨run, access, checkpoint⟩ best now attempt = .ok (db, placed) →
    ∃ record, db.attempt? attempt = some record ∧ record.volume = (run.id, best.node.id) ∧
      record.counts = true ∧ ∀ key, db.size key = books.state.db.size key +
        if key = record.volume then record.additionalDiskMiB else 0
  claimed : ∀ before after books now run access checkpoint attempt reservation db placed,
    steps = before ++ .reserve now run (some access) checkpoint attempt :: after →
    execute Books.step initial before = some books →
    claimReservation books.state.db ⟨run, access, checkpoint⟩ now books.state.configured
      reservation attempt = .ok (db, placed) →
    db.volumes = books.state.db.volumes ∧
      ∃ held consumed taken, books.state.db.attempt? reservation = some held ∧
        held.counts = true ∧ db.attempt? reservation = some consumed ∧ consumed.counts = false ∧
        db.attempt? attempt = some taken ∧ taken.counts = true ∧ taken.volume = held.volume ∧
        taken.additionalDiskMiB = held.additionalDiskMiB
  released : ∀ before after books now attempt record,
    steps = before ++ .release now attempt :: after →
    execute Books.step initial before = some books →
    books.state.db.attempt? attempt = some record → isActiveAttempt record = true →
    (∀ key, key ≠ record.volume →
      (releaseIn books.state.db now attempt).size key = books.state.db.size key) ∧
    ((releaseIn books.state.db now attempt).size record.volume +
        (if record.diskMaterialized then 0 else record.additionalDiskMiB) =
          books.state.db.size record.volume ∨
      (record.diskMaterialized = false ∧
        find Volume.id record.volume (releaseIn books.state.db now attempt).volumes = none ∧
        books.state.db.size record.volume =
          books.base record.volume + record.additionalDiskMiB))

/-! ### Sizes -/

theorem size_putVolume (db : Db) (volume : Volume) (key : String × String) :
    (db.putVolume volume).size key =
      if key = volume.id then volume.diskMiB.getD 0 else db.size key := by
  simp only [Db.size, Db.putVolume, find_put]
  split <;> rfl

theorem size_removeVolume (db : Db) (run node : String) (key : String × String) :
    (db.removeVolume run node).size key = if key = (run, node) then 0 else db.size key := by
  simp only [Db.size, Db.removeVolume, find_remove]
  split <;> rfl

theorem saturatingAdd_le (left right : Nat) : saturatingAdd left right ≤ maxU64 :=
  Nat.min_le_right _ _

theorem le_saturatingAdd {left right : Nat} (fits : left ≤ maxU64) :
    left ≤ saturatingAdd left right :=
  Nat.le_min.mpr ⟨Nat.le_add_right _ _, fits⟩

/-- A reservation never shrinks a volume. -/
theorem le_diskTotal {volume : Volume} {requested : Nat} {replacing : Bool}
    (fits : volume.diskMiB.getD 0 ≤ maxU64) :
    volume.diskMiB.getD 0 ≤ diskTotal (some volume) requested replacing ∧
      diskTotal (some volume) requested replacing ≤ maxU64 := by
  have journal : journalMiB ≤ maxU64 := by decide
  have onDisk : volume.diskMiB.getD 0 ≤ max (volume.diskMiB.getD journalMiB) journalMiB ∧
      max (volume.diskMiB.getD journalMiB) journalMiB ≤ maxU64 := by
    cases stored : volume.diskMiB with
    | none => simp [journal]
    | some size =>
        rw [stored] at fits
        exact ⟨Nat.le_max_left _ _, Nat.max_le.mpr ⟨fits, journal⟩⟩
  simp only [diskTotal]
  split
  · split
    · exact ⟨onDisk.1.trans (le_saturatingAdd onDisk.2), saturatingAdd_le _ _⟩
    · exact onDisk
  · exact ⟨le_saturatingAdd fits, saturatingAdd_le _ _⟩

/-! ### What a transaction does to a volume -/

/-- An admission grows one volume by what its attempt records. -/
theorem admit_volume {db next : Db} {request : Request} {best : Candidate} {now : Int}
    {attempt : String} {placed : Placed}
    (fits : ∀ volume ∈ db.volumes, volume.diskMiB.getD 0 ≤ maxU64)
    (admitted : admitAttempt db request best now attempt = .ok (next, placed)) :
    ∃ volume additional, volume.id = (request.run.id, best.node.id) ∧
      next.volumes = put Volume.id volume db.volumes ∧
      next.attempts = put Attempt.id (newAttempt request best now attempt additional) db.attempts ∧
      volume.diskMiB.getD 0 = db.size (request.run.id, best.node.id) + additional ∧
      volume.diskMiB.getD 0 ≤ maxU64 ∧
      ∀ old, find Volume.id (request.run.id, best.node.id) db.volumes = some old →
        volume.materialized = old.materialized := by
  unfold admitAttempt at admitted
  split at admitted
  · simp at admitted
  · obtain ⟨rfl, _⟩ := Prod.mk.inj (Except.ok.inj admitted)
    generalize isStored : (db.volume? request.run.id best.node.id).getD
      { runId := request.run.id, nodeId := best.node.id } = stored
    have known : stored.id = (request.run.id, best.node.id) ∧
        stored.diskMiB.getD 0 = db.size (request.run.id, best.node.id) ∧
        stored.diskMiB.getD 0 ≤ maxU64 ∧
        ∀ old, find Volume.id (request.run.id, best.node.id) db.volumes = some old →
          stored.materialized = old.materialized := by
      subst isStored
      unfold Db.volume? Db.size
      cases found : find Volume.id (request.run.id, best.node.id) db.volumes with
      | none => exact ⟨rfl, rfl, Nat.zero_le _, by simp⟩
      | some volume =>
          obtain ⟨member, named⟩ := mem_of_find found
          exact ⟨named, rfl, fits volume member, fun old same => by
            rw [Option.some.inj same]
            rfl⟩
    obtain ⟨named, size, bounded, materialized⟩ := known
    generalize isVolume : (if stored.materialized then stored
      else { stored with storageMode := some onDemandMode }) = volume
    have same : volume.id = stored.id ∧ volume.diskMiB = stored.diskMiB ∧
        volume.materialized = stored.materialized := by
      subst isVolume
      split <;> exact ⟨rfl, rfl, rfl⟩
    have grown := @le_diskTotal volume best.resources.diskMiB (request.replacing best.node.id)
      (same.2.1 ▸ bounded)
    refine ⟨{ volume with
        diskMiB := some (diskTotal (some volume) best.resources.diskMiB
          (request.replacing best.node.id)) },
      _, same.1.trans named, rfl, rfl, ?_, grown.2, fun old found =>
        same.2.2.trans (materialized old found)⟩
    rw [← size, ← same.2.1, Option.getD_some]
    exact (Nat.add_sub_cancel' grown.1).symm

/-- A release of an active attempt keeps its volume without what the attempt added, or
removes a volume that nothing else needs. -/
theorem releaseIn_volume {db : Db} {attempt : String} {record : Attempt} (now : Int)
    (found : db.attempt? attempt = some record) (active : isActiveAttempt record = true) :
    (releaseIn db now attempt).attempts =
        put Attempt.id { record with released := true, releasedAt := some now } db.attempts ∧
      ((find Volume.id record.volume db.volumes = none ∧
          (releaseIn db now attempt).volumes = db.volumes) ∨
        ∃ old volume, find Volume.id record.volume db.volumes = some old ∧
          volume.id = record.volume ∧ volume.materialized = old.materialized ∧
          volume.diskMiB.getD 0 = db.size record.volume -
            (if record.diskMaterialized then 0 else record.additionalDiskMiB) ∧
          ((releaseIn db now attempt).volumes = put Volume.id volume db.volumes ∨
            (releaseIn db now attempt).volumes = remove Volume.id record.volume db.volumes ∧
              old.materialized = false ∧
              ∀ other ∈ (releaseIn db now attempt).attempts, other.volume = record.volume →
                isActiveAttempt other = false)) := by
  have live : ¬ ((!isActiveAttempt record) = true) := by simp [active]
  unfold releaseIn
  simp only [found, if_neg live]
  cases stored : find Volume.id record.volume db.volumes with
  | none =>
      have absent : (db.putAttempt { record with released := true, releasedAt := some now }).volume?
          record.runId record.nodeId = none := stored
      rw [absent]
      exact ⟨rfl, .inl ⟨rfl, rfl⟩⟩
  | some old =>
      have present : (db.putAttempt { record with released := true, releasedAt := some now }).volume?
          record.runId record.nodeId = some old := stored
      rw [present]
      dsimp only
      obtain ⟨member, named⟩ := mem_of_find stored
      have size : db.size record.volume = old.diskMiB.getD 0 := by
        rw [Db.size, stored]
        rfl
      generalize isVolume : (if record.diskMaterialized then old
        else { old with
          diskMiB := some (old.diskMiB.getD 0 - record.additionalDiskMiB) }) = volume
      have kept : volume.id = record.volume ∧ volume.materialized = old.materialized ∧
          volume.diskMiB.getD 0 = db.size record.volume -
            (if record.diskMaterialized then 0 else record.additionalDiskMiB) := by
        subst isVolume
        rw [size]
        split
        · exact ⟨named, rfl, rfl⟩
        · exact ⟨named, rfl, rfl⟩
      split
      · rename_i unused
        refine ⟨rfl, .inr ⟨old, volume, rfl, kept.1, kept.2.1, kept.2.2, .inr ⟨rfl, ?_, ?_⟩⟩⟩
        · simp only [kept.2.1, Bool.and_eq_true, Bool.not_eq_true'] at unused
          exact unused.1
        · intro other isOther same
          simp only [Bool.and_eq_true, Bool.not_eq_true', List.any_eq_false] at unused
          obtain ⟨sameRun, sameNode⟩ := Prod.mk.inj same
          simpa [sameRun, sameNode] using unused.2 other isOther
      · exact ⟨rfl, .inr ⟨old, volume, rfl, kept.1, kept.2.1, kept.2.2, .inl rfl⟩⟩

/-- A materialization keeps the size of its volume. -/
theorem materialize_volume {db next : Db} {attempt : String}
    (materialized : materialize db attempt = .ok next) :
    ∃ record old volume, db.attempt? attempt = some record ∧ record.released = false ∧
      find Volume.id record.volume db.volumes = some old ∧ volume.id = record.volume ∧
      volume.materialized = true ∧ volume.diskMiB = old.diskMiB ∧
      next.attempts = put Attempt.id { record with diskMaterialized := true } db.attempts ∧
      next.volumes = put Volume.id volume db.volumes := by
  unfold materialize at materialized
  split at materialized
  · simp at materialized
  · rename_i record found
    split at materialized
    · simp at materialized
    · rename_i live
      split at materialized
      · simp at materialized
      · rename_i old stored
        obtain rfl := Except.ok.inj materialized
        have named := (mem_of_find stored).2
        exact ⟨record, old, { old with
            materialized := true
            activeDiskMiB := some record.resources.diskMiB },
          found, Bool.eq_false_iff.mpr live, stored, named, rfl, rfl, rfl, rfl⟩

/-! ### The balance -/

theorem growth_of_counts {attempt : Attempt} (counts : attempt.counts = true)
    (key : String × String) :
    attempt.growth key = if key = attempt.volume then attempt.additionalDiskMiB else 0 := by
  simp only [Attempt.growth, counts, and_true, eq_comm]

theorem growth_of_not_counts {attempt : Attempt} (counts : attempt.counts = false)
    (key : String × String) : attempt.growth key = 0 := by
  simp [Attempt.growth, counts]

theorem counts_of_active {attempt : Attempt} (active : isActiveAttempt attempt = true) :
    attempt.counts = true := by
  simp [Attempt.counts, active]

/-- A total is at least each of its parts. -/
theorem growth_le_total {attempts : List Attempt} {attempt : Attempt} (member : attempt ∈ attempts)
    (key : String × String) : attempt.growth key ≤ total (Attempt.growth key) attempts :=
  List.single_le_sum (fun _ _ => Nat.zero_le _) _ (List.mem_map_of_mem member)

/-- The books balance, and every disk that counts for good is on its volume. -/
structure Balanced (db : Db) (base : String × String → Nat) : Prop where
  attempts : Keyed Attempt.id db.attempts
  fits : ∀ volume ∈ db.volumes, volume.diskMiB.getD 0 ≤ maxU64
  untimed : ∀ attempt ∈ db.attempts, isActiveAttempt attempt = true → attempt.releasedAt = none
  lasting : ∀ attempt ∈ db.attempts, attempt.diskMaterialized = true →
    ∃ volume, find Volume.id attempt.volume db.volumes = some volume ∧ volume.materialized = true
  balance : ∀ key, db.size key = base key + total (Attempt.growth key) db.attempts

namespace Balanced

variable {db next : Db} {base : String × String → Nat}

theorem le_size (balanced : Balanced db base) {attempt : Attempt} (member : attempt ∈ db.attempts)
    (counts : attempt.counts = true) : attempt.additionalDiskMiB ≤ db.size attempt.volume := by
  have part := growth_le_total member attempt.volume
  rw [growth_of_counts counts, if_pos rfl] at part
  rw [balanced.balance]
  omega

/-- Volumes that balance against the old books balance against the new ones. -/
theorem of_balance (attempts : Keyed Attempt.id next.attempts)
    (fits : ∀ volume ∈ next.volumes, volume.diskMiB.getD 0 ≤ maxU64)
    (untimed : ∀ attempt ∈ next.attempts, isActiveAttempt attempt = true →
      attempt.releasedAt = none)
    (lasting : ∀ attempt ∈ next.attempts, attempt.diskMaterialized = true →
      ∃ volume, find Volume.id attempt.volume next.volumes = some volume ∧
        volume.materialized = true)
    (balance : ∀ key, next.size key = base key + total (Attempt.growth key) next.attempts ∨
      (find Volume.id key next.volumes = none ∧ total (Attempt.growth key) next.attempts = 0)) :
    Balanced next (rebase next base) := by
  refine ⟨attempts, fits, untimed, lasting, fun key => ?_⟩
  unfold rebase
  split
  · rename_i absent
    have empty : next.size key = 0 := by simp [Db.size, absent]
    rcases balance key with equal | ⟨-, nothing⟩
    · omega
    · omega
  · rename_i present
    exact (balance key).resolve_right fun removed => present removed.1

/-- A volume that is stored again with its disk keeps the disks that count for good. -/
theorem lasting_put {volume : Volume} {attempt : Attempt} (balanced : Balanced db base)
    (keeps : ∀ old, find Volume.id volume.id db.volumes = some old → old.materialized = true →
      volume.materialized = true)
    (member : attempt ∈ db.attempts) (materialized : attempt.diskMaterialized = true) :
    ∃ kept, find Volume.id attempt.volume (put Volume.id volume db.volumes) = some kept ∧
      kept.materialized = true := by
  obtain ⟨old, found, disk⟩ := balanced.lasting attempt member materialized
  rw [find_put]
  split
  · rename_i same
    exact ⟨volume, rfl, keeps old (same ▸ found) disk⟩
  · exact ⟨old, found, disk⟩

theorem fits_put {volume : Volume} (balanced : Balanced db base)
    (fits : volume.diskMiB.getD 0 ≤ maxU64) :
    ∀ other ∈ put Volume.id volume db.volumes, other.diskMiB.getD 0 ≤ maxU64 := by
  intro other member
  rcases mem_put.mp member with rfl | ⟨stored, -⟩
  · exact fits
  · exact balanced.fits other stored

theorem admitAttempt {request : Request} {best : Candidate} {now : Int} {attempt : String}
    {placed : Placed} (balanced : Balanced db base) (fresh : db.attempt? attempt = none)
    (admitted : admitAttempt db request best now attempt = .ok (next, placed)) :
    Balanced next (rebase next base) := by
  obtain ⟨volume, additional, named, volumes, attempts, size, fits, keeps⟩ :=
    admit_volume balanced.fits admitted
  refine of_balance (attempts ▸ keyed_put balanced.attempts) (volumes ▸ balanced.fits_put fits)
    ?_ ?_ ?_
  · intro other member active
    rw [attempts, mem_put] at member
    rcases member with rfl | ⟨stored, -⟩
    · rfl
    · exact balanced.untimed other stored active
  · intro other member materialized
    rw [attempts, mem_put] at member
    rcases member with rfl | ⟨stored, -⟩
    · simp [newAttempt] at materialized
    · rw [volumes]
      refine balanced.lasting_put (fun old found disk => ?_) stored materialized
      rw [named] at found
      rw [keeps old found, disk]
  · intro key
    left
    have counted : (newAttempt request best now attempt additional).counts = true :=
      counts_of_active rfl
    have absent : find Attempt.id (newAttempt request best now attempt additional).id db.attempts =
        none := fresh
    rw [attempts, total_put_of_absent _ absent, growth_of_counts counted, ← Nat.add_assoc,
      ← balanced.balance, Db.size, volumes, find_put, named]
    have place : (newAttempt request best now attempt additional).volume =
        (request.run.id, best.node.id) := rfl
    rw [place]
    by_cases same : key = (request.run.id, best.node.id)
    · subst same
      rw [if_pos rfl, if_pos rfl]
      exact size
    · rw [if_neg same, if_neg same]
      rfl

theorem claim {request : Request} {now : Int} {configured : Bool} {reservation attempt : String}
    {placed : Placed} (balanced : Balanced db base) (fresh : db.attempt? attempt = none)
    (claimed : claimReservation db request now configured reservation attempt = .ok (next, placed)) :
    Balanced next (rebase next base) := by
  obtain ⟨held, middle, found, active, _, _, updates, absent, attempts, _⟩ :=
    claim_updates fresh claimed
  have volumes : next.volumes = db.volumes := by
    obtain ⟨-, _, -, -, -, -, -, -, same⟩ := claim_of_ok claimed
    exact same
  have keyed : Keyed Attempt.id middle.attempts := updates.attempts ▸ keyed_put balanced.attempts
  have untimed : held.releasedAt = none := balanced.untimed held (mem_of_find found).1 active
  refine of_balance (attempts ▸ keyed_put keyed) (volumes ▸ balanced.fits) ?_ ?_ fun key => .inl ?_
  · intro other member live
    rw [attempts, mem_put, updates.attempts, mem_put] at member
    rcases member with rfl | ⟨rfl | ⟨stored, -⟩, -⟩
    · exact untimed
    · exact untimed
    · exact balanced.untimed other stored live
  · intro other member materialized
    rw [volumes]
    rw [attempts, mem_put, updates.attempts, mem_put] at member
    rcases member with rfl | ⟨rfl | ⟨stored, -⟩, -⟩
    · exact balanced.lasting held (mem_of_find found).1 materialized
    · exact balanced.lasting held (mem_of_find found).1 materialized
    · exact balanced.lasting other stored materialized
  · -- The growth leaves with the reservation and comes back with its execution.
    have spent : ({ held with released := true } : Attempt).counts = false := by
      simp [Attempt.counts, isActiveAttempt, Attempt.consumed, untimed]
    have nothing := growth_of_not_counts spent key
    have released := total_put_of_found balanced.attempts (Attempt.growth key) updates.found
    rw [← updates.attempts] at released
    have taken := total_put_of_absent (Attempt.growth key) absent
    rw [← attempts] at taken
    have same : (takeOver held now attempt).growth key = held.growth key := rfl
    have size : next.size key = db.size key := by rw [Db.size, volumes, Db.size]
    rw [size, balanced.balance]
    omega

/-- Books that a transaction leaves as they are balance without the volumes that are gone. -/
theorem rebased (balanced : Balanced db base) : Balanced db (rebase db base) :=
  of_balance balanced.attempts balanced.fits balanced.untimed balanced.lasting fun key =>
    .inl (balanced.balance key)

/-- No attempt counts against a volume without a disk once none is active on it. -/
theorem total_eq_zero {key : String × String} {attempts : List Attempt}
    (idle : ∀ attempt ∈ attempts, attempt.volume = key → isActiveAttempt attempt = false)
    (unwritten : ∀ attempt ∈ attempts, attempt.volume = key → attempt.diskMaterialized = false) :
    total (Attempt.growth key) attempts = 0 := by
  refine List.sum_eq_zero fun share member => ?_
  obtain ⟨attempt, stored, rfl⟩ := List.mem_map.mp member
  unfold Attempt.growth
  split
  · rename_i counted
    obtain ⟨same, counts⟩ := counted
    simp [Attempt.counts, idle attempt stored same, unwritten attempt stored same] at counts
  · rfl

/-- What is left when an active attempt is released: its growth is gone unless its disk
was written, and every disk that counts was one before. -/
structure Frees (db next : Db) (record : Attempt) : Prop where
  keyed : Keyed Attempt.id next.attempts
  untimed : ∀ attempt ∈ next.attempts, isActiveAttempt attempt = true → attempt.releasedAt = none
  written : ∀ attempt ∈ next.attempts, attempt.diskMaterialized = true →
    ∃ kept ∈ db.attempts, kept.volume = attempt.volume ∧ kept.diskMaterialized = true
  total : ∀ key, total (Attempt.growth key) next.attempts + record.growth key =
    total (Attempt.growth key) db.attempts + record.lasting key

theorem frees {record : Attempt} {now : Int} (balanced : Balanced db base)
    (found : db.attempt? record.id = some record) (active : isActiveAttempt record = true)
    (attempts : next.attempts =
      put Attempt.id { record with released := true, releasedAt := some now } db.attempts) :
    Frees db next record := by
  have counts := counts_of_active active
  refine ⟨attempts ▸ keyed_put balanced.attempts, ?_, ?_, fun key => ?_⟩
  · intro other stored live
    rw [attempts, mem_put] at stored
    rcases stored with rfl | ⟨stored, -⟩
    · simp [isActiveAttempt] at live
    · exact balanced.untimed other stored live
  · intro other stored materialized
    rw [attempts, mem_put] at stored
    rcases stored with rfl | ⟨stored, -⟩
    · exact ⟨record, (mem_of_find found).1, rfl, materialized⟩
    · exact ⟨other, stored, rfl, materialized⟩
  · have left : ({ record with released := true, releasedAt := some now } : Attempt).growth key =
        record.lasting key := by
      rw [Attempt.lasting, growth_of_counts counts]
      cases written : record.diskMaterialized with
      | false => exact growth_of_not_counts (by simp [Attempt.counts, isActiveAttempt]) key
      | true =>
          exact growth_of_counts (by simp [Attempt.counts, Attempt.consumed]) key
    rw [attempts, ← left]
    exact total_put_of_found balanced.attempts (Attempt.growth key) found

/-- A release without a volume frees nothing. -/
theorem release_absent {record : Attempt} (balanced : Balanced db base)
    (frees : Frees db next record) (counts : record.counts = true) (member : record ∈ db.attempts)
    (absent : find Volume.id record.volume db.volumes = none) (volumes : next.volumes = db.volumes) :
    Balanced next (rebase next base) := by
  have empty : db.size record.volume = 0 := by simp [Db.size, absent]
  have share := balanced.le_size member counts
  refine of_balance frees.keyed (volumes ▸ balanced.fits) frees.untimed ?_ fun key => .inl ?_
  · intro other isOther materialized
    obtain ⟨kept, isKept, same, written⟩ := frees.written other isOther materialized
    rw [volumes, ← same]
    exact balanced.lasting kept isKept written
  · have unchanged : next.size key = db.size key := by rw [Db.size, volumes, Db.size]
    have nothing : record.growth key = 0 := by
      rw [growth_of_counts counts]
      split
      · omega
      · rfl
    have freed := frees.total key
    rw [Attempt.lasting, nothing, ite_self] at freed
    rw [unchanged, balanced.balance]
    omega

/-- A release takes the growth of the attempt from a volume that stays. -/
theorem release_stored {record : Attempt} {old volume : Volume} (balanced : Balanced db base)
    (frees : Frees db next record) (counts : record.counts = true) (member : record ∈ db.attempts)
    (stored : find Volume.id record.volume db.volumes = some old)
    (place : volume.id = record.volume) (disk : volume.materialized = old.materialized)
    (size : volume.diskMiB.getD 0 = db.size record.volume -
      (if record.diskMaterialized then 0 else record.additionalDiskMiB))
    (volumes : next.volumes = put Volume.id volume db.volumes) :
    Balanced next (rebase next base) := by
  have share := balanced.le_size member counts
  have bounded : volume.diskMiB.getD 0 ≤ maxU64 := by
    have fits := balanced.fits old (mem_of_find stored).1
    have isSize : db.size record.volume = old.diskMiB.getD 0 := by
      rw [Db.size, stored]
      rfl
    omega
  refine of_balance frees.keyed (volumes ▸ balanced.fits_put bounded) frees.untimed ?_
    fun key => .inl ?_
  · intro other isOther materialized
    obtain ⟨kept, isKept, same, written⟩ := frees.written other isOther materialized
    rw [volumes, ← same]
    refine balanced.lasting_put (fun before isBefore wasDisk => ?_) isKept written
    rw [place, stored] at isBefore
    rw [disk, Option.some.inj isBefore, wasDisk]
  · have isSize : next.size key =
        if key = record.volume then volume.diskMiB.getD 0 else db.size key := by
      rw [← place]
      simp only [Db.size, volumes, find_put]
      split <;> rfl
    have freed := frees.total key
    rw [Attempt.lasting, growth_of_counts counts] at freed
    rw [isSize]
    by_cases same : key = record.volume
    · subst same
      rw [if_pos rfl, size]
      rw [if_pos rfl] at freed
      have balance := balanced.balance record.volume
      cases written : record.diskMaterialized with
      | false =>
          rw [written, if_neg (by simp)] at freed
          rw [if_neg (by simp)]
          omega
      | true =>
          rw [written, if_pos rfl] at freed
          rw [if_pos rfl]
          omega
    · rw [if_neg same, ite_self] at freed
      rw [if_neg same, balanced.balance]
      omega

/-- No disk was written on a volume that is not materialized. -/
theorem unwritten_of_blank {record : Attempt} {old : Volume} (balanced : Balanced db base)
    (frees : Frees db next record)
    (stored : find Volume.id record.volume db.volumes = some old)
    (blank : old.materialized = false) :
    ∀ other ∈ next.attempts, other.volume = record.volume → other.diskMaterialized = false := by
  intro other isOther same
  by_contra materialized
  obtain ⟨kept, isKept, place, written⟩ :=
    frees.written other isOther (Bool.not_eq_false _ ▸ materialized)
  obtain ⟨disk, isDisk, wasDisk⟩ := balanced.lasting kept isKept written
  rw [place, same, stored] at isDisk
  rw [← Option.some.inj isDisk, blank] at wasDisk
  simp at wasDisk

/-- A volume goes only when nothing counts against it. -/
theorem release_removed {record : Attempt} {old : Volume} (balanced : Balanced db base)
    (frees : Frees db next record) (counts : record.counts = true)
    (stored : find Volume.id record.volume db.volumes = some old)
    (volumes : next.volumes = remove Volume.id record.volume db.volumes)
    (blank : old.materialized = false)
    (idle : ∀ other ∈ next.attempts, other.volume = record.volume → isActiveAttempt other = false) :
    Balanced next (rebase next base) := by
  have unwritten := balanced.unwritten_of_blank frees stored blank
  have gone : ∀ key, find Volume.id key next.volumes =
      if key = record.volume then none else find Volume.id key db.volumes := by
    intro key
    rw [volumes, find_remove]
  refine of_balance frees.keyed ?_ frees.untimed ?_ fun key => ?_
  · intro other isOther
    rw [volumes, mem_remove] at isOther
    exact balanced.fits other isOther.1
  · intro other isOther materialized
    have apart : other.volume ≠ record.volume := fun same => by
      rw [unwritten other isOther same] at materialized
      simp at materialized
    obtain ⟨kept, isKept, same, written⟩ := frees.written other isOther materialized
    rw [gone, if_neg apart, ← same]
    exact balanced.lasting kept isKept written
  · by_cases same : key = record.volume
    · subst same
      exact .inr ⟨by rw [gone, if_pos rfl], total_eq_zero idle unwritten⟩
    · have freed := frees.total key
      rw [Attempt.lasting, growth_of_counts counts, if_neg same, ite_self] at freed
      have unchanged : next.size key = db.size key := by
        simp only [Db.size, gone, if_neg same]
      left
      rw [unchanged, balanced.balance]
      omega

theorem release {attempt : String} (balanced : Balanced db base) (now : Int) :
    Balanced (releaseIn db now attempt) (rebase (releaseIn db now attempt) base) := by
  cases found : db.attempt? attempt with
  | none =>
      have same : releaseIn db now attempt = db := by simp only [releaseIn, found]
      rw [same]
      exact balanced.rebased
  | some record =>
      cases active : isActiveAttempt record with
      | false =>
          have same : releaseIn db now attempt = db := by simp [releaseIn, found, active]
          rw [same]
          exact balanced.rebased
      | true =>
          obtain ⟨member, rfl⟩ := mem_of_find found
          obtain ⟨attempts, volumes⟩ := releaseIn_volume now found active
          have counts := counts_of_active active
          have frees := balanced.frees found active attempts
          rcases volumes with ⟨absent, volumes⟩ |
            ⟨old, volume, stored, place, disk, size, volumes | ⟨volumes, blank, idle⟩⟩
          · exact balanced.release_absent frees counts member absent volumes
          · exact balanced.release_stored frees counts member stored place disk size volumes
          · exact balanced.release_removed frees counts stored volumes blank idle

theorem materialize {attempt : String} (balanced : Balanced db base)
    (materialized : materialize db attempt = .ok next) : Balanced next (rebase next base) := by
  obtain ⟨record, old, volume, found, live, stored, place, disk, size, attempts, volumes⟩ :=
    materialize_volume materialized
  obtain ⟨member, named⟩ := mem_of_find found
  have isDisk : volume.diskMiB.getD 0 ≤ maxU64 :=
    size ▸ balanced.fits old (mem_of_find stored).1
  refine of_balance (attempts ▸ keyed_put balanced.attempts) (volumes ▸ balanced.fits_put isDisk)
    ?_ ?_ fun key => .inl ?_
  · intro other isOther active
    rw [attempts, mem_put] at isOther
    rcases isOther with rfl | ⟨isOther, -⟩
    · exact balanced.untimed record member active
    · exact balanced.untimed other isOther active
  · intro other isOther written
    rw [attempts, mem_put] at isOther
    rw [volumes]
    rcases isOther with rfl | ⟨isOther, -⟩
    · refine ⟨volume, ?_, disk⟩
      rw [find_put]
      exact if_pos place.symm
    · exact balanced.lasting_put (fun _ _ _ => disk) isOther written
  · have same : ({ record with diskMaterialized := true } : Attempt).growth key =
        record.growth key := by
      simp [Attempt.growth, Attempt.volume, Attempt.counts, isActiveAttempt, live]
    have kept := @total_put_of_found _ _ _ _ { record with diskMaterialized := true } _ _
      balanced.attempts (Attempt.growth key) (named ▸ found)
    rw [← attempts, same] at kept
    have unchanged : next.size key = db.size key := by
      simp only [Db.size, volumes, find_put, place]
      split
      · rename_i isPlace
        rw [isPlace, stored]
        exact congrArg (fun size => size.getD 0) size
      · rfl
    rw [unchanged, balanced.balance]
    omega

/-- Every step keeps the balance. -/
theorem step {books after : Books} {step : Step} (balanced : Balanced books.state.db books.base)
    (taken : books.step step = some after) : Balanced after.state.db after.base := by
  obtain ⟨next, moved, rfl⟩ := Option.map_eq_some_iff.mp taken
  cases step with
  | reserve now run agent checkpoint attempt =>
      simp only [State.step] at moved
      split at moved
      · rename_i guard
        split at moved
        · exact Option.some.inj moved ▸ balanced.rebased
        · rename_i db placed reserved
          obtain rfl := Option.some.inj moved
          obtain ⟨access, rfl, ⟨_, reservation, _, claimed⟩ | ⟨best, _, admitted⟩⟩ :=
            reserveIn_of_ok reserved
          · exact balanced.claim guard.1 claimed
          · exact balanced.admitAttempt guard.1 admitted
      · simp at moved
  | release now attempt =>
      obtain rfl := Option.some.inj moved
      exact balanced.release now
  | materialize attempt =>
      simp only [State.step] at moved
      split at moved
      · exact Option.some.inj moved ▸ balanced.rebased
      · rename_i db materialized
        obtain rfl := Option.some.inj moved
        exact balanced.materialize materialized
  | resume run reservation =>
      simp only [State.step] at moved
      split at moved
      · obtain rfl := Option.some.inj moved
        exact ⟨balanced.attempts, balanced.fits, balanced.untimed, balanced.lasting,
          balanced.rebased.balance⟩
      · simp at moved
  | report nodes =>
      simp only [State.step] at moved
      split at moved
      · obtain rfl := Option.some.inj moved
        exact ⟨balanced.attempts, balanced.fits, balanced.untimed, balanced.lasting,
          balanced.rebased.balance⟩
      · simp at moved

theorem run {initial final : Books} {steps : List Step}
    (balanced : Balanced initial.state.db initial.base)
    (executed : execute Books.step initial steps = some final) :
    Balanced final.state.db final.base :=
  @execute_invariant _ _ Books.step (fun books => Balanced books.state.db books.base)
    (fun _ _ _ holds taken => holds.step taken) _ _ _ balanced executed

/-- What is written on a volume stays. -/
theorem floor (balanced : Balanced db base) (key : String × String) :
    base key + total (Attempt.lasting key) db.attempts ≤ db.size key := by
  rw [balanced.balance]
  refine Nat.add_le_add_left (List.sum_le_sum fun attempt _ => ?_) _
  unfold Attempt.lasting
  split
  · exact le_rfl
  · exact Nat.zero_le _

end Balanced

theorem Books.Started.balanced {books : Books} (started : books.Started) :
    Balanced books.state.db books.base := by
  obtain ⟨empty, sizes, fits⟩ := started
  refine ⟨?_, fits, ?_, ?_, fun key => ?_⟩
  · rw [empty]
    exact List.nodup_nil
  · simp [empty]
  · simp [empty]
  · rw [sizes, empty]
    rfl

/-! ### The balance over a run -/

theorem admitted_volume {db next : Db} {request : Request} {best : Candidate} {now : Int}
    {attempt : String} {placed : Placed}
    (fits : ∀ volume ∈ db.volumes, volume.diskMiB.getD 0 ≤ maxU64)
    (admitted : admitAttempt db request best now attempt = .ok (next, placed)) :
    ∃ record, next.attempt? attempt = some record ∧
      record.volume = (request.run.id, best.node.id) ∧ record.counts = true ∧
      ∀ key, next.size key = db.size key +
        if key = record.volume then record.additionalDiskMiB else 0 := by
  obtain ⟨volume, additional, named, volumes, attempts, size, _⟩ := admit_volume fits admitted
  refine ⟨newAttempt request best now attempt additional, ?_, rfl, counts_of_active rfl,
    fun key => ?_⟩
  · rw [Db.attempt?, attempts, find_put]
    exact if_pos rfl
  · have place : (newAttempt request best now attempt additional).volume = volume.id := named.symm
    have grows : (newAttempt request best now attempt additional).additionalDiskMiB = additional :=
      rfl
    rw [Db.size, volumes, find_put, place]
    by_cases same : key = volume.id
    · rw [if_pos same, if_pos same, same, named, grows]
      exact size
    · rw [if_neg same, if_neg same]
      rfl

theorem claimed_volume {db next : Db} {request : Request} {now : Int} {configured : Bool}
    {reservation attempt : String} {placed : Placed} (balanced : ∃ base, Balanced db base)
    (fresh : db.attempt? attempt = none)
    (claimed : claimReservation db request now configured reservation attempt = .ok (next, placed)) :
    next.volumes = db.volumes ∧ ∃ held consumed taken, db.attempt? reservation = some held ∧
      held.counts = true ∧ next.attempt? reservation = some consumed ∧ consumed.counts = false ∧
      next.attempt? attempt = some taken ∧ taken.counts = true ∧ taken.volume = held.volume ∧
      taken.additionalDiskMiB = held.additionalDiskMiB := by
  obtain ⟨base, balanced⟩ := balanced
  obtain ⟨-, held, found, live, -, -, -, attempts, volumes⟩ := claim_of_ok claimed
  obtain ⟨member, named⟩ := mem_of_find found
  have active : isActiveAttempt held = true := by simp [isActiveAttempt, live]
  have untimed := balanced.untimed held member active
  have apart : held.id ≠ attempt := by
    rintro rfl
    rw [named, found] at fresh
    simp at fresh
  refine ⟨volumes, held, { held with released := true }, takeOver held now attempt, found,
    counts_of_active active, ?_, by simp [Attempt.counts, isActiveAttempt, Attempt.consumed, untimed],
    ?_, counts_of_active active, rfl, rfl⟩
  · rw [Db.attempt?, attempts, find_put, find_put, ← named]
    exact (if_neg apart).trans (if_pos rfl)
  · rw [Db.attempt?, attempts, find_put]
    exact if_pos rfl

theorem released_volume {db : Db} {base : String × String → Nat} {attempt : String}
    {record : Attempt} (balanced : Balanced db base) (now : Int)
    (found : db.attempt? attempt = some record) (active : isActiveAttempt record = true) :
    (∀ key, key ≠ record.volume → (releaseIn db now attempt).size key = db.size key) ∧
      ((releaseIn db now attempt).size record.volume +
          (if record.diskMaterialized then 0 else record.additionalDiskMiB) =
            db.size record.volume ∨
        (record.diskMaterialized = false ∧
          find Volume.id record.volume (releaseIn db now attempt).volumes = none ∧
          db.size record.volume = base record.volume + record.additionalDiskMiB)) := by
  obtain ⟨member, rfl⟩ := mem_of_find found
  obtain ⟨attempts, volumes⟩ := releaseIn_volume now found active
  have counts := counts_of_active active
  have share := balanced.le_size member counts
  have frees := balanced.frees found active attempts
  rcases volumes with ⟨absent, volumes⟩ |
    ⟨old, volume, stored, place, disk, size, volumes | ⟨volumes, blank, idle⟩⟩
  · have empty : db.size record.volume = 0 := by simp [Db.size, absent]
    refine ⟨fun key _ => by rw [Db.size, volumes, Db.size], .inl ?_⟩
    have unchanged : (releaseIn db now record.id).size record.volume = db.size record.volume := by
      rw [Db.size, volumes, Db.size]
    split <;> omega
  · have isSize : ∀ key, (releaseIn db now record.id).size key =
        if key = record.volume then volume.diskMiB.getD 0 else db.size key := by
      intro key
      rw [← place]
      simp only [Db.size, volumes, find_put]
      split <;> rfl
    refine ⟨fun key apart => by rw [isSize, if_neg apart], .inl ?_⟩
    rw [isSize, if_pos rfl, size]
    split <;> omega
  · have gone : ∀ key, find Volume.id key (releaseIn db now record.id).volumes =
        if key = record.volume then none else find Volume.id key db.volumes := by
      intro key
      rw [volumes, find_remove]
    have unwritten := balanced.unwritten_of_blank frees stored blank
    have blankRecord : record.diskMaterialized = false := by
      by_contra written
      obtain ⟨disk, isDisk, wasDisk⟩ :=
        balanced.lasting record member (Bool.not_eq_false _ ▸ written)
      rw [stored] at isDisk
      rw [← Option.some.inj isDisk, blank] at wasDisk
      simp at wasDisk
    refine ⟨fun key apart => by simp only [Db.size, gone, if_neg apart],
      .inr ⟨blankRecord, by rw [gone, if_pos rfl], ?_⟩⟩
    have freed := frees.total record.volume
    rw [Balanced.total_eq_zero idle unwritten, Attempt.lasting, blankRecord,
      growth_of_counts counts, if_pos rfl, if_neg (by simp)] at freed
    rw [balanced.balance]
    omega

theorem volumes_balanced {initial final : Books} {steps : List Step} (started : initial.Started)
    (executed : execute Books.step initial steps = some final) :
    VolumesBalanced initial steps := by
  have balanced : ∀ {before books}, execute Books.step initial before = some books →
      Balanced books.state.db books.base := fun reached => started.balanced.run reached
  refine ⟨?_, ?_, ?_, ?_, ?_⟩
  · intro before after books _ reached
    exact (balanced reached).balance
  · intro before after books _ reached
    exact (balanced reached).floor
  · intro before after books now run access checkpoint attempt best db placed _ reached admitted
    exact admitted_volume (balanced reached).fits admitted
  · intro before after books now run access checkpoint attempt reservation db placed split reached
      claimed
    -- The id of the new attempt is fresh because the step was enabled.
    have fresh : books.state.db.attempt? attempt = none := by
      rw [split] at executed
      obtain ⟨middle, isMiddle, rest⟩ := execute_append.mp executed
      obtain rfl := Option.some.inj (reached.symm.trans isMiddle)
      obtain ⟨next, taken, -⟩ := execute_cons.mp rest
      obtain ⟨state, moved, -⟩ := Option.map_eq_some_iff.mp taken
      simp only [State.step] at moved
      split at moved
      · rename_i guard
        exact guard.1
      · simp at moved
    exact claimed_volume ⟨_, balanced reached⟩ fresh claimed
  · intro before after books now attempt record _ reached found active
    exact released_volume (balanced reached) now found active

/-- Two nodes without a volume. -/
def emptyBooks : Books := ⟨twoNodes, fun _ => 0⟩

/-- A move whose destination was materialized before it was claimed. -/
def materializedRun : List Step :=
  [.reserve 0 { runOn "second" with placementTransition := true } (some none) {} "destination",
    .materialize "destination", .resume "run" (some "destination"), claimingRun]

theorem emptyBooks_started : emptyBooks.Started :=
  ⟨rfl, fun _ => rfl, fun _ member => absurd member List.not_mem_nil⟩

theorem consumed_counted_twice :
    ¬ ∀ (initial final : Books) (steps : List Step), initial.Started →
      execute Books.step initial steps = some final → ∀ key,
        final.state.db.size key = initial.base key +
          total (fun attempt => if attempt.volume = key ∧
            (isActiveAttempt attempt || attempt.diskMaterialized) then
              attempt.additionalDiskMiB else 0) final.state.db.attempts := by
  intro claimed
  have balance := claimed emptyBooks _ materializedRun emptyBooks_started rfl ("run", "second")
  exact absurd balance (by decide)

theorem volumes_balanced_materialized : VolumesBalanced emptyBooks materializedRun :=
  volumes_balanced emptyBooks_started rfl

end Cairn.Nodes.Placement

import Cairn.Storage.CleanCacheEviction
import Cairn.Storage.Lazy.BytesCache
import Mathlib.Data.Set.Function

/-!
Owns what holds of both caches of a node after every sequence of operations: the index of
its clean files through fills, hits, retirements and evictions, and the bytes that a disk
keeps in memory. `caches_limited` is the main result.
-/

set_option autoImplicit false

namespace Cairn.Storage.CleanCache

open Cairn.Library.HashMaps Cairn.Library.Steps Cairn.Storage.Lazy

variable {Path : Type} [LinearOrder Path]

/-! ### Evictions -/

/-- A clearing of an attempt is what its readings make of the index that it starts from. -/
structure Clearing.Sound (policy : Policy) (incoming : Nat) (attempt : Attempt Path)
    (clearing : Clearing Path) : Prop where
  mirrored : clearing.start.Mirrored
  target : ∃ total free, attempt.space = some (total, free) ∧
    clearing.target = required policy incoming clearing.start.bytes total free
  clears : Clears attempt.removal clearing.target clearing.start 0 clearing.cleared

/-- Every clearing of an eviction is sound. -/
def Evicted.Sound (policy : Policy) (incoming : Nat) (readings : Readings Path)
    (evicted : Evicted Path) : Prop :=
  ∀ clearing ∈ evicted.clearings,
    clearing.Sound policy incoming readings.first ∨ clearing.Sound policy incoming readings.second

/-- The sizes of the files of a listing fit in the counter. -/
def ListingFits (listing : Option (List (Found Path))) : Prop :=
  ∀ found ∈ listing, (found.map Found.size).sum ≤ u64Max

/-- The lists of an index agree. -/
def Agrees (index : Option (Index Path)) : Prop := ∀ present ∈ index, present.Mirrored

/-- The counter of an index is right. -/
def Counts (index : Option (Index Path)) : Prop := ∀ present ∈ index, present.Exact

theorem forall_mem_some {Value : Type} {property : Value → Prop} {value : Value} :
    (∀ other ∈ some value, property other) ↔ property value := by
  simp

theorem Mirrored.scan (found : List (Found Path)) (scannedAt : Nat) :
    (Index.scan found scannedAt).Mirrored := (Index.Mirrored.empty scannedAt).foldl found

theorem Exact.scan {found : List (Found Path)} (fits : (found.map Found.size).sum ≤ u64Max)
    (scannedAt : Nat) : (Index.scan found scannedAt).Exact := by
  refine (Index.Exact.empty scannedAt).foldl ?_
  show 0 + _ ≤ _
  rwa [Nat.zero_add]

/-- An attempt clears. -/
theorem Attempt.clear_sound (attempt : Attempt Path) (policy : Policy) (incoming : Nat)
    {total free : Nat} {index : Index Path} (mirrored : index.Mirrored)
    (space : attempt.space = some (total, free)) :
    ∃ clearing, attempt.clear policy incoming total free index = some clearing ∧
      clearing.start = index ∧ clearing.Sound policy incoming attempt := by
  obtain ⟨cleared, ended, clears⟩ := @clear_clears _ _ attempt.removal
    (required policy incoming index.bytes total free) (index.oldest.card + 1) 0 _ mirrored
    (Nat.lt_succ_self _)
  exact ⟨⟨index, _, cleared⟩, congrArg (Option.map _) ended, rfl, mirrored,
    ⟨total, free, space, rfl⟩, clears⟩

/-- A clearing of an index whose counter is right leaves one whose counter is right. -/
theorem Clearing.Sound.exact {policy : Policy} {incoming : Nat} {attempt : Attempt Path}
    {clearing : Clearing Path} (sound : clearing.Sound policy incoming attempt)
    (exact : clearing.start.Exact) : clearing.cleared.index.Exact :=
  (sound.clears.prompt exact ((Nat.zero_add _).trans_le exact.2)).1

/-- The indexes of an eviction: those its clearings start from, and the one it leaves. -/
def Evicted.Exact (evicted : Evicted Path) : Prop :=
  (∀ clearing ∈ evicted.clearings, clearing.start.Exact) ∧ Counts evicted.index

theorem retry_sound (policy : Policy) (incoming : Nat) (readings : Readings Path)
    (found : List (Found Path)) {before : Clearing Path}
    (sound : before.Sound policy incoming readings.first) :
    ∃ evicted, retry policy incoming readings found before = some evicted ∧
      Agrees evicted.index ∧ evicted.Sound policy incoming readings ∧
      (before.start.Exact → (found.map Found.size).sum ≤ u64Max → evicted.Exact) := by
  have scanned := Mirrored.scan found readings.now
  unfold retry
  dsimp only
  cases space : readings.second.space with
  | none =>
      refine ⟨_, rfl, forall_mem_some.mpr scanned, ?_, fun exact fits => ⟨?_, ?_⟩⟩
      · exact List.forall_mem_singleton.mpr (.inl sound)
      · exact List.forall_mem_singleton.mpr exact
      · exact forall_mem_some.mpr (Exact.scan fits _)
  | some measured =>
      obtain ⟨total, free⟩ := measured
      obtain ⟨clearing, cleared, starts, soundAgain⟩ :=
        readings.second.clear_sound policy incoming scanned space
      -- However the second clearing stops, its index is the one that is left.
      have left : ∀ outcome : Outcome,
          Agrees (some clearing.cleared.index) ∧
          Evicted.Sound policy incoming readings
            ⟨some clearing.cleared.index, outcome, [before, clearing]⟩ ∧
          (before.start.Exact → (found.map Found.size).sum ≤ u64Max →
            Evicted.Exact ⟨some clearing.cleared.index, outcome, [before, clearing]⟩) := by
        intro outcome
        refine ⟨forall_mem_some.mpr soundAgain.clears.mirrored, ?_, fun exact fits => ?_⟩
        · exact List.forall_mem_cons.mpr
            ⟨.inl sound, List.forall_mem_singleton.mpr (.inr soundAgain)⟩
        · have exactAgain : clearing.start.Exact := starts ▸ Exact.scan fits _
          exact ⟨List.forall_mem_cons.mpr ⟨exact, List.forall_mem_singleton.mpr exactAgain⟩,
            forall_mem_some.mpr (soundAgain.exact exactAgain)⟩
      simp only [cleared, Option.map_some]
      cases clearing.cleared.stop with
      | finished => exact ⟨_, rfl, left _⟩
      | missing entry => exact ⟨_, rfl, left _⟩
      | failed entry => exact ⟨_, rfl, left _⟩

theorem attempts_sound (policy : Policy) (incoming : Nat) (readings : Readings Path)
    {index : Index Path} (mirrored : index.Mirrored) :
    ∃ evicted, attempts policy incoming readings index = some evicted ∧
      Agrees evicted.index ∧ evicted.Sound policy incoming readings ∧
      (index.Exact → ListingFits readings.relisting → evicted.Exact) := by
  unfold attempts
  cases space : readings.first.space with
  | none =>
      exact ⟨_, rfl, forall_mem_some.mpr mirrored, List.forall_mem_nil _,
        fun exact _ => ⟨List.forall_mem_nil _, forall_mem_some.mpr exact⟩⟩
  | some measured =>
      obtain ⟨total, free⟩ := measured
      obtain ⟨clearing, cleared, starts, sound⟩ :=
        readings.first.clear_sound policy incoming mirrored space
      have left : ∀ outcome : Outcome,
          Agrees (some clearing.cleared.index) ∧
          Evicted.Sound policy incoming readings
            ⟨some clearing.cleared.index, outcome, [clearing]⟩ ∧
          (index.Exact → ListingFits readings.relisting →
            Evicted.Exact ⟨some clearing.cleared.index, outcome, [clearing]⟩) := by
        intro outcome
        refine ⟨forall_mem_some.mpr sound.clears.mirrored,
          List.forall_mem_singleton.mpr (.inl sound), fun exact _ => ?_⟩
        have exactStart : clearing.start.Exact := starts ▸ exact
        exact ⟨List.forall_mem_singleton.mpr exactStart,
          forall_mem_some.mpr (sound.exact exactStart)⟩
      simp only [cleared, Option.bind_some]
      cases clearing.cleared.stop with
      | finished => exact ⟨_, rfl, left _⟩
      | failed entry => exact ⟨_, rfl, left _⟩
      | missing entry =>
          cases relisting : readings.relisting with
          | none =>
              rw [relisting] at left
              exact ⟨_, rfl, left _⟩
          | some found =>
              obtain ⟨evicted, retried, agrees, sound, exact⟩ :=
                retry_sound policy incoming readings found sound
              refine ⟨evicted, retried, agrees, sound, fun exactStart fits => ?_⟩
              exact exact (starts ▸ exactStart) (fits found rfl)

/-- The index that an eviction starts from is the one it finds, or a scan. -/
theorem indexed_cases {readings : Readings Path} {index : Option (Index Path)}
    {started : Index Path} (isIndexed : indexed readings index = some started) :
    started ∈ index ∨ ∃ found ∈ readings.listing, started = Index.scan found readings.now := by
  have scanned : ∀ {result : Option (Index Path)},
      readings.listing.map (fun found => Index.scan found readings.now) = result →
      result = some started →
      ∃ found ∈ readings.listing, started = Index.scan found readings.now := by
    rintro _ rfl isScan
    obtain ⟨found, listed, rfl⟩ := Option.map_eq_some_iff.mp isScan
    exact ⟨found, listed, rfl⟩
  unfold indexed at isIndexed
  cases index with
  | none => exact .inr (scanned rfl isIndexed)
  | some present =>
      dsimp only at isIndexed
      split at isIndexed
      · exact .inr (scanned rfl isIndexed)
      · exact .inl isIndexed

/-- An eviction ends. -/
theorem evict_sound (policy : Policy) (incoming : Nat) (readings : Readings Path)
    {index : Option (Index Path)} (agrees : Agrees index) :
    ∃ evicted, evict policy incoming readings index = some evicted ∧
      Agrees evicted.index ∧ evicted.Sound policy incoming readings ∧
      (Counts index → ListingFits readings.listing → ListingFits readings.relisting →
        evicted.Exact) := by
  unfold evict
  cases started : indexed readings index with
  | none =>
      exact ⟨_, rfl, agrees, List.forall_mem_nil _, fun counts _ _ =>
        ⟨List.forall_mem_nil _, counts⟩⟩
  | some start =>
      have mirrored : start.Mirrored := by
        rcases indexed_cases started with present | ⟨found, _, rfl⟩
        · exact agrees start present
        · exact Mirrored.scan found _
      obtain ⟨evicted, ended, agrees, sound, exact⟩ :=
        attempts_sound policy incoming readings mirrored
      refine ⟨evicted, ended, agrees, sound, fun counts fits fitsAgain => exact ?_ fitsAgain⟩
      rcases indexed_cases started with present | ⟨found, listed, rfl⟩
      · exact counts start present
      · exact Exact.scan (fits found listed) _

/-! ### Runs -/

/-- The sizes of the files that a step indexes fit in the counter, with those that stay. -/
def Fits (index : Option (Index Path)) : Step Path → Prop
  | .filled file => ∀ present ∈ index, (present.insert file).total ≤ u64Max
  | .touched _ _ => True
  | .retired _ => True
  | .evicts _ _ readings => ListingFits readings.listing ∧ ListingFits readings.relisting

/-- A step ends, with lists that agree and, where the sizes fit, with the right counter. -/
theorem step_sound {index : Option (Index Path)} (agrees : Agrees index) (action : Step Path) :
    ∃ next, step index action = some next ∧ Agrees next ∧
      (Counts index → Fits index action → Counts next) := by
  cases action with
  | filled file =>
      refine ⟨_, rfl, fun next inside => ?_, fun counts fits next inside => ?_⟩
      · obtain ⟨present, isPresent, rfl⟩ := Option.map_eq_some_iff.mp inside
        exact (agrees present isPresent).insert file
      · obtain ⟨present, isPresent, rfl⟩ := Option.map_eq_some_iff.mp inside
        exact (counts present isPresent).insert (fits present isPresent)
  | touched path modified =>
      refine ⟨_, rfl, fun next inside => ?_, fun counts _ next inside => ?_⟩
      · obtain ⟨present, isPresent, rfl⟩ := Option.map_eq_some_iff.mp inside
        exact (agrees present isPresent).touch path modified
      · obtain ⟨present, isPresent, rfl⟩ := Option.map_eq_some_iff.mp inside
        exact (counts present isPresent).touch path modified
  | retired path =>
      refine ⟨_, rfl, fun next inside => ?_, fun counts _ next inside => ?_⟩
      · obtain ⟨present, isPresent, rfl⟩ := Option.map_eq_some_iff.mp inside
        exact (agrees present isPresent).remove path
      · obtain ⟨present, isPresent, rfl⟩ := Option.map_eq_some_iff.mp inside
        exact (counts present isPresent).remove path
  | evicts policy incoming readings =>
      obtain ⟨evicted, ended, agrees, _, exact⟩ := evict_sound policy incoming readings agrees
      refine ⟨evicted.index, ?_, agrees, fun counts fits => (exact counts fits.1 fits.2).2⟩
      show (evict policy incoming readings index).map Evicted.index = _
      rw [ended]
      rfl

/-- Every run ends, with lists that agree. -/
theorem run_agrees {index : Option (Index Path)} (agrees : Agrees index) (steps : List (Step Path)) :
    ∃ final, execute step index steps = some final ∧ Agrees final ∧
      (Counts index → Throughout step Fits index steps → Counts final) := by
  induction steps generalizing index with
  | nil => exact ⟨index, rfl, agrees, fun counts _ => counts⟩
  | cons action rest inductionHypothesis =>
      obtain ⟨next, stepped, agrees, counted⟩ := step_sound agrees action
      obtain ⟨final, executed, agrees, countedLater⟩ := inductionHypothesis agrees
      refine ⟨final, execute_cons.mpr ⟨next, stepped, executed⟩, agrees, fun counts fits => ?_⟩
      exact countedLater (counted counts fits.1) (fits.2 next stepped)

/-- The entries by age stand for the files, one for one. -/
theorem Index.Mirrored.bijective {index : Index Path} (mirrored : index.Mirrored) :
    Set.BijOn Index.pathOf (index.oldest : Set (Entry Path)) {path | path ∈ index.files} := by
  refine ⟨fun entry member => ?_, fun first isFirst second isSecond same => ?_, fun path stored => ?_⟩
  · obtain ⟨size, found⟩ := (mirrored entry).mp member
    exact AList.lookup_isSome.mp (by rw [found]; rfl)
  · obtain ⟨size, found⟩ := (mirrored first).mp isFirst
    obtain ⟨other, foundOther⟩ := (mirrored second).mp isSecond
    rw [same, foundOther] at found
    have time := (Prod.mk.inj (Option.some.inj found)).2
    exact Prod.ext time.symm same
  · obtain ⟨⟨size, modified⟩, found⟩ := Option.isSome_iff_exists.mp (AList.lookup_isSome.mpr stored)
    exact ⟨toLex (modified, path), (mirrored _).mpr ⟨size, found⟩, rfl⟩

/-! ### Both caches -/

/-- What holds of the index that a run leaves. -/
structure Consistent (steps : List (Step Path)) (final : Option (Index Path)) : Prop where
  /-- The age order and the files are in bijection, with the same times. -/
  mirrored : ∀ index ∈ final, index.Mirrored ∧
    Set.BijOn Index.pathOf (index.oldest : Set (Entry Path)) {path | path ∈ index.files}
  /-- The counter is the total of the sizes while the sizes fit. -/
  counted : Throughout step Fits none steps → ∀ index ∈ final, index.bytes = index.total
  /-- An eviction ends, and each of its clearings takes the oldest files up to its target. -/
  evicts : ∀ policy incoming readings, ∃ evicted,
    evict policy incoming readings final = some evicted ∧ evicted.Sound policy incoming readings ∧
      (Throughout step Fits none steps → ListingFits readings.listing →
        ListingFits readings.relisting → ∀ clearing ∈ evicted.clearings,
          clearing.start.Exact ∧
          clearing.cleared.removed =
            (clearing.cleared.evicted.map clearing.start.sizeAt).sum ∧
          ∀ front entry, front ++ [entry] <+: clearing.cleared.evicted →
            (front.map clearing.start.sizeAt).sum < clearing.target)

theorem consistent {steps : List (Step Path)} {final : Option (Index Path)} (agrees : Agrees final)
    (counts : Throughout step Fits none steps → Counts final) : Consistent steps final := by
  refine ⟨fun index present => ⟨agrees index present, (agrees index present).bijective⟩,
    fun fits index present => (counts fits index present).1, fun policy incoming readings => ?_⟩
  obtain ⟨evicted, ended, _, sound, exact⟩ := evict_sound policy incoming readings agrees
  refine ⟨evicted, ended, sound, fun fits listing relisting clearing member => ?_⟩
  have exactStart := (exact (counts fits) listing relisting).1 clearing member
  have prompt : ∀ attempt, clearing.Sound policy incoming attempt →
      clearing.cleared.removed = (clearing.cleared.evicted.map clearing.start.sizeAt).sum ∧
      ∀ front entry, front ++ [entry] <+: clearing.cleared.evicted →
        (front.map clearing.start.sizeAt).sum < clearing.target := by
    intro attempt sound
    have prompt := (sound.clears.prompt exactStart ((Nat.zero_add _).trans_le exactStart.2)).2
    simpa only [Nat.zero_add] using prompt
  rcases sound clearing member with first | second
  · exact ⟨exactStart, prompt _ first⟩
  · exact ⟨exactStart, prompt _ second⟩

/-- After every sequence of operations both caches of a node are consistent: the lists of the
index of clean files agree, its counter is right while the sizes fit, and an eviction takes
the oldest files up to its target; the bytes in memory are counted and within their limits,
every loop ends, and the background leaves them as they are. -/
theorem caches_limited :
    (∀ steps : List (Step Path), ∃ final, execute step none steps = some final ∧
      Consistent steps final) ∧
    (∀ budget operations, ∃ cache,
      execute BytesCache.step (BytesCache.new budget) operations = some cache ∧ cache.Bounded ∧
      ∀ key bytes, cache.insert key bytes false = some cache ∧ (cache.get key false).1 = cache) := by
  constructor
  · intro steps
    obtain ⟨final, executed, agrees, counts⟩ := @run_agrees Path _ none nofun steps
    exact ⟨final, executed, consistent agrees fun fits => counts nofun fits⟩
  · intro budget operations
    obtain ⟨cache, executed, bounded⟩ := (BytesCache.Bounded.new budget).execute operations
    exact ⟨cache, executed, bounded, BytesCache.background cache⟩

/-- An eviction that scans the directories for so many files, and cannot read the space. -/
def scanOnly (found : List (Found Nat)) : Step Nat :=
  .evicts ⟨0, 64, 1⟩ 0
    ⟨false, 0, some found, none, ⟨none, fun _ => .removed, none⟩, ⟨none, fun _ => .removed, none⟩⟩

theorem caches_limited_sample :
    ∃ final, execute step none [scanOnly [⟨3, 4096, 10⟩, ⟨4, 100, 5⟩]] = some final ∧
      ∀ index ∈ final, index.bytes = index.total := by
  obtain ⟨final, executed, consistent⟩ :=
    (@caches_limited Nat _).1 [scanOnly [⟨3, 4096, 10⟩, ⟨4, 100, 5⟩]]
  refine ⟨final, executed, consistent.counted (throughout_of_forall fun action member index => ?_)⟩
  obtain rfl := List.mem_singleton.mp member
  refine ⟨fun found listed => ?_, nofun⟩
  obtain rfl := Option.some.inj listed
  decide

/-- Three sparse files of the greatest length fill the counter: it stays below their total. -/
theorem counter_saturates :
    ∃ index, execute step none
        [scanOnly [⟨1, 2 ^ 63 - 1, 0⟩, ⟨2, 2 ^ 63 - 1, 0⟩, ⟨3, 2 ^ 63 - 1, 0⟩]] =
          some (some index) ∧ index.bytes ≠ index.total := by
  refine ⟨_, rfl, ?_⟩
  decide

end Cairn.Storage.CleanCache

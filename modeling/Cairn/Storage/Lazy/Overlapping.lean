import Cairn.Storage.Lazy.IndexReplay

/-!
Owns the selection of journal records for a read. The first selected record
that covers a position is the newest one that covers it, although the merge
visits at most three block indexes and stops once the request is covered.
-/

set_option autoImplicit false

namespace Cairn.Storage.Lazy

open Std (ExtTreeMap)
open Cairn.Library.OrderedMaps

/-- Some gap contains the position. -/
def InGaps (gaps : List (Nat × Nat)) (position : Nat) : Prop :=
  ∃ gap ∈ gaps, gap.1 ≤ position ∧ position < gap.2

/-- The first record of a selection is the newest candidate for the position. -/
def SelectsNewest (selected : List Record) (candidates : Record → Prop) (position : Nat) : Prop :=
  match selected.find? fun record => record.Covers position with
  | some record => candidates record ∧ record.Covers position ∧
      ∀ other, candidates other → other.Covers position → other.sequence ≤ record.sequence
  | none => ∀ other, candidates other → ¬ other.Covers position

namespace Index

/-! ### Gaps -/

@[simp] theorem inGaps_nil (position : Nat) : ¬ InGaps [] position := by
  simp [InGaps]

@[simp] theorem inGaps_singleton (gap : Nat × Nat) (position : Nat) :
    InGaps [gap] position ↔ gap.1 ≤ position ∧ position < gap.2 := by
  simp [InGaps]

@[simp] theorem inGaps_append (first second : List (Nat × Nat)) (position : Nat) :
    InGaps (first ++ second) position ↔ InGaps first position ∨ InGaps second position := by
  simp [InGaps, or_and_right, exists_or]

theorem inGaps_cutGap (start stop : Nat) (gap : Nat × Nat) (position : Nat) :
    InGaps (cutGap start stop gap) position ↔
      (gap.1 ≤ position ∧ position < gap.2) ∧ ¬ (start ≤ position ∧ position < stop) := by
  unfold cutGap
  by_cases apart : gap.2 ≤ start ∨ stop ≤ gap.1
  · rw [if_pos apart, inGaps_singleton]
    omega
  · rw [if_neg apart]
    have low : InGaps (if gap.1 < start then [(gap.1, start)] else []) position ↔
        gap.1 ≤ position ∧ position < start := by
      split <;> simp
      omega
    have high : InGaps (if stop < gap.2 then [(stop, gap.2)] else []) position ↔
        stop ≤ position ∧ position < gap.2 := by
      split <;> simp
      omega
    rw [inGaps_append, low, high]
    omega

theorem inGaps_flatMap_cutGap (start stop : Nat) (gaps : List (Nat × Nat)) (position : Nat) :
    InGaps (gaps.flatMap (cutGap start stop)) position ↔
      InGaps gaps position ∧ ¬ (start ≤ position ∧ position < stop) := by
  have pieces := inGaps_cutGap start stop
  constructor
  · rintro ⟨piece, member, within⟩
    obtain ⟨gap, gapMem, isPiece⟩ := List.mem_flatMap.mp member
    obtain ⟨inGap, outside⟩ := (pieces gap position).mp ⟨piece, isPiece, within⟩
    exact ⟨⟨gap, gapMem, inGap⟩, outside⟩
  · rintro ⟨⟨gap, gapMem, inGap⟩, outside⟩
    obtain ⟨piece, isPiece, within⟩ := (pieces gap position).mpr ⟨inGap, outside⟩
    exact ⟨piece, List.mem_flatMap.mpr ⟨gap, gapMem, isPiece⟩, within⟩

theorem needed_of_inGaps {start stop position : Nat} {gaps : List (Nat × Nat)}
    (missing : InGaps gaps position) (covered : start ≤ position ∧ position < stop) :
    needed start stop gaps := by
  obtain ⟨gap, member, within⟩ := missing
  refine List.any_eq_true.mpr ⟨gap, member, ?_⟩
  simp only [decide_eq_true_eq]
  omega

/-! ### The newest head -/

/-- Every iterator runs from newer to older records. -/
def Descending (indexes : List (List Record)) : Prop :=
  ∀ entries ∈ indexes, entries.Pairwise fun first second => second.sequence < first.sequence

theorem takeNewest_none {indexes : List (List Record)} (empty : takeNewest indexes = none) :
    indexes.flatten = [] := by
  induction indexes with
  | nil => rfl
  | cons entries rest inductionHypothesis =>
      unfold takeNewest at empty
      cases found : takeNewest rest with
      | none =>
          cases entries with
          | nil => simpa using inductionHypothesis found
          | cons record others => simp [found] at empty
      | some best =>
          cases entries with
          | nil => simp [found] at empty
          | cons record others =>
              simp only [found] at empty
              split at empty <;> cases empty

/-- What `takeNewest` takes is the newest record of all iterators. -/
theorem takeNewest_some {indexes remaining : List (List Record)} {record : Record}
    (descending : Descending indexes) (taken : takeNewest indexes = some (record, remaining)) :
    indexes.flatten.Perm (record :: remaining.flatten) ∧ Descending remaining ∧
      ∀ other ∈ indexes.flatten, other.sequence ≤ record.sequence := by
  induction indexes generalizing remaining record with
  | nil => cases taken
  | cons entries rest inductionHypothesis =>
      have restDescending : Descending rest := fun other member =>
        descending other (List.mem_cons_of_mem entries member)
      have entriesDescending := descending entries (by simp)
      have headNewest : ∀ head others, entries = head :: others →
          ∀ other ∈ entries, other.sequence ≤ head.sequence := by
        rintro head others rfl other member
        rcases List.mem_cons.mp member with rfl | member
        · exact le_rfl
        · exact ((List.pairwise_cons.mp entriesDescending).1 other member).le
      have tail : ∀ head others, entries = head :: others →
          Descending (others :: rest) := by
        rintro head others rfl other member
        rcases List.mem_cons.mp member with rfl | member
        · exact (List.pairwise_cons.mp entriesDescending).2
        · exact restDescending other member
      unfold takeNewest at taken
      cases found : takeNewest rest with
      | none =>
          have restEmpty := takeNewest_none found
          cases entries with
          | nil => simp [found] at taken
          | cons head others =>
              simp only [found, Option.some.injEq, Prod.mk.injEq] at taken
              obtain ⟨rfl, rfl⟩ := taken
              refine ⟨by simp, tail head others rfl, fun other member => ?_⟩
              rw [List.flatten_cons, restEmpty, List.append_nil] at member
              exact headNewest head others rfl other member
      | some best =>
          obtain ⟨newest, others⟩ := best
          obtain ⟨permutation, othersDescending, restNewest⟩ := inductionHypothesis restDescending found
          cases entries with
          | nil =>
              simp only [found, Option.some.injEq, Prod.mk.injEq] at taken
              obtain ⟨rfl, rfl⟩ := taken
              refine ⟨by simpa using permutation, ?_, by simpa using restNewest⟩
              rintro other member
              rcases List.mem_cons.mp member with rfl | member
              · exact List.Pairwise.nil
              · exact othersDescending other member
          | cons head older =>
              simp only [found] at taken
              split at taken
              · rename_i before
                simp only [Option.some.injEq, Prod.mk.injEq] at taken
                obtain ⟨rfl, rfl⟩ := taken
                refine ⟨by simp, tail head older rfl, fun other member => ?_⟩
                rcases List.mem_append.mp member with own | elsewhere
                · exact headNewest head older rfl other own
                · exact (restNewest other elsewhere).trans before.le
              · rename_i after
                simp only [Option.some.injEq, Prod.mk.injEq] at taken
                obtain ⟨rfl, rfl⟩ := taken
                refine ⟨?_, ?_, fun other member => ?_⟩
                · simp only [List.flatten_cons]
                  exact (permutation.append_left _).trans List.perm_middle
                · rintro other member
                  rcases List.mem_cons.mp member with rfl | member
                  · exact entriesDescending
                  · exact othersDescending other member
                · rcases List.mem_append.mp member with own | elsewhere
                  · exact (headNewest head older rfl other own).trans (by omega)
                  · exact restNewest other elsewhere

/-! ### The loop -/

theorem overlappingLoop_mem {generation start stop fuel : Nat} {indexes : List (List Record)}
    {previous : Option Nat} {missing : List (Nat × Nat)} (descending : Descending indexes)
    {record : Record}
    (selected : record ∈ overlappingLoop generation start stop fuel indexes previous missing) :
    record ∈ indexes.flatten ∧ record.generation ≤ generation := by
  induction fuel generalizing indexes previous missing with
  | zero => cases selected
  | succ fuel inductionHypothesis =>
      unfold overlappingLoop at selected
      split at selected
      · cases selected
      · rename_i newest remaining taken
        obtain ⟨permutation, rest, -⟩ := takeNewest_some descending taken
        have older : ∀ previous missing,
            record ∈ overlappingLoop generation start stop fuel remaining previous missing →
              record ∈ indexes.flatten ∧ record.generation ≤ generation := by
          intro previous missing member
          obtain ⟨remains, old⟩ := inductionHypothesis rest member
          exact ⟨permutation.mem_iff.mpr (List.mem_cons_of_mem newest remains), old⟩
        split at selected
        · exact older _ _ selected
        · split at selected
          · exact older _ _ selected
          · rename_i eligible
            push Not at eligible
            dsimp only at selected
            split at selected
            · rcases List.mem_cons.mp selected with rfl | selected
              · exact ⟨permutation.mem_iff.mpr (by simp), eligible.1⟩
              · split at selected
                · cases selected
                · exact older _ _ selected
            · split at selected
              · cases selected
              · exact older _ _ selected

/-- Only candidates that cover the position matter. -/
theorem selectsNewest_congr {selected : List Record} {first second : Record → Prop} {position : Nat}
    (agree : ∀ record, record.Covers position → (first record ↔ second record)) :
    SelectsNewest selected first position ↔ SelectsNewest selected second position := by
  unfold SelectsNewest
  split
  · rename_i record found
    constructor
    · rintro ⟨candidate, covers, newest⟩
      exact ⟨(agree record covers).mp candidate, covers, fun other isSecond isCovering =>
        newest other ((agree other isCovering).mpr isSecond) isCovering⟩
    · rintro ⟨candidate, covers, newest⟩
      exact ⟨(agree record covers).mpr candidate, covers, fun other isFirst isCovering =>
        newest other ((agree other isCovering).mp isFirst) isCovering⟩
  · exact ⟨fun none other isSecond covers => none other ((agree other covers).mpr isSecond) covers,
      fun none other isFirst covers => none other ((agree other covers).mp isFirst) covers⟩

/-- The loop keeps, at every position still missing, the newest covering record
of the iterators first. -/
theorem overlappingLoop_selects {generation start stop : Nat} (fuel : Nat)
    {indexes : List (List Record)} {previous : Option Nat} {missing : List (Nat × Nat)}
    (enough : indexes.flatten.length < fuel) (descending : Descending indexes)
    (determined : ∀ first ∈ indexes.flatten, ∀ second ∈ indexes.flatten,
      first.sequence = second.sequence → first = second)
    (visited : ∀ record ∈ indexes.flatten, previous = some record.sequence →
      ∀ position, InGaps missing position → start ≤ position → position < stop →
        ¬ (record.generation ≤ generation ∧ record.Covers position))
    {position : Nat} (inGap : InGaps missing position) (after : start ≤ position)
    (before : position < stop) :
    SelectsNewest (overlappingLoop generation start stop fuel indexes previous missing)
      (fun record => record ∈ indexes.flatten ∧ record.generation ≤ generation) position := by
  induction fuel generalizing indexes previous missing with
  | zero => omega
  | succ fuel inductionHypothesis =>
      unfold overlappingLoop
      split
      · rename_i taken
        have empty := takeNewest_none taken
        simp [SelectsNewest, empty]
      · rename_i newest remaining taken
        obtain ⟨permutation, restDescending, isNewest⟩ := takeNewest_some descending taken
        have members : ∀ record, record ∈ indexes.flatten ↔
            record = newest ∨ record ∈ remaining.flatten := fun record =>
          permutation.mem_iff.trans List.mem_cons
        have restEnough : remaining.flatten.length < fuel := by
          have := permutation.length_eq
          rw [List.length_cons] at this
          omega
        have restDetermined : ∀ first ∈ remaining.flatten, ∀ second ∈ remaining.flatten,
            first.sequence = second.sequence → first = second := fun first firstMem second secondMem =>
          determined first ((members first).mpr (Or.inr firstMem)) second
            ((members second).mpr (Or.inr secondMem))
        -- A record that does not matter at the position may be left out.
        have skip : ∀ selected, ¬ (newest.generation ≤ generation ∧ newest.Covers position) →
            SelectsNewest selected (fun record =>
              record ∈ remaining.flatten ∧ record.generation ≤ generation) position →
            SelectsNewest selected (fun record =>
              record ∈ indexes.flatten ∧ record.generation ≤ generation) position := by
          intro selected irrelevant selects
          refine (selectsNewest_congr fun record covers => ?_).mp selects
          rw [members]
          constructor
          · rintro ⟨member, old⟩
            exact ⟨Or.inr member, old⟩
          · rintro ⟨rfl | member, old⟩
            · exact absurd ⟨old, covers⟩ irrelevant
            · exact ⟨member, old⟩
        have newestMem : newest ∈ indexes.flatten := (members newest).mpr (Or.inl rfl)
        split
        · rename_i duplicate
          refine skip _ (visited newest newestMem duplicate position inGap after before) ?_
          exact inductionHypothesis restEnough restDescending restDetermined
            (fun record member => visited record ((members record).mpr (Or.inr member))) inGap
        · have revisited : ∀ record ∈ remaining.flatten,
              some newest.sequence = some record.sequence → record = newest := by
            intro record member same
            exact determined record ((members record).mpr (Or.inr member)) newest newestMem
              (Option.some.inj same).symm
          split
          · rename_i outside
            have irrelevant : ∀ position, start ≤ position → position < stop →
                ¬ (newest.generation ≤ generation ∧ newest.Covers position) := by
              rintro position after before ⟨old, covers⟩
              unfold Record.Covers at covers
              omega
            refine skip _ (irrelevant position after before) ?_
            refine inductionHypothesis restEnough restDescending restDetermined ?_ inGap
            intro record member same position _ after before
            rw [revisited record member same]
            exact irrelevant position after before
          · rename_i eligible
            push Not at eligible
            dsimp only
            by_cases covers : newest.Covers position
            · -- The newest record covers the position, so it is selected here.
              rw [if_pos (needed_of_inGaps inGap covers), SelectsNewest,
                List.find?_cons_of_pos (by simpa using covers)]
              exact ⟨⟨newestMem, eligible.1⟩, covers, fun other candidate _ =>
                isNewest other candidate.1⟩
            · have stillMissing : InGaps (missing.flatMap (cutGap newest.start newest.stop)) position :=
                (inGaps_flatMap_cutGap ..).mpr ⟨inGap, covers⟩
              have nonempty : (missing.flatMap (cutGap newest.start newest.stop)).isEmpty = false := by
                cases cut : missing.flatMap (cutGap newest.start newest.stop) with
                | nil => exact absurd (cut ▸ stillMissing) (inGaps_nil position)
                | cons => rfl
              have rest : SelectsNewest (overlappingLoop generation start stop fuel remaining
                  (some newest.sequence) (missing.flatMap (cutGap newest.start newest.stop)))
                  (fun record => record ∈ indexes.flatten ∧ record.generation ≤ generation)
                  position := by
                refine skip _ (fun relevant => covers relevant.2) ?_
                refine inductionHypothesis restEnough restDescending restDetermined ?_ stillMissing
                intro record member same other inCut _ _ relevant
                rw [revisited record member same] at relevant
                exact ((inGaps_flatMap_cutGap ..).mp inCut).2 relevant.2
              rw [nonempty]
              simp only [Bool.false_eq_true, if_false]
              split
              · rw [SelectsNewest, List.find?_cons_of_neg (by simpa using covers)]
                exact rest
              · exact rest

/-! ### Block iterators -/

variable {index : Index} {log : List Record}

theorem mem_touchedBlocks {start stop block : Nat} :
    block ∈ touchedBlocks start stop ↔ start / blockBytes ≤ block ∧ block < divCeil stop blockBytes := by
  rw [touchedBlocks, List.mem_range'_1]
  omega

/-- The block of a covered position is touched. -/
theorem div_mem_touchedBlocks {start stop position : Nat} (after : start ≤ position)
    (before : position < stop) : position / blockBytes ∈ touchedBlocks start stop := by
  rw [mem_touchedBlocks]
  refine ⟨Nat.div_le_div_right after, ?_⟩
  unfold divCeil
  have positive : 0 < blockBytes := by decide
  rw [Nat.div_lt_iff_lt_mul positive]
  have := Nat.lt_div_mul_add (a := stop + blockBytes - 1) positive
  omega

theorem entriesAt_get (represents : Represents index log) {block sequence : Nat} {record : Record} :
    (entriesAt index.blocks block)[sequence]? = some record ↔
      Live log record ∧ record.sequence = sequence ∧ block ∈ record.blocks := by
  rw [represents.blocks, Option.filter_eq_some_iff, represents.records]
  simp only [decide_eq_true_eq, and_assoc]

theorem mem_iterators (represents : Represents index log) {start stop : Nat} {record : Record} :
    record ∈ (index.iterators start stop).flatten ↔
      Live log record ∧ ∃ block ∈ touchedBlocks start stop, block ∈ record.blocks := by
  simp only [iterators, List.mem_flatten, List.mem_filterMap, Option.map_eq_some_iff]
  constructor
  · rintro ⟨_, ⟨block, touched, entries, found, rfl⟩, member⟩
    rw [List.mem_reverse, mem_values] at member
    obtain ⟨sequence, filed⟩ := member
    have isEntries : entriesAt index.blocks block = entries := by simp [entriesAt, found]
    rw [← isEntries, entriesAt_get represents] at filed
    exact ⟨filed.1, block, touched, filed.2.2⟩
  · rintro ⟨live, block, touched, isBlock⟩
    have filed := (entriesAt_get represents).mpr ⟨live, rfl, isBlock⟩
    cases found : index.blocks[block]? with
    | none => simp [entriesAt, found] at filed
    | some entries =>
        refine ⟨_, ⟨block, touched, entries, found, rfl⟩, ?_⟩
        rw [List.mem_reverse, mem_values]
        exact ⟨record.sequence, by simpa [entriesAt, found] using filed⟩

theorem iterators_descending (represents : Represents index log) (start stop : Nat) :
    Descending (index.iterators start stop) := by
  intro entries member
  obtain ⟨block, -, found⟩ := List.mem_filterMap.mp member
  obtain ⟨filed, isBlock, rfl⟩ := Option.map_eq_some_iff.mp found
  rw [List.pairwise_reverse]
  refine values_pairwise fun sequence record isFiled => ?_
  have isEntries : entriesAt index.blocks block = filed := by simp [entriesAt, isBlock]
  rw [← isEntries, entriesAt_get represents] at isFiled
  exact isFiled.2.1

theorem overlapping_mem (represents : Represents index log) {generation start stop : Nat}
    {record : Record} (selected : record ∈ index.overlapping generation start stop) :
    record ∈ log ∧ record.generation ≤ generation := by
  obtain ⟨member, old⟩ := overlappingLoop_mem (iterators_descending represents start stop) selected
  exact ⟨((mem_iterators represents).mp member).1.1, old⟩

/-- A superseded record gives way to the live one of its range, which the
iterators hold. -/
theorem exists_iterated (represents : Represents index log) (ascending : Ascending log)
    {start stop position : Nat} (after : start ≤ position) (before : position < stop)
    {other : Record} (member : other ∈ log) (covers : other.Covers position) :
    ∃ current ∈ (index.iterators start stop).flatten, current.generation = other.generation ∧
      current.Covers position ∧ other.sequence ≤ current.sequence := by
  obtain ⟨current, live, same, newer⟩ := exists_live ascending member
  simp only [Record.range, Prod.mk.injEq] at same
  obtain ⟨sameGeneration, sameStart, sameStop⟩ := same
  have currentCovers : current.Covers position := by
    rw [Record.Covers, sameStart, sameStop]
    exact covers
  have touched : position / blockBytes ∈ current.blocks :=
    div_mem_touchedBlocks currentCovers.1 currentCovers.2
  have inRange := div_mem_touchedBlocks after before
  exact ⟨current, (mem_iterators represents).mpr ⟨live, _, inRange, touched⟩, sameGeneration,
    currentCovers, newer⟩

/-- A whole merge selects the newest covering record of the iterators first. -/
theorem merge_selects {indexes : List (List Record)} (descending : Descending indexes)
    (determined : ∀ first ∈ indexes.flatten, ∀ second ∈ indexes.flatten,
      first.sequence = second.sequence → first = second)
    (generation : Nat) {start stop position : Nat} (after : start ≤ position)
    (before : position < stop) :
    SelectsNewest (overlappingLoop generation start stop ((indexes.map List.length).sum + 1)
        indexes none [(start, stop)])
      (fun record => record ∈ indexes.flatten ∧ record.generation ≤ generation) position := by
  refine overlappingLoop_selects _ ?_ descending determined ?_ ?_ after before
  · rw [List.length_flatten]
    exact Nat.lt_succ_self _
  · intro record _ impossible
    cases impossible
  · exact (inGaps_singleton ..).mpr ⟨after, before⟩

theorem iterators_determined (represents : Represents index log) (ascending : Ascending log)
    (start stop : Nat) : ∀ first ∈ (index.iterators start stop).flatten,
      ∀ second ∈ (index.iterators start stop).flatten,
        first.sequence = second.sequence → first = second := fun _ firstMem _ secondMem =>
  ascending.eq_of_sequence ((mem_iterators represents).mp firstMem).1.1
    ((mem_iterators represents).mp secondMem).1.1

/-- The newest of the iterators is the newest of the log. -/
theorem selects_log (represents : Represents index log) (ascending : Ascending log)
    {generation start stop position : Nat} (after : start ≤ position) (before : position < stop)
    {selected : List Record} (selects : SelectsNewest selected (fun record =>
      record ∈ (index.iterators start stop).flatten ∧ record.generation ≤ generation) position) :
    SelectsNewest selected (fun record => record ∈ log ∧ record.generation ≤ generation) position := by
  unfold SelectsNewest at selects ⊢
  split at selects
  · rename_i record found
    obtain ⟨⟨member, old⟩, covers, newest⟩ := selects
    refine ⟨⟨((mem_iterators represents).mp member).1.1, old⟩, covers, ?_⟩
    rintro other ⟨otherMem, otherOld⟩ otherCovers
    obtain ⟨current, currentMem, sameGeneration, currentCovers, newer⟩ :=
      exists_iterated represents ascending after before otherMem otherCovers
    exact newer.trans (newest current ⟨currentMem, sameGeneration ▸ otherOld⟩ currentCovers)
  · rename_i found
    rintro other ⟨otherMem, otherOld⟩ otherCovers
    obtain ⟨current, currentMem, sameGeneration, currentCovers, -⟩ :=
      exists_iterated represents ascending after before otherMem otherCovers
    exact selects current ⟨currentMem, sameGeneration ▸ otherOld⟩ currentCovers

theorem overlapping_eq (generation start stop : Nat) :
    index.overlapping generation start stop =
      overlappingLoop generation start stop (((index.iterators start stop).map List.length).sum + 1)
        (index.iterators start stop) none [(start, stop)] := rfl

/-- The first selected record at a position is the newest of the log. -/
theorem overlapping_selects (represents : Represents index log) (ascending : Ascending log)
    {generation start stop position : Nat} (after : start ≤ position) (before : position < stop) :
    SelectsNewest (index.overlapping generation start stop)
      (fun record => record ∈ log ∧ record.generation ≤ generation) position := by
  have merged := merge_selects (iterators_descending represents start stop)
    (iterators_determined represents ascending start stop) generation after before
  rw [← overlapping_eq] at merged
  exact selects_log represents ascending after before merged

end Index

end Cairn.Storage.Lazy

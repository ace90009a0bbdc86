import Cairn.Storage.Lazy.Index
import Mathlib.Data.List.Induction

/-!
Owns the meaning of an index: which list of appended records it stands for.
`insert` extends the list and `retire` filters it, so the index after any run
is the one a replay of the surviving records builds.
-/

set_option autoImplicit false

namespace Cairn.Storage.Lazy

open Std (ExtTreeMap)
open Cairn.Library.OrderedMaps

namespace Record

/-- The key of `latest`. -/
def range (record : Record) : Nat × Nat × Nat := (record.generation, record.start, record.stop)

/-- The payload length. -/
def length (record : Record) : Nat := record.stop - record.start

/-- The range of the record covers a position. -/
def Covers (record : Record) (position : Nat) : Prop :=
  record.start ≤ position ∧ position < record.stop

instance (record : Record) (position : Nat) : Decidable (record.Covers position) := by
  unfold Covers
  infer_instance

theorem blocks_of_range {first second : Record} (same : first.range = second.range) :
    first.blocks = second.blocks := by
  simp only [range, Prod.mk.injEq] at same
  rw [blocks, blocks, same.2.1, same.2.2]

end Record

/-! ### Live records -/

/-- A later record has the same range. -/
def Superseded (log : List Record) (record : Record) : Prop :=
  ∃ later ∈ log, later.range = record.range ∧ record.sequence < later.sequence

/-- The newest record of its range. -/
def Live (log : List Record) (record : Record) : Prop :=
  record ∈ log ∧ ¬ Superseded log record

/-- Appended in the order of the sequence numbers. -/
def Ascending (log : List Record) : Prop :=
  log.Pairwise fun first second => first.sequence < second.sequence

theorem Ascending.eq_of_sequence {log : List Record} (ascending : Ascending log)
    {first second : Record} (firstMem : first ∈ log) (secondMem : second ∈ log)
    (same : first.sequence = second.sequence) : first = second := by
  have distinct : (log.map Record.sequence).Nodup :=
    List.pairwise_map.mpr (ascending.imp fun before => Nat.ne_of_lt before)
  exact List.inj_on_of_nodup_map distinct firstMem secondMem same

theorem ascending_concat {log : List Record} {record : Record} :
    Ascending (log ++ [record]) ↔
      Ascending log ∧ ∀ old ∈ log, old.sequence < record.sequence := by
  simp [Ascending, List.pairwise_append]

theorem Ascending.filter {log : List Record} (ascending : Ascending log) (keep : Record → Bool) :
    Ascending (log.filter keep) :=
  List.Pairwise.filter keep ascending

/-- Appending a record supersedes the live record of its range. -/
theorem live_concat {log : List Record} {record : Record}
    (newest : ∀ old ∈ log, old.sequence < record.sequence) (candidate : Record) :
    Live (log ++ [record]) candidate ↔
      candidate = record ∨ (Live log candidate ∧ candidate.range ≠ record.range) := by
  constructor
  · rintro ⟨member, current⟩
    rcases List.mem_append.mp member with old | new
    · refine Or.inr ⟨⟨old, fun superseded => current ?_⟩, fun same => current ?_⟩
      · obtain ⟨later, laterMem, rest⟩ := superseded
        exact ⟨later, List.mem_append_left _ laterMem, rest⟩
      · exact ⟨record, by simp, same.symm, newest candidate old⟩
    · exact Or.inl (List.mem_singleton.mp new)
  · rintro (rfl | ⟨⟨old, current⟩, different⟩)
    · refine ⟨by simp, ?_⟩
      rintro ⟨later, laterMem, -, after⟩
      rcases List.mem_append.mp laterMem with old | new
      · exact absurd (newest later old) (by omega)
      · rw [List.mem_singleton.mp new] at after
        omega
    · refine ⟨List.mem_append_left _ old, ?_⟩
      rintro ⟨later, laterMem, same, after⟩
      rcases List.mem_append.mp laterMem with oldLater | new
      · exact current ⟨later, oldLater, same, after⟩
      · rw [List.mem_singleton.mp new] at same
        exact different same.symm

/-- Supersession stays within a generation, so it survives a cutoff. -/
theorem live_filter {log : List Record} (generation : Nat) (candidate : Record) :
    Live (log.filter fun record => generation < record.generation) candidate ↔
      Live log candidate ∧ generation < candidate.generation := by
  have sameGeneration : ∀ later : Record, later.range = candidate.range →
      later.generation = candidate.generation := by
    intro later same
    simp only [Record.range, Prod.mk.injEq] at same
    exact same.1
  constructor
  · rintro ⟨member, current⟩
    obtain ⟨old, kept⟩ := List.mem_filter.mp member
    simp only [decide_eq_true_eq] at kept
    refine ⟨⟨old, ?_⟩, kept⟩
    rintro ⟨later, laterMem, same, after⟩
    refine current ⟨later, List.mem_filter.mpr ⟨laterMem, ?_⟩, same, after⟩
    simpa [sameGeneration later same] using kept
  · rintro ⟨⟨old, current⟩, kept⟩
    refine ⟨List.mem_filter.mpr ⟨old, by simpa using kept⟩, ?_⟩
    rintro ⟨later, laterMem, same, after⟩
    exact current ⟨later, List.mem_of_mem_filter laterMem, same, after⟩

/-- Every record has a live one of the same range that is at least as new. -/
theorem exists_live {log : List Record} (ascending : Ascending log) {record : Record}
    (member : record ∈ log) :
    ∃ current, Live log current ∧ current.range = record.range ∧
      record.sequence ≤ current.sequence := by
  induction log using List.reverseRecOn with
  | nil => cases member
  | append_singleton log last inductionHypothesis =>
      obtain ⟨ascending, newest⟩ := ascending_concat.mp ascending
      rcases List.mem_append.mp member with old | new
      · obtain ⟨current, live, same, after⟩ := inductionHypothesis ascending old
        by_cases replaced : current.range = last.range
        · refine ⟨last, (live_concat newest last).mpr (Or.inl rfl), replaced.symm.trans same, ?_⟩
          exact after.trans (newest current live.1).le
        · exact ⟨current, (live_concat newest current).mpr (Or.inr ⟨live, replaced⟩), same, after⟩
      · rw [List.mem_singleton.mp new]
        exact ⟨last, (live_concat newest last).mpr (Or.inl rfl), rfl, le_rfl⟩

/-! ### Representation -/

/-- The epoch of a generation: its bytes and its oldest write. -/
def epochOf (log : List Record) (generation : Nat) : Option (Nat × Nat) :=
  let epoch := log.filter fun record => record.generation = generation
  (epoch.map Record.writtenAt).min?.map fun oldest => ((epoch.map Record.length).sum, oldest)

/-- The index stands for the appended records. -/
structure Represents (index : Index) (log : List Record) : Prop where
  records : ∀ (sequence : Nat) record, index.records[sequence]? = some record ↔
    Live log record ∧ record.sequence = sequence
  blocks : ∀ block sequence : Nat, (entriesAt index.blocks block)[sequence]? =
    index.records[sequence]?.filter fun record : Record => block ∈ record.blocks
  occupied : ∀ block : Nat, index.blocks[block]? ≠ some ∅
  latest : ∀ range sequence, index.latest range = some sequence ↔
    ∃ record, Live log record ∧ record.range = range ∧ record.sequence = sequence
  epochs : ∀ generation : Nat, index.epochs[generation]? = epochOf log generation
  dirtyBytes : index.dirtyBytes = (log.map Record.length).sum
  dirtySince : index.dirtySince = (log.map Record.writtenAt).min?

theorem Represents.empty : Represents {} [] := by
  constructor <;> simp [Live, epochOf, entriesAt]

/-! ### `insert` -/

namespace Index

variable (index : Index) (record : Record)

theorem touchedBlocks_nodup (start stop : Nat) : (touchedBlocks start stop).Nodup :=
  List.nodup_range' 1

theorem insert_latest (range : Nat × Nat × Nat) :
    (index.insert record).latest range =
      if range = record.range then some record.sequence else index.latest range := by
  have kept : ((index.account record).supersede record).latest = index.latest := by
    unfold supersede
    split <;> rfl
  simp only [insert, file, kept]
  by_cases same : range = record.range
  · rw [if_pos same, same]
    exact Function.update_self ..
  · rw [if_neg same]
    exact Function.update_of_ne same ..

theorem insert_records (sequence : Nat) :
    (index.insert record).records[sequence]? =
      if record.sequence = sequence then some record
      else if index.latest record.range = some sequence then none
      else index.records[sequence]? := by
  simp only [insert, file, getElem?_insert]
  congr 1
  unfold supersede
  split
  · rename_i absent
    have absent : index.latest record.range = none := absent
    simp [absent, account]
  · rename_i previous found
    have found : index.latest record.range = some previous := found
    simp [found, account, getElem?_erase]

/-- The entries of a block without the superseded one. -/
def remaining (entries : ExtTreeMap Nat Record) : ExtTreeMap Nat Record :=
  (index.latest record.range).elim entries fun previous => entries.erase previous

theorem supersede_blocks (block : Nat) :
    ((index.account record).supersede record).blocks[block]? =
      if block ∈ record.blocks then index.blocks[block]?.map (index.remaining record)
      else index.blocks[block]? := by
  have distinct : record.blocks.Nodup := touchedBlocks_nodup ..
  unfold supersede
  split
  · rename_i absent
    have unchanged : index.remaining record = id := by
      have absent : index.latest record.range = none := absent
      funext entries
      simp [remaining, absent]
    simp [unchanged, account]
  · rename_i previous found
    have erased : index.remaining record = fun entries => entries.erase previous := by
      have found : index.latest record.range = some previous := found
      funext entries
      simp [remaining, found]
    have superseded := getElem?_foldl
      (Option.map fun entries : ExtTreeMap Nat Record => entries.erase previous)
      (fun (map : ExtTreeMap Nat (ExtTreeMap Nat Record)) key other => getElem?_modify ..)
      distinct index.blocks block
    rw [erased]
    exact superseded

theorem remaining_entriesAt (block : Nat) :
    (index.blocks[block]?.map (index.remaining record)).getD ∅ =
      index.remaining record (entriesAt index.blocks block) := by
  unfold entriesAt remaining
  cases index.blocks[block]? with
  | none =>
      cases index.latest record.range with
      | none => rfl
      | some previous =>
          refine ExtTreeMap.ext_getElem? fun key => ?_
          simp
  | some entries => rfl

theorem insert_blocks (block : Nat) :
    (index.insert record).blocks[block]? =
      if block ∈ record.blocks then
        some ((index.remaining record (entriesAt index.blocks block)).insert record.sequence record)
      else index.blocks[block]? := by
  have distinct : record.blocks.Nodup := touchedBlocks_nodup ..
  have filed := getElem?_foldl (fun entries : Option (ExtTreeMap Nat Record) =>
      some ((entries.getD ∅).insert record.sequence record))
    (fun map key other => getElem?_insert ..) distinct
    ((index.account record).supersede record).blocks block
  have unfolded : (index.insert record).blocks = record.blocks.foldl (fun blocks block =>
      blocks.insert block ((entriesAt blocks block).insert record.sequence record))
      ((index.account record).supersede record).blocks := rfl
  rw [unfolded, ← index.remaining_entriesAt record block]
  refine filed.trans ?_
  rw [supersede_blocks]
  by_cases touched : block ∈ record.blocks
  · rw [if_pos touched, if_pos touched, if_pos touched]
  · rw [if_neg touched, if_neg touched, if_neg touched]

theorem insert_epochs (generation : Nat) :
    (index.insert record).epochs[generation]? =
      if record.generation = generation then
        some (((index.epochs[generation]?.getD (0, record.writtenAt)).1 + record.length),
          min (index.epochs[generation]?.getD (0, record.writtenAt)).2 record.writtenAt)
      else index.epochs[generation]? := by
  have kept : ((index.account record).supersede record).epochs = (index.account record).epochs := by
    unfold supersede
    split <;> rfl
  have unfolded : (index.insert record).epochs = (index.account record).epochs := kept
  rw [unfolded, account, getElem?_insert]
  split
  · rename_i same
    rw [same]
    rfl
  · rfl

theorem insert_dirtyBytes :
    (index.insert record).dirtyBytes = index.dirtyBytes + record.length := by
  simp only [insert, file]
  unfold supersede
  split <;> rfl

theorem insert_dirtySince :
    (index.insert record).dirtySince =
      some (index.dirtySince.elim record.writtenAt fun at_ => min at_ record.writtenAt) := by
  simp only [insert, file]
  unfold supersede
  split <;> rfl

end Index

private theorem min?_concat (values : List Nat) (last : Nat) :
    (values ++ [last]).min? = some (values.min?.elim last fun least => min least last) := by
  cases values with
  | nil => rfl
  | cons head rest =>
      simp only [List.cons_append, List.min?_cons', List.foldl_append, List.foldl_cons,
        List.foldl_nil, Option.elim_some]

theorem epochOf_concat (log : List Record) (record : Record) (generation : Nat) :
    epochOf (log ++ [record]) generation =
      if record.generation = generation then
        some (((epochOf log generation).getD (0, record.writtenAt)).1 + record.length,
          min ((epochOf log generation).getD (0, record.writtenAt)).2 record.writtenAt)
      else epochOf log generation := by
  by_cases same : record.generation = generation
  · simp only [epochOf, List.filter_append, same, if_true]
    have single : [record].filter (fun record => record.generation = generation) = [record] := by
      simp [same]
    simp only [single, List.map_append, List.map_singleton, min?_concat, List.sum_append]
    cases oldest : ((log.filter fun record => record.generation = generation).map
        Record.writtenAt).min? with
    | none =>
        rw [List.min?_eq_none_iff, List.map_eq_nil_iff] at oldest
        simp [oldest]
    | some least => simp
  · have single : [record].filter (fun record => record.generation = generation) = [] := by
      simp [same]
    simp only [epochOf, List.filter_append, single, List.append_nil, same, if_false]

theorem Represents.insert {index : Index} {log : List Record} {record : Record}
    (represents : Represents index log) (ascending : Ascending (log ++ [record])) :
    Represents (index.insert record) (log ++ [record]) := by
  obtain ⟨ascending, newest⟩ := ascending_concat.mp ascending
  have absent : index.records[record.sequence]? = none := by
    cases found : index.records[record.sequence]? with
    | none => rfl
    | some old =>
        obtain ⟨live, same⟩ := (represents.records _ old).mp found
        have := newest old live.1
        omega
  -- The live record that `latest` names is the one superseded.
  have superseding : ∀ candidate, Live log candidate →
      (index.latest record.range = some candidate.sequence ↔ candidate.range = record.range) := by
    intro candidate live
    rw [represents.latest]
    constructor
    · rintro ⟨other, otherLive, sameRange, sameSequence⟩
      rw [← ascending.eq_of_sequence otherLive.1 live.1 sameSequence, sameRange]
    · exact fun same => ⟨candidate, live, same, rfl⟩
  constructor
  · intro sequence candidate
    rw [Index.insert_records, live_concat newest]
    by_cases isNew : record.sequence = sequence
    · rw [if_pos isNew, Option.some.injEq]
      constructor
      · rintro rfl
        exact ⟨Or.inl rfl, isNew⟩
      · rintro ⟨rfl | ⟨live, -⟩, same⟩
        · rfl
        · have := newest candidate live.1
          omega
    · rw [if_neg isNew]
      constructor
      · intro found
        split at found
        · cases found
        · rename_i current
          obtain ⟨live, rfl⟩ := (represents.records sequence candidate).mp found
          exact ⟨Or.inr ⟨live, fun same => current ((superseding candidate live).mpr same)⟩, rfl⟩
      · rintro ⟨rfl | ⟨live, different⟩, rfl⟩
        · exact absurd rfl isNew
        · rw [if_neg fun found => different ((superseding candidate live).mp found)]
          exact (represents.records _ candidate).mpr ⟨live, rfl⟩
  · intro block sequence
    rw [Index.insert_records]
    have old := represents.blocks block
    by_cases touched : block ∈ record.blocks
    · have filed : entriesAt (index.insert record).blocks block =
          (index.remaining record (entriesAt index.blocks block)).insert record.sequence record := by
        rw [entriesAt, Index.insert_blocks, if_pos touched, Option.getD_some]
      rw [filed, getElem?_insert]
      by_cases isNew : record.sequence = sequence
      · rw [if_pos isNew, if_pos isNew, Option.filter_some_pos (by simpa using touched)]
      · simp only [isNew, if_false]
        unfold Index.remaining
        cases found : index.latest record.range with
        | none => simpa using old sequence
        | some previous =>
            simp only [Option.elim_some, getElem?_erase, Option.some.injEq]
            split
            · rfl
            · exact old sequence
    · have kept : entriesAt (index.insert record).blocks block = entriesAt index.blocks block := by
        rw [entriesAt, Index.insert_blocks, if_neg touched, entriesAt]
      rw [kept, old]
      by_cases isNew : record.sequence = sequence
      · subst sequence
        rw [absent, if_pos rfl, Option.filter_some_neg (by simpa using touched)]
        rfl
      · simp only [isNew, if_false]
        split
        · rename_i found
          obtain ⟨candidate, live, same, rfl⟩ := (represents.latest _ _).mp found
          rw [(represents.records _ candidate).mpr ⟨live, rfl⟩]
          simp [Record.blocks_of_range same, touched]
        · rfl
  · intro block occupied
    rw [Index.insert_blocks] at occupied
    split at occupied
    · have := congrArg (fun entries : ExtTreeMap Nat Record => entries[record.sequence]?)
        (Option.some.inj occupied)
      simp at this
    · exact represents.occupied block occupied
  · intro range sequence
    rw [Index.insert_latest]
    simp only [live_concat newest]
    by_cases same : range = record.range
    · subst range
      rw [if_pos rfl, Option.some.injEq]
      constructor
      · rintro rfl
        exact ⟨record, Or.inl rfl, rfl, rfl⟩
      · rintro ⟨candidate, rfl | ⟨-, different⟩, sameRange, rfl⟩
        · rfl
        · exact absurd sameRange different
    · rw [if_neg same, represents.latest]
      constructor
      · rintro ⟨candidate, live, rfl, rfl⟩
        exact ⟨candidate, Or.inr ⟨live, same⟩, rfl, rfl⟩
      · rintro ⟨candidate, rfl | ⟨live, -⟩, rfl, rfl⟩
        · exact absurd rfl same
        · exact ⟨candidate, live, rfl, rfl⟩
  · intro generation
    rw [Index.insert_epochs, epochOf_concat, represents.epochs]
  · rw [Index.insert_dirtyBytes, represents.dirtyBytes]
    simp
  · rw [Index.insert_dirtySince, represents.dirtySince, List.map_append, List.map_singleton,
      min?_concat]

/-- The index a scan builds stands for the scanned records. -/
theorem represents_insertAll {log : List Record} (ascending : Ascending log) :
    Represents (({} : Index).insertAll log) log := by
  induction log using List.reverseRecOn with
  | nil => exact .empty
  | append_singleton log last inductionHypothesis =>
      rw [Index.insertAll, List.foldl_append]
      exact (inductionHypothesis (ascending_concat.mp ascending).1).insert ascending

/-! ### `retire` -/

theorem epochOf_eq_some {log : List Record} {generation : Nat} {epoch : Nat × Nat} :
    epochOf log generation = some epoch ↔
      ((log.filter fun record => record.generation = generation).map Record.length).sum = epoch.1 ∧
      ((log.filter fun record => record.generation = generation).map Record.writtenAt).min? =
        some epoch.2 := by
  unfold epochOf
  simp only [Option.map_eq_some_iff]
  constructor
  · rintro ⟨oldest, found, rfl⟩
    exact ⟨rfl, found⟩
  · rintro ⟨total, found⟩
    exact ⟨epoch.2, found, Prod.ext total rfl⟩

theorem exists_epochOf {log : List Record} {record : Record} (member : record ∈ log) :
    ∃ epoch, epochOf log record.generation = some epoch := by
  have nonempty : record ∈ log.filter fun other => other.generation = record.generation :=
    List.mem_filter.mpr ⟨member, by simp⟩
  cases oldest : ((log.filter fun other => other.generation = record.generation).map
      Record.writtenAt).min? with
  | none =>
      rw [List.min?_eq_none_iff, List.map_eq_nil_iff] at oldest
      rw [oldest] at nonempty
      cases nonempty
  | some least => exact ⟨(_, least), epochOf_eq_some.mpr ⟨rfl, oldest⟩⟩

theorem epochOf_filter (log : List Record) (cutoff generation : Nat) :
    epochOf (log.filter fun record => cutoff < record.generation) generation =
      if cutoff < generation then epochOf log generation else none := by
  unfold epochOf
  rw [List.filter_filter]
  split
  · rename_i after
    rw [List.filter_congr fun record _ => ?_]
    by_cases same : record.generation = generation <;> simp [same, after]
  · rename_i before
    rw [List.filter_eq_nil_iff.mpr fun record _ => ?_]
    · rfl
    · by_cases same : record.generation = generation <;> simp [same, before]

/-- The byte total of the epochs is the byte total of all frames. -/
theorem epochs_total {epochs : ExtTreeMap Nat (Nat × Nat)} {log : List Record}
    (grouped : ∀ generation : Nat, epochs[generation]? = epochOf log generation) :
    ((values epochs).map Prod.fst).sum = (log.map Record.length).sum := by
  have keysDistinct : (epochs.toList.map Prod.fst).Nodup := by
    refine List.pairwise_map.mpr (ExtTreeMap.distinct_keys_toList.imp fun {first second} apart => ?_)
    simpa using apart
  have covered : ∀ record ∈ log, record.generation ∈ epochs.toList.map Prod.fst := by
    intro record member
    obtain ⟨epoch, found⟩ := exists_epochOf member
    rw [← grouped] at found
    exact List.mem_map.mpr ⟨(_, epoch), ExtTreeMap.mem_toList_iff_getElem?_eq_some.mpr found, rfl⟩
  rw [← sum_groups keysDistinct Record.generation Record.length log covered, values,
    List.map_map, List.map_map]
  refine congrArg List.sum (List.map_congr_left fun entry member => ?_)
  have found := ExtTreeMap.mem_toList_iff_getElem?_eq_some.mp member
  rw [grouped, epochOf_eq_some] at found
  exact found.1.symm

/-- The oldest write of the epochs is the oldest write of all frames. -/
theorem epochs_oldest {epochs : ExtTreeMap Nat (Nat × Nat)} {log : List Record}
    (grouped : ∀ generation : Nat, epochs[generation]? = epochOf log generation) :
    ((values epochs).map Prod.snd).min? = (log.map Record.writtenAt).min? := by
  refine min?_eq_min? ?_ ?_
  · intro oldest member
    obtain ⟨epoch, epochMem, rfl⟩ := List.mem_map.mp member
    obtain ⟨generation, found⟩ := mem_values.mp epochMem
    rw [grouped, epochOf_eq_some] at found
    obtain ⟨record, recordMem, same⟩ := List.mem_map.mp (List.min?_eq_some_iff.mp found.2).1
    exact ⟨record.writtenAt, List.mem_map_of_mem (List.mem_of_mem_filter recordMem), same.le⟩
  · intro written member
    obtain ⟨record, recordMem, rfl⟩ := List.mem_map.mp member
    obtain ⟨epoch, found⟩ := exists_epochOf recordMem
    have bound := (List.min?_eq_some_iff.mp (epochOf_eq_some.mp found).2).2 record.writtenAt
      (List.mem_map_of_mem (List.mem_filter.mpr ⟨recordMem, by simp⟩))
    rw [← grouped] at found
    exact ⟨epoch.2, List.mem_map_of_mem (mem_values.mpr ⟨_, found⟩), bound⟩

theorem Represents.retire {index : Index} {log : List Record} (represents : Represents index log)
    (generation : Nat) :
    Represents (index.retire generation)
      (log.filter fun record => generation < record.generation) := by
  have epochs : ∀ other : Nat, (index.retire generation).epochs[other]? =
      epochOf (log.filter fun record => generation < record.generation) other := by
    intro other
    simp only [Index.retire, ExtTreeMap.getElem?_filter', epochOf_filter, represents.epochs]
    split
    · rename_i after
      cases epochOf log other with
      | none => rfl
      | some epoch => exact Option.filter_some_pos (decide_eq_true after)
    · rename_i before
      exact Option.filter_eq_none_iff.mpr fun _ _ => by simpa using before
  constructor
  · intro sequence record
    simp only [Index.retire, ExtTreeMap.getElem?_filter', Option.filter_eq_some_iff,
      represents.records, live_filter, decide_eq_true_eq]
    tauto
  · intro block sequence
    have kept : entriesAt (index.retire generation).blocks block =
        (entriesAt index.blocks block).filter fun _ record => generation < record.generation := by
      simp only [entriesAt, Index.retire, ExtTreeMap.getElem?_filterMap']
      cases index.blocks[block]? with
      | none => exact ExtTreeMap.ext_getElem? fun key => by simp
      | some entries =>
          simp only [Option.bind_some, Option.getD_some]
          split
          · rename_i empty
            rw [ExtTreeMap.isEmpty_iff.mp empty]
            rfl
          · rfl
    rw [kept, ExtTreeMap.getElem?_filter', represents.blocks]
    simp only [Index.retire, ExtTreeMap.getElem?_filter', Option.filter_filter, Bool.and_comm]
  · intro block occupied
    simp only [Index.retire, ExtTreeMap.getElem?_filterMap'] at occupied
    obtain ⟨entries, -, found⟩ := Option.bind_eq_some_iff.mp occupied
    split at found
    · cases found
    · rename_i nonempty
      rw [Option.some.inj found] at nonempty
      exact nonempty (by simp)
  · intro range sequence
    have kept : (index.retire generation).latest range =
        if generation < range.1 then index.latest range else none := rfl
    simp only [kept, live_filter]
    split
    · rename_i after
      rw [represents.latest]
      constructor
      · rintro ⟨record, live, rfl, same⟩
        exact ⟨record, ⟨live, after⟩, rfl, same⟩
      · rintro ⟨record, ⟨live, -⟩, rest⟩
        exact ⟨record, live, rest⟩
    · rename_i before
      constructor
      · rintro ⟨⟩
      · rintro ⟨record, ⟨-, after⟩, rfl, -⟩
        exact absurd after before
  · exact epochs
  · exact epochs_total epochs
  · exact epochs_oldest epochs

/-! ### Replay -/

/-- An index is determined by the records it stands for. -/
theorem Represents.unique {first second : Index} {log : List Record}
    (firstRepresents : Represents first log) (secondRepresents : Represents second log) :
    first = second := by
  have records : first.records = second.records := by
    refine ExtTreeMap.ext_getElem? fun sequence => Option.ext fun record => ?_
    rw [firstRepresents.records, secondRepresents.records]
  have blocks : first.blocks = second.blocks := by
    have entries : ∀ block, entriesAt first.blocks block = entriesAt second.blocks block := by
      intro block
      refine ExtTreeMap.ext_getElem? fun sequence => ?_
      rw [firstRepresents.blocks, secondRepresents.blocks, records]
    refine ExtTreeMap.ext_getElem? fun block => ?_
    have same := entries block
    have firstOccupied := firstRepresents.occupied block
    have secondOccupied := secondRepresents.occupied block
    unfold entriesAt at same
    cases firstFound : first.blocks[block]? with
    | none =>
        cases secondFound : second.blocks[block]? with
        | none => rfl
        | some entries =>
            rw [firstFound, secondFound] at same
            exact absurd (secondFound.trans (congrArg some same.symm)) secondOccupied
    | some entries =>
        cases secondFound : second.blocks[block]? with
        | none =>
            rw [firstFound, secondFound] at same
            exact absurd (firstFound.trans (congrArg some same)) firstOccupied
        | some others =>
            rw [firstFound, secondFound] at same
            exact congrArg some same
  have latest : first.latest = second.latest := by
    funext range
    refine Option.ext fun sequence => ?_
    rw [firstRepresents.latest, secondRepresents.latest]
  have epochs : first.epochs = second.epochs := by
    refine ExtTreeMap.ext_getElem? fun generation => ?_
    rw [firstRepresents.epochs, secondRepresents.epochs]
  have dirtyBytes := firstRepresents.dirtyBytes.trans secondRepresents.dirtyBytes.symm
  have dirtySince := firstRepresents.dirtySince.trans secondRepresents.dirtySince.symm
  cases first
  cases second
  simp_all

end Cairn.Storage.Lazy

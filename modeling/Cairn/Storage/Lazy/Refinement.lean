import Cairn.Storage.Lazy.Recovery

/-!
Owns the invariant that ties a volume to its history: the log of the segments
in memory, the rows and files that persist it, and how far the two may be apart
after a failure. Everything that opens, appends to or publishes a volume is
proved against it.

Does not own the content of the disk, nor what is synced.
-/

set_option autoImplicit false

namespace Cairn.Storage.Lazy

universe u

/-- What happened to a volume, as far as it can still be seen. -/
structure History where
  /-- Frames of the generations whose publication reached the memory. -/
  retired : List Frame
  /-- The segments in memory. -/
  log : List SegmentLog
  /-- A durable descriptor that a failed append left without a segment. -/
  extra : List SegmentLog := []
  /-- What an interrupted write left behind the frames of a file. -/
  cuts : SegmentName → Bytes := fun _ => []

namespace History

/-- All frames, in append order. -/
def frames (history : History) : List Frame := history.retired ++ framesOf history.log

/-- The segments whose rows a publication has not deleted. -/
def rows (history : History) (cutoff : Nat) : List SegmentLog :=
  history.log.filter (fun segment => cutoff < segment.name.generation) ++ history.extra

end History

/-- The journal in memory holds the log of the generations above `loaded`. -/
structure Loaded (checksums : Checksums) (size loaded : Nat) (journal : Journal)
    (log : List SegmentLog) : Prop where
  valid : LogValid size loaded journal.generation journal.next log
  segments : journal.segments = log.map SegmentLog.entry
  represents : Represents journal.index (recordsOf checksums log)
  journalBytes : journal.journalBytes = ((log.map SegmentLog.entry).map Segment.length).sum
  active : ∀ index, journal.active = some index → ∃ earlier last, log = earlier ++ [last] ∧
    index = earlier.length ∧ last.name.generation = journal.generation ∧ last.next = journal.next
  generation : 1 ≤ journal.generation ∧ journal.generation ≤ i64Max
  next : 1 ≤ journal.next ∧ journal.next ≤ i64Max

variable {Hash : Type u}

/-- The rows and files persist the log. -/
structure Persisted (checksums : Checksums) (size : Nat) (volume : Volume Hash) (history : History) :
    Prop where
  rows : Rows volume.store.db (history.rows volume.store.db.cutoff)
  stored : ∀ segment ∈ history.log ++ history.extra, ∃ file,
    Stored checksums size volume.store.files segment file (history.cuts segment.name)
  settled : Settled volume.store.db.generation history.cuts (history.rows volume.store.db.cutoff)
  /-- Only a failed journal has cut frames. -/
  whole : volume.journal.failed = false → ∀ segment ∈ history.log, history.cuts segment.name = []
  /-- Only a failed journal lags behind a descriptor. -/
  extra : history.extra = [] ∨ (volume.journal.failed = true ∧
    volume.store.db.generation = volume.journal.generation ∧
    volume.store.db.nextSequence = volume.journal.next ∧
    history.extra = [⟨⟨volume.journal.generation, volume.journal.next⟩, []⟩])
  /-- Only a failed journal lags behind a seal. -/
  generation : volume.store.db.generation = volume.journal.generation ∨
    (volume.journal.failed = true ∧ volume.store.db.generation = volume.journal.generation + 1)
  fits : volume.store.db.generation ≤ i64Max
  floor : volume.store.db.nextSequence ≤ volume.journal.next
  starts : ∀ segment ∈ history.rows volume.store.db.cutoff,
    segment.name.first ≤ volume.store.db.nextSequence
  last : ∀ segment ∈ (history.rows volume.store.db.cutoff).getLast?,
    segment.name.generation = volume.store.db.generation →
      volume.store.db.nextSequence = segment.name.first
  sealedFrames : ∀ frame ∈ framesOf history.log, frame.generation < volume.store.db.generation →
    frame.sequence < volume.store.db.nextSequence
  reached : volume.journal.next = volume.store.db.nextSequence ∨
    ∃ frame ∈ framesOf history.log, frame.sequence + 1 = volume.journal.next
  captures : ∀ generation, (volume.store.db.captures generation).isSome →
    volume.store.db.cutoff < generation ∧ generation < volume.store.db.generation
  /-- No file is newer than the journal, and a healthy one owns its files. -/
  owned : ∀ name, (volume.store.files name).isSome → name.generation ≤ volume.journal.generation ∧
    (volume.journal.failed = false → name.generation = volume.journal.generation →
      ∃ segment ∈ history.log, segment.name = name)

/-- A volume and its history. -/
structure Refines (checksums : Checksums) (size loaded : Nat) (volume : Volume Hash)
    (history : History) : Prop where
  limited : size ≤ sizeLimit
  memory : Loaded checksums size loaded volume.journal history.log
  disk : Persisted checksums size volume history
  lag : loaded ≤ volume.store.db.cutoff
  retired : ∀ frame ∈ history.retired, frame.generation ≤ loaded

/-! ### Consequences -/

section

variable {checksums : Checksums} {size loaded : Nat} {volume : Volume Hash} {history : History}

theorem settled_of_whole {generation : Nat} {cuts : SegmentName → Bytes} {log : List SegmentLog}
    (whole : ∀ segment ∈ log, cuts segment.name = []) : Settled generation cuts log := by
  induction log with
  | nil => trivial
  | cons segment log inductionHypothesis =>
      obtain ⟨head, rest⟩ := List.forall_mem_cons.mp whole
      exact ⟨Or.inr head, inductionHypothesis rest⟩

theorem Settled.filter {generation : Nat} {cuts : SegmentName → Bytes} {log : List SegmentLog}
    (settled : Settled generation cuts log) (keep : SegmentLog → Bool) :
    Settled generation cuts (log.filter keep) := by
  induction log with
  | nil => trivial
  | cons segment log inductionHypothesis =>
      obtain ⟨head, rest⟩ := settled
      by_cases kept : keep segment
      · rw [List.filter_cons_of_pos kept]
        refine ⟨head.imp_left fun last => ⟨?_, last.2⟩, inductionHypothesis rest⟩
        rw [last.1, List.filter_nil]
      · rw [List.filter_cons_of_neg kept]
        exact inductionHypothesis rest

/-- A cut may be in the last segment of the current generation. -/
theorem settled_concat {generation : Nat} {cuts : SegmentName → Bytes} {log : List SegmentLog}
    {last : SegmentLog} (whole : ∀ segment ∈ log, cuts segment.name = [])
    (current : last.name.generation = generation) : Settled generation cuts (log ++ [last]) := by
  induction log with
  | nil => exact ⟨Or.inl ⟨rfl, current⟩, trivial⟩
  | cons segment log inductionHypothesis =>
      obtain ⟨head, rest⟩ := List.forall_mem_cons.mp whole
      exact ⟨Or.inr head, inductionHypothesis rest⟩

theorem Stored.congr {files others : SegmentName → Option File} {segment : SegmentLog} {file : File}
    {cut : Bytes} (stored : Stored checksums size files segment file cut)
    (same : others segment.name = files segment.name) :
    Stored checksums size others segment file cut :=
  ⟨same.trans stored.present, stored.bytes, stored.cut⟩

namespace Refines

variable (refines : Refines checksums size loaded volume history)

include refines

theorem healthy_generation (healthy : volume.journal.failed = false) :
    volume.store.db.generation = volume.journal.generation := by
  refine refines.disk.generation.resolve_right fun lagging => ?_
  rw [healthy] at lagging
  cases lagging.1

theorem healthy_extra (healthy : volume.journal.failed = false) : history.extra = [] := by
  refine refines.disk.extra.resolve_right fun lagging => ?_
  rw [healthy] at lagging
  cases lagging.1

theorem healthy_rows (healthy : volume.journal.failed = false) (cutoff : Nat) :
    history.rows cutoff = history.log.filter fun segment => cutoff < segment.name.generation := by
  rw [History.rows, refines.healthy_extra healthy, List.append_nil]

theorem generation_le : volume.journal.generation ≤ volume.store.db.generation := by
  rcases refines.disk.generation with same | ⟨-, later⟩ <;> omega

theorem generation_positive : 1 ≤ volume.store.db.generation :=
  refines.memory.generation.1.trans refines.generation_le

/-- Failing a journal changes nothing else. -/
theorem fail : Refines checksums size loaded { volume with journal := volume.journal.fail } history := by
  obtain ⟨limited, memory, disk, lag, retired⟩ := refines
  refine ⟨limited, ⟨memory.valid, memory.segments, memory.represents, memory.journalBytes,
    memory.active, memory.generation, memory.next⟩, { disk with
      whole := fun healthy => by cases healthy
      extra := disk.extra.imp_right fun lagging => ⟨rfl, lagging.2⟩
      generation := disk.generation.imp_right fun lagging => ⟨rfl, lagging.2⟩
      owned := fun name present => ⟨(disk.owned name present).1, fun healthy => by cases healthy⟩ },
    lag, retired⟩

omit refines in
/-- The segments that have a row are in memory, unless their append failed. -/
theorem mem_rows {cutoff : Nat} {segment : SegmentLog} (member : segment ∈ history.rows cutoff) :
    segment ∈ history.log ++ history.extra := by
  rcases List.mem_append.mp member with live | extra
  · exact List.mem_append_left _ (List.mem_of_mem_filter live)
  · exact List.mem_append_right _ extra

end Refines

end

end Cairn.Storage.Lazy

import Cairn.Storage.Lazy.Segments

/-!
Owns what `Journal::open` makes of a whole directory whose files hold the
frames of a log and perhaps cut ones: it succeeds exactly when no segment but
the tail ends with a cut frame, and then the log is what it recovers.
-/

set_option autoImplicit false

namespace Cairn.Storage.Lazy

universe u

variable {Hash : Type u} {checksums : Checksums} {size cutoff generation next : Nat}
  {log : List SegmentLog}

/-- Only the last segment, when it is of the current generation, ends with a cut. -/
def Settled (generation : Nat) (cuts : SegmentName → Bytes) : List SegmentLog → Prop
  | [] => True
  | segment :: rest =>
    ((rest = [] ∧ segment.name.generation = generation) ∨ cuts segment.name = []) ∧
      Settled generation cuts rest

/-- The files after a scan: those of the log without their cuts. -/
def logFiles (checksums : Checksums) (log : List SegmentLog) (files : SegmentName → Option File) :
    SegmentName → Option File := fun name =>
  ((log.find? fun segment => segment.name = name).map (SegmentLog.file checksums)).or (files name)

theorem logFiles_cons {segment : SegmentLog} {files : SegmentName → Option File}
    (fresh : ∀ other ∈ log, segment.name ≠ other.name) :
    logFiles checksums log (Function.update files segment.name (some (segment.file checksums))) =
      logFiles checksums (segment :: log) files := by
  funext name
  by_cases same : segment.name = name
  · subst name
    have absent : log.find? (fun other => other.name = segment.name) = none :=
      List.find?_eq_none.mpr fun other member => by simpa using Ne.symm (fresh other member)
    simp [logFiles, absent]
  · rw [logFiles, logFiles, List.find?_cons_of_neg (by simpa using same),
      Function.update_of_ne (Ne.symm same)]

/-- The scan of a segment that holds its frames and a cut. -/
theorem scanFrames_stored {tail : Bool} {previous : Nat} {files : SegmentName → Option File}
    {segment : SegmentLog} {file : File} {cut : Bytes}
    (consecutive : Consecutive size segment.name.generation segment.name.first segment.frames)
    (stored : Stored checksums size files segment file cut) (limited : size ≤ sizeLimit)
    (fresh : previous < segment.name.first) :
    scanFrames checksums size segment.row tail file.bytes.length file.bytes 0 previous =
      if tail ∨ cut = [] then .ok {
        records := segment.records checksums
        position := framesLength segment.frames
        previous := lastSequence previous segment.name.first segment.frames }
      else .error "Truncated sealed journal" := by
  rw [stored.bytes]
  exact @scanFrames_segment _ _ segment.row _ _ _ _ consecutive stored.cut limited fresh

theorem lastSequence_lt {previous : Nat} {first second : SegmentLog}
    (precedes : Precedes first second) (fresh : previous < first.name.first) :
    lastSequence previous first.name.first first.frames < second.name.first := by
  have sequence := precedes.sequence
  unfold lastSequence
  rw [SegmentLog.next] at sequence
  split
  · omega
  · rename_i nonempty
    have := List.length_pos_iff.mpr nonempty
    omega

/-- A segment that the descriptor check of `Journal::open` accepts. -/
theorem row_accepted {segment : SegmentLog} (live : cutoff < segment.name.generation)
    (current : segment.name.generation ≤ generation) (positive : 1 ≤ segment.name.first) :
    ¬ (segment.row.generation ≤ cutoff ∨ generation < segment.row.generation ∨
      segment.row.first < 1 ∨
      segment.row.name ≠ ⟨segment.row.generation, segment.row.first⟩) := by
  simp only [SegmentLog.row, ne_eq, not_true_eq_false, or_false]
  omega

section

variable {segment : SegmentLog} {cuts : SegmentName → Bytes} {files : SegmentName → Option File}
  {previous : Nat}

/-- Behind the first segment, the files of the others are as they were. -/
theorem stored_tail (valid : LogValid size cutoff generation next (segment :: log))
    (stored : ∀ other ∈ segment :: log, ∃ file,
      Stored checksums size files other file (cuts other.name)) :
    ∀ other ∈ log, ∃ file, Stored checksums size
      (Function.update files segment.name (some (segment.file checksums))) other file
        (cuts other.name) := by
  intro other member
  obtain ⟨file, held⟩ := stored other (List.mem_cons_of_mem _ member)
  refine ⟨file, ?_, held.bytes, held.cut⟩
  rw [Function.update_of_ne (Ne.symm (valid.precedes other member).distinct)]
  exact held.present

/-- The scan of the first segment. -/
theorem scanSegments_cons (valid : LogValid size cutoff generation next (segment :: log))
    {file : File} (stored : Stored checksums size files segment file (cuts segment.name))
    (limited : size ≤ sizeLimit) (fresh : previous < segment.name.first) :
    scanSegments checksums size cutoff generation ((segment :: log).map SegmentLog.row) previous files =
      if (log = [] ∧ segment.name.generation = generation) ∨ cuts segment.name = [] then
        match scanSegments checksums size cutoff generation (log.map SegmentLog.row)
          (lastSequence previous segment.name.first segment.frames)
          (Function.update files segment.name (some (segment.file checksums))) with
        | .error failure => .error failure
        | .ok (segments, records, files) =>
          .ok (segment.entry :: segments, segment.records checksums ++ records, files)
      else .error "Truncated sealed journal" := by
  have member : segment ∈ segment :: log := List.mem_cons_self
  have scanned := @scanFrames_stored _ _
    ((log.map SegmentLog.row).isEmpty && decide (segment.name.generation = generation)) _ _ _ _ _
    (valid.consecutive segment member) stored limited fresh
  have cutFile : (⟨file.bytes.take (framesLength segment.frames), framesLength segment.frames⟩ :
      File) = segment.file checksums := by
    rw [stored.bytes, List.take_left' (encodeAll_length ..)]
    rfl
  have isTail : (((log.map SegmentLog.row).isEmpty &&
      decide (segment.name.generation = generation)) = true ∨ cuts segment.name = []) ↔
        (log = [] ∧ segment.name.generation = generation) ∨ cuts segment.name = [] := by
    simp
  rw [List.map_cons, scanSegments, if_neg (row_accepted (valid.live segment member)
    (valid.current segment member) (valid.positive segment member)),
    show segment.row.name = segment.name from rfl, stored.present]
  dsimp only
  rw [show segment.row.generation = segment.name.generation from rfl, scanned]
  by_cases accepted : (log = [] ∧ segment.name.generation = generation) ∨ cuts segment.name = []
  · rw [if_pos accepted, if_pos (isTail.mpr accepted)]
    dsimp only
    rw [cutFile]
    rfl
  · rw [if_neg accepted, if_neg (mt isTail.mp accepted)]

theorem fresh_tail (valid : LogValid size cutoff generation next (segment :: log))
    (fresh : previous < segment.name.first) : ∀ other ∈ log,
      lastSequence previous segment.name.first segment.frames < other.name.first :=
  fun other member => lastSequence_lt (valid.precedes other member) fresh

end

section

variable {cuts : SegmentName → Bytes} {files : SegmentName → Option File} {previous : Nat}

/-- The scan of all segments recovers the log. -/
theorem scanSegments_eq_ok (valid : LogValid size cutoff generation next log)
    (stored : ∀ segment ∈ log, ∃ file, Stored checksums size files segment file (cuts segment.name))
    (settled : Settled generation cuts log) (limited : size ≤ sizeLimit)
    (fresh : ∀ segment ∈ log, previous < segment.name.first) :
    scanSegments checksums size cutoff generation (log.map SegmentLog.row) previous files =
      .ok (log.map SegmentLog.entry, recordsOf checksums log, logFiles checksums log files) := by
  induction log generalizing previous files with
  | nil => rfl
  | cons segment log inductionHypothesis =>
      obtain ⟨file, held⟩ := stored segment List.mem_cons_self
      have first := fresh segment List.mem_cons_self
      have others := inductionHypothesis valid.tail (stored_tail valid stored) settled.2
        (fresh_tail valid first)
      rw [scanSegments_cons valid held limited first, if_pos settled.1, others,
        logFiles_cons fun other member => (valid.precedes other member).distinct]
      rfl

/-- A cut in any segment but the tail fails the scan. -/
theorem scanSegments_eq_error (valid : LogValid size cutoff generation next log)
    (stored : ∀ segment ∈ log, ∃ file, Stored checksums size files segment file (cuts segment.name))
    (unsettled : ¬ Settled generation cuts log) (limited : size ≤ sizeLimit)
    (fresh : ∀ segment ∈ log, previous < segment.name.first) :
    scanSegments checksums size cutoff generation (log.map SegmentLog.row) previous files =
      .error "Truncated sealed journal" := by
  induction log generalizing previous files with
  | nil => exact absurd trivial unsettled
  | cons segment log inductionHypothesis =>
      obtain ⟨file, held⟩ := stored segment List.mem_cons_self
      have first := fresh segment List.mem_cons_self
      rw [scanSegments_cons valid held limited first]
      split
      · rename_i accepted
        rw [inductionHypothesis valid.tail (stored_tail valid stored)
          (fun rest => unsettled ⟨accepted, rest⟩) (fresh_tail valid first)]
      · rfl

end

/-! ### `Journal::open` -/

/-- The next sequence of a recovered log. -/
def recoveredNext (floor : Nat) (log : List SegmentLog) : Nat :=
  (framesOf log).foldl (fun next frame => max next (frame.sequence + 1)) floor

/-- The journal that `Journal::open` recovers. -/
def recovered (checksums : Checksums) (store : Store Hash) (log : List SegmentLog) : Volume Hash where
  store := {
    db := store.db
    files := logFiles checksums log fun _ => none }
  journal := {
    index := ({} : Index).insertAll (recordsOf checksums log)
    segments := log.map SegmentLog.entry
    active := activeIndex store.db.generation (log.map SegmentLog.row)
    generation := store.db.generation
    next := recoveredNext store.db.nextSequence log
    durableThrough := recoveredNext store.db.nextSequence log - 1
    journalBytes := ((log.map SegmentLog.entry).map Segment.length).sum }

/-- What the rows of a directory say about its log. -/
structure Rows (db : Db Hash) (log : List SegmentLog) : Prop where
  rows : db.segments = log.map SegmentLog.row
  ascending : log.Pairwise fun first second => first.name.first < second.name.first
  generation : db.cutoff < db.generation
  counters : 1 ≤ db.generation ∧ 1 ≤ db.nextSequence

theorem Rows.sorted {db : Db Hash} (rows : Rows db log) :
    db.segments.insertionSort (fun first second => first.first ≤ second.first) =
      log.map SegmentLog.row := by
  rw [rows.rows]
  exact List.Pairwise.insertionSort_eq (List.pairwise_map.mpr (rows.ascending.imp Nat.le_of_lt))

section

variable {store : Store Hash} {cuts : SegmentName → Bytes}

/-- What `Journal::open` does with the scan. -/
theorem open_eq (rows : Rows store.db log) : Journal.open checksums size store =
    match scanSegments checksums size store.db.cutoff store.db.generation (log.map SegmentLog.row) 0
      store.files with
    | .error failure => .error failure
    | .ok (segments, records, files) => .ok {
        store := { db := store.db, files := fun name =>
          if name ∈ (log.map SegmentLog.row).map Descriptor.name then files name else none }
        journal := {
          index := ({} : Index).insertAll records
          segments
          active := activeIndex store.db.generation (log.map SegmentLog.row)
          generation := store.db.generation
          next := records.foldl (fun next record => max next (record.sequence + 1))
            store.db.nextSequence
          durableThrough := records.foldl (fun next record => max next (record.sequence + 1))
            store.db.nextSequence - 1
          journalBytes := (segments.map Segment.length).sum } } := by
  have counters := rows.counters
  rw [Journal.open, rows.sorted]
  dsimp only
  exact (if_neg (by omega)).trans (if_neg (Nat.not_le.mpr rows.generation))

theorem recoveredNext_eq (floor : Nat) : recoveredNext floor log =
    (recordsOf checksums log).foldl (fun next record => max next (record.sequence + 1)) floor := by
  have sequences : (recordsOf checksums log).map Record.sequence =
      (framesOf log).map Frame.sequence := recordsOf_map _ _ fun _ _ _ => rfl
  have folded := congrArg (List.foldl (fun next sequence => max next (sequence + 1)) floor) sequences
  rw [List.foldl_map, List.foldl_map] at folded
  exact folded.symm

/-- Opening a directory recovers its log. -/
theorem open_eq_ok (rows : Rows store.db log)
    (valid : LogValid size store.db.cutoff store.db.generation next log)
    (stored : ∀ segment ∈ log, ∃ file,
      Stored checksums size store.files segment file (cuts segment.name))
    (settled : Settled store.db.generation cuts log) (limited : size ≤ sizeLimit) :
    Journal.open checksums size store = .ok (recovered checksums store log) := by
  have scanned := scanSegments_eq_ok valid stored settled limited valid.positive
  have files : (fun name => if name ∈ (log.map SegmentLog.row).map Descriptor.name then
      logFiles checksums log store.files name else none) = logFiles checksums log fun _ => none := by
    funext name
    rw [List.map_map, logFiles, logFiles]
    split
    · rename_i named
      obtain ⟨segment, member, isName⟩ := List.mem_map.mp named
      cases found : log.find? fun segment => segment.name = name with
      | none =>
          refine absurd (List.find?_eq_none.mp found segment member) ?_
          simpa [SegmentLog.row] using isName
      | some other => rfl
    · rename_i unnamed
      have absent : log.find? (fun segment => segment.name = name) = none :=
        List.find?_eq_none.mpr fun segment member => by
          simpa [SegmentLog.row] using fun isName : segment.row.name = name =>
            unnamed (List.mem_map.mpr ⟨segment, member, isName⟩)
      rw [absent]
      rfl
  rw [open_eq rows, scanned]
  dsimp only
  rw [files, ← recoveredNext_eq]
  rfl

/-- A cut in any segment but the tail keeps the directory from opening. -/
theorem open_eq_error (rows : Rows store.db log)
    (valid : LogValid size store.db.cutoff store.db.generation next log)
    (stored : ∀ segment ∈ log, ∃ file,
      Stored checksums size store.files segment file (cuts segment.name))
    (unsettled : ¬ Settled store.db.generation cuts log) (limited : size ≤ sizeLimit) :
    Journal.open checksums size store = .error "Truncated sealed journal" := by
  rw [open_eq rows, scanSegments_eq_error valid stored unsettled limited valid.positive]

end

end Cairn.Storage.Lazy

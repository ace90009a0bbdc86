import Cairn.Storage.BlockQueueOrder

/-!
Owns the run of a round: what a request that was parsed may rely on, the loop of
`processQueue` as a run of its groups, and that run as requests served one at a time.

Does not own the groups.
-/

set_option autoImplicit false

namespace Cairn.Storage.BlockQueue

open Cairn.Library.Results

variable {Disk : Type}

/-! ### Requests that were parsed -/

/-- What `parse` checked of a request. -/
structure Request.Fits (checkRange : Nat → Nat → Bool → Bool) (request : Request) : Prop where
  status : checkRange request.status 1 true = true
  reads : request.kind = 0 → ∀ segment ∈ request.segments, checkRange segment.1 segment.2 true = true
  writes : request.kind = 1 → ∀ segment ∈ request.segments,
    checkRange segment.1 segment.2 false = true
  length : (request.segments.map Prod.snd).sum = request.length
  bounded : request.length ≤ maxBytes

/-- What the loop over the payload descriptors has checked. -/
structure Parsed (checkRange : Nat → Nat → Bool → Bool) (kind : Nat)
    (parsed : List (Nat × Nat) × Nat) : Prop where
  reads : kind = 0 → ∀ segment ∈ parsed.1, checkRange segment.1 segment.2 true = true
  writes : kind = 1 → ∀ segment ∈ parsed.1, checkRange segment.1 segment.2 false = true
  length : (parsed.1.map Prod.snd).sum = parsed.2
  bounded : parsed.2 ≤ maxBytes

theorem Parsed.step {memory : Memory} {kind : Nat} {parsed next : List (Nat × Nat) × Nat}
    {descriptor : Descriptor} (holds : Parsed memory.checkRange kind parsed)
    (step : parseSegment memory kind parsed descriptor = .ok next) :
    Parsed memory.checkRange kind next := by
  unfold parseSegment at step
  split at step
  · simp at step
  · rename_i direction
    split at step
    · simp at step
    · rename_i inRange
      split at step
      · simp at step
      · rename_i short
        obtain rfl := Except.ok.inj step
        simp only [not_or, not_and, not_not] at direction inRange
        refine ⟨fun isRead segment member => ?_, fun isWrite segment member => ?_, ?_, by omega⟩
        · rcases List.mem_append.mp member with known | last
          · exact holds.reads isRead segment known
          · obtain rfl := List.mem_singleton.mp last
            rw [direction.1 (.inl isRead)] at inRange
            exact inRange
        · rcases List.mem_append.mp member with known | last
          · exact holds.writes isWrite segment known
          · obtain rfl := List.mem_singleton.mp last
            rw [Bool.eq_false_iff.mpr (direction.2 isWrite)] at inRange
            exact inRange
        · simp [holds.length]

theorem parseHeader_fits {memory : Memory} {size head : Nat} {header status : Descriptor}
    {payload : List Descriptor} {request : Request}
    (parsed : parseHeader memory size head header status payload = .ok request) :
    request.head = head ∧ request.Fits memory.checkRange := by
  unfold parseHeader at parsed
  split at parsed
  · simp at parsed
  · rename_i headed
    simp only [not_or, not_not] at headed
    obtain ⟨raw, -, rest⟩ := bind_eq_ok.mp parsed
    dsimp only at rest
    split at rest
    · simp at rest
    · obtain ⟨segments, read, rest⟩ := bind_eq_ok.mp rest
      obtain ⟨_, -, same⟩ := bind_eq_ok.mp rest
      obtain rfl := Except.ok.inj same
      have holds : Parsed memory.checkRange
          (Cairn.Library.LittleEndian.decode (raw.take 4)) segments :=
        foldlM_eq_ok (motive := fun _ parsed => Parsed memory.checkRange _ parsed)
          (fun _ _ _ _ holds step => holds.step step) ⟨by simp, by simp, rfl, Nat.zero_le _⟩ read
      exact ⟨rfl, headed.2.2.2.2.2, holds.reads, holds.writes, holds.length, holds.bounded⟩

theorem parse_fits {memory : Memory} {size : Nat} {chain : Chain} {request : Request}
    (parsed : parse memory size chain = .ok request) :
    request.head = chain.head ∧ request.Fits memory.checkRange := by
  unfold parse at parsed
  split at parsed
  · split at parsed
    · simp at parsed
    · exact parseHeader_fits parsed
  · simp at parsed

/-- The requests that were popped are those of the chains, in their order. -/
theorem popped_fits {device : Device Disk} {round : Round Disk} {chains : List Chain}
    {requests : List Request} (valid : popped device round chains = .ok requests) :
    requests.map Request.head = (chains.take maxRequests).map Chain.head ∧
      ∀ request ∈ requests, request.Fits round.memory.checkRange := by
  have related := forall₂_of_mapM valid
  clear valid
  generalize chains.take maxRequests = chains at related ⊢
  induction related with
  | nil => exact ⟨rfl, by simp⟩
  | cons parsed _ inductionHypothesis =>
      obtain ⟨same, fits⟩ := parse_fits parsed
      obtain ⟨heads, rest⟩ := inductionHypothesis
      refine ⟨by simp [same, heads], fun request member => ?_⟩
      rcases List.mem_cons.mp member with rfl | member
      · exact fits
      · exact rest request member

/-! ### Guest memory -/

@[simp] theorem set_checkRange (memory : Memory) (address : Nat) (bytes : List UInt8) :
    (memory.set address bytes).checkRange = memory.checkRange := rfl

@[simp] theorem scattered_checkRange (memory : Memory) (segments : List (Nat × Nat))
    (bytes : List UInt8) : (scattered memory segments bytes).checkRange = memory.checkRange := by
  induction segments generalizing memory bytes with
  | nil => rfl
  | cons segment rest inductionHypothesis => exact inductionHypothesis _ _

theorem gather_eq {memory : Memory} {segments : List (Nat × Nat)}
    (readable : ∀ segment ∈ segments, memory.checkRange segment.1 segment.2 false = true) :
    gather memory segments = .ok (gathered memory segments) := by
  induction segments with
  | nil => rfl
  | cons segment rest inductionHypothesis =>
      have first : memory.readSlice segment.1 segment.2 = .ok (memory.slice segment.1 segment.2) :=
        if_pos (readable segment List.mem_cons_self)
      exact bind_eq_ok.mpr ⟨_, first, bind_eq_ok.mpr ⟨_, inductionHypothesis fun other member =>
        readable other (List.mem_cons_of_mem _ member), rfl⟩⟩

theorem scatter_eq {memory : Memory} {segments : List (Nat × Nat)} {bytes : List UInt8}
    (writable : ∀ segment ∈ segments, memory.checkRange segment.1 segment.2 true = true)
    (enough : (segments.map Prod.snd).sum ≤ bytes.length) :
    scatter memory segments bytes = .ok (scattered memory segments bytes) := by
  induction segments generalizing memory bytes with
  | nil => rfl
  | cons segment rest inductionHypothesis =>
      simp only [List.map_cons, List.sum_cons] at enough
      have taken : (bytes.take segment.2).length = segment.2 := by
        rw [List.length_take]
        omega
      have first : memory.writeSlice segment.1 (bytes.take segment.2) =
          .ok (memory.set segment.1 (bytes.take segment.2)) := by
        refine if_pos ?_
        rw [taken]
        exact writable segment List.mem_cons_self
      simp only [scatter, first, scattered]
      refine inductionHypothesis (fun other member =>
        writable other (List.mem_cons_of_mem _ member)) ?_
      rw [List.length_drop]
      omega

/-- A segment of a request holds an address. -/
def Request.Covers (request : Request) (address : Nat) : Prop :=
  ∃ segment ∈ request.segments, segment.1 ≤ address ∧ address < segment.1 + segment.2

/-- A byte outside its segments does not change what a request writes. -/
theorem gathered_set {memory : Memory} {segments : List (Nat × Nat)} {address : Nat} {byte : UInt8}
    (outside : ¬ ∃ segment ∈ segments, segment.1 ≤ address ∧ address < segment.1 + segment.2) :
    gathered (memory.set address [byte]) segments = gathered memory segments := by
  refine List.flatMap_congr fun segment member => ?_
  refine List.map_congr_left fun index isIndex => ?_
  have isIndex := List.mem_range.mp isIndex
  have apart : segment.1 + index ≠ address := fun same =>
    outside ⟨segment, member, by omega, by omega⟩
  simp only [Memory.set]
  split
  · rfl
  · rw [List.getElem?_eq_none (by simp; omega)]
    rfl

/-! ### Loading and completing -/

/-- A request with its payload. -/
def Request.load (memory : Memory) (request : Request) : Request :=
  { request with
    bytes := if request.kind = 1 then gathered memory request.segments
      else List.replicate request.length 0 }

theorem loadPayload_eq {memory : Memory} {request : Request}
    (fits : request.Fits memory.checkRange) :
    loadPayload memory request = .ok (request.load memory) := by
  unfold loadPayload Request.load
  split
  · rename_i isWrite
    rw [gather_eq (fits.writes isWrite)]
    rfl
  · rfl

theorem complete_eq {round : Round Disk} {request : Request} (status : UInt8) (used : Nat)
    (fits : round.memory.checkRange request.status 1 true = true) :
    complete status used round request = .ok (round.finish request status used) := by
  have written : round.memory.writeSlice request.status [status] =
      .ok (round.memory.set request.status [status]) := if_pos fits
  simp only [complete, written, Round.finish]

@[simp] theorem finish_checkRange (round : Round Disk) (request : Request) (status : UInt8)
    (used : Nat) : (round.finish request status used).memory.checkRange =
      round.memory.checkRange := rfl

/-- The completions of a group of writes. -/
def Round.finishAll (round : Round Disk) (requests : List Request) (status : UInt8) : Round Disk :=
  requests.foldl (fun round request => round.finish request status 1) round

theorem completeAll_eq {round : Round Disk} {requests : List Request} (status : UInt8)
    (memory : Memory) (fits : ∀ request ∈ requests, request.Fits round.memory.checkRange) :
    (requests.map (Request.load memory)).foldlM (complete status 1) round =
      .ok (round.finishAll requests status) := by
  induction requests generalizing round with
  | nil => rfl
  | cons request rest inductionHypothesis =>
      have first : complete status 1 round (request.load memory) =
          .ok (round.finish request status 1) :=
        complete_eq status 1 (fits request List.mem_cons_self).status
      rw [List.map_cons, List.foldlM_cons, first]
      exact inductionHypothesis fun other member => fits other (List.mem_cons_of_mem _ member)

/-! ### The reads of a group -/

theorem collect_getElem? (device : Device Disk) (disk : Disk) (requests : List Request)
    (order : List Nat) (outcomes : List (Option (Request × Bool))) (index : Nat) :
    (order.foldl (fun outcomes index =>
        outcomes.set index ((requests[index]?).map (readRequest device disk))) outcomes)[index]? =
      if index ∈ order ∧ index < outcomes.length then
        some ((requests[index]?).map (readRequest device disk))
      else outcomes[index]? := by
  induction order generalizing outcomes with
  | nil => simp
  | cons head rest inductionHypothesis =>
      rw [List.foldl_cons, inductionHypothesis, List.length_set]
      by_cases later : index ∈ rest ∧ index < outcomes.length
      · rw [if_pos later, if_pos ⟨List.mem_cons_of_mem _ later.1, later.2⟩]
      · rw [if_neg later, List.getElem?_set]
        by_cases here : head = index
        · subst here
          by_cases short : head < outcomes.length
          · simp [short]
          · simp [short]
        · have same : index ∈ head :: rest ∧ index < outcomes.length ↔
              index ∈ rest ∧ index < outcomes.length := by
            rw [List.mem_cons, or_iff_right (Ne.symm here)]
          rw [if_neg here, if_neg (same.not.mpr later)]

/-- The pool returns every outcome in its place, in whatever order it finishes the reads. -/
theorem execute_eq (device : Device Disk) (disk : Disk) {requests : List Request}
    {order : List Nat} (every : order.Perm (List.range requests.length)) :
    execute device disk requests order = .ok (requests.map (readRequest device disk)) := by
  have collected : collect device disk requests order =
      requests.map fun request => some (readRequest device disk request) := by
    refine List.ext_getElem? fun index => ?_
    rw [collect, collect_getElem?, List.length_replicate, List.getElem?_map]
    by_cases short : index < requests.length
    · have finished : index ∈ order ∧ index < requests.length :=
        ⟨every.mem_iff.mpr (List.mem_range.mpr short), short⟩
      rw [if_pos finished, List.getElem?_eq_getElem short]
      rfl
    · rw [if_neg fun both => short both.2, List.getElem?_eq_none (Nat.le_of_not_lt short)]
      simp [short]
  unfold execute
  split
  · rfl
  · rw [collected]
    exact mapM_map_ok _ fun request => rfl

/-! ### The loop as a run of its groups -/

/-- A group of requests that were collected in a round. -/
def runGroup (device : Device Disk) (pool : Pool Disk) (round : Round Disk) :
    Group → Outcome Disk (Round Disk)
  | .writes requests => writeGroup device round (requests.map (Request.load round.memory))
  | .reads requests => readGroup device pool round (requests.map (Request.load round.memory))
  | .other request => serveOther device round request

theorem runOfWrites (device : Device Disk) (pool : Pool Disk) (round : Round Disk)
    (requests : List Request) (rest : List Group) :
    (ofWrites requests ++ rest).foldlM (runGroup device pool) round =
      writeGroup device round (requests.map (Request.load round.memory)) >>= fun round =>
        rest.foldlM (runGroup device pool) round := by
  cases requests <;> rfl

theorem runOfReads (device : Device Disk) (pool : Pool Disk) (round : Round Disk)
    (requests : List Request) (rest : List Group) :
    (ofReads requests ++ rest).foldlM (runGroup device pool) round =
      readGroup device pool round (requests.map (Request.load round.memory)) >>= fun round =>
        rest.foldlM (runGroup device pool) round := by
  cases requests <;> rfl

/-- A round keeps the ranges of the guest memory. -/
def Round.Keeps (round next : Round Disk) : Prop :=
  next.memory.checkRange = round.memory.checkRange

theorem writeSlice_keeps {memory next : Memory} {address : Nat} {bytes : List UInt8}
    (written : memory.writeSlice address bytes = .ok next) :
    next.checkRange = memory.checkRange := by
  unfold Memory.writeSlice at written
  split at written
  · obtain rfl := Except.ok.inj written
    rfl
  · simp at written

theorem complete_keeps {status : UInt8} {used : Nat} {round next : Round Disk} {request : Request}
    (completed : complete status used round request = .ok next) : round.Keeps next := by
  unfold complete at completed
  split at completed
  · simp at completed
  · rename_i memory written
    obtain rfl := Except.ok.inj completed
    exact writeSlice_keeps written

theorem writeGroup_keeps {device : Device Disk} {round next : Round Disk} {requests : List Request}
    (written : writeGroup device round requests = .ok next) : round.Keeps next := by
  unfold writeGroup at written
  split at written
  · obtain rfl := Except.ok.inj written
    rfl
  · dsimp only at written
    have start : ∀ disk, round.Keeps { round with disk } := fun _ => rfl
    exact foldlM_eq_ok (motive := fun _ state => round.Keeps state)
      (fun _ _ _ _ holds step => (complete_keeps step).trans holds) (start _) written

theorem scatter_keeps {memory next : Memory} {segments : List (Nat × Nat)} {bytes : List UInt8}
    (scattered : scatter memory segments bytes = .ok next) :
    next.checkRange = memory.checkRange := by
  induction segments generalizing memory bytes with
  | nil =>
      obtain rfl := Except.ok.inj scattered
      rfl
  | cons segment rest inductionHypothesis =>
      unfold scatter at scattered
      split at scattered
      · simp at scattered
      · rename_i middle written
        exact (inductionHypothesis scattered).trans (writeSlice_keeps written)

theorem completeRead_keeps {round next : Round Disk} {outcome : Request × Bool}
    (completed : completeRead round outcome = .ok next) : round.Keeps next := by
  unfold completeRead at completed
  split at completed
  · split at completed
    · simp at completed
    · rename_i memory scattered
      exact (complete_keeps completed).trans (scatter_keeps scattered)
  · exact complete_keeps completed

theorem readGroup_keeps {device : Device Disk} {pool : Pool Disk} {round next : Round Disk}
    {requests : List Request} (read : readGroup device pool round requests = .ok next) :
    round.Keeps next := by
  unfold readGroup at read
  split at read
  · obtain rfl := Except.ok.inj read
    rfl
  · split at read
    · simp at read
    · exact foldlM_eq_ok (motive := fun _ state => round.Keeps state)
        (fun _ _ _ _ holds step => (completeRead_keeps step).trans holds) rfl read

theorem serveOther_keeps {device : Device Disk} {round next : Round Disk} {request : Request}
    (served : serveOther device round request = .ok next) : round.Keeps next := by
  unfold serveOther at served
  split at served
  · dsimp only at served
    exact (complete_keeps served).trans rfl
  · exact complete_keeps served

theorem runGroups_keeps {device : Device Disk} {pool : Pool Disk} {round next : Round Disk}
    {groups : List Group} (ran : groups.foldlM (runGroup device pool) round = .ok next) :
    round.Keeps next := by
  refine foldlM_eq_ok (motive := fun _ state => round.Keeps state)
    (fun group _ state next holds step => ?_) rfl ran
  cases group with
  | writes requests => exact (writeGroup_keeps step).trans holds
  | reads requests => exact (readGroup_keeps step).trans holds
  | other request => exact (serveOther_keeps step).trans holds

/-- The loop state in which these requests are collected. -/
def Progress.of (round : Round Disk) (pending reads : List Request) : Progress Disk where
  round := round
  pending := pending.map (Request.load round.memory)
  pendingBytes := totalLength pending
  reads := reads.map (Request.load round.memory)
  readBytes := totalLength reads

theorem load_eq {progress : Progress Disk} {request : Request}
    (fits : request.Fits progress.round.memory.checkRange) :
    progress.load request = .ok (request.load progress.round.memory) := by
  rw [Progress.load, loadPayload_eq fits]
  rfl

/-- Writing the writes that were collected leaves the reads as they were loaded: there are not
both. -/
theorem reads_of_writeGroup {device : Device Disk} {round next : Round Disk}
    {pending reads : List Request} (one : pending = [] ∨ reads = [])
    (written : writeGroup device round (pending.map (Request.load round.memory)) = .ok next) :
    reads.map (Request.load round.memory) = reads.map (Request.load next.memory) := by
  rcases one with rfl | rfl
  · obtain rfl := Except.ok.inj written
    rfl
  · rfl

theorem pending_of_readGroup {device : Device Disk} {pool : Pool Disk} {round next : Round Disk}
    {pending reads : List Request} (one : pending = [] ∨ reads = [])
    (read : readGroup device pool round (reads.map (Request.load round.memory)) = .ok next) :
    pending.map (Request.load round.memory) = pending.map (Request.load next.memory) := by
  rcases one with rfl | rfl
  · rfl
  · obtain rfl := Except.ok.inj read
    rfl

/-- A read in the loop. -/
theorem takeRead_eq (device : Device Disk) (pool : Pool Disk) {round : Round Disk}
    {pending reads : List Request} {request : Request} (one : pending = [] ∨ reads = [])
    (fits : request.Fits round.memory.checkRange) :
    takeRead device pool (.of round pending reads) request =
      writeGroup device round (pending.map (Request.load round.memory)) >>= fun round =>
        if concurrency ≤ reads.length ∨ maxBytes < totalLength reads + request.length then
          readGroup device pool round (reads.map (Request.load round.memory)) >>= fun round =>
            .ok (.of round [] [request])
        else .ok (.of round [] (reads ++ [request])) := by
  unfold takeRead
  cases written : writeGroup device round (pending.map (Request.load round.memory)) with
  | error failure =>
      change writeGroup device round (pending.map (Request.load round.memory)) >>= _ = _
      rw [written]
      rfl
  | ok next =>
      change writeGroup device round (pending.map (Request.load round.memory)) >>= _ = _
      rw [written]
      have same := reads_of_writeGroup one written
      have kept := writeGroup_keeps written
      change Progress.roomForRead device pool
        { round := next, reads := reads.map (Request.load round.memory),
          readBytes := totalLength reads } request >>= _ = ite _ _ _
      rw [same]
      unfold Progress.roomForRead
      rw [List.length_map]
      split
      · dsimp only
        cases read : readGroup device pool next (reads.map (Request.load next.memory)) with
        | error => rfl
        | ok last =>
            have keeps : last.memory.checkRange = round.memory.checkRange :=
              (readGroup_keeps read).trans kept
            refine bind_eq_ok.mpr ⟨_, rfl, bind_eq_ok.mpr ⟨_, load_eq (keeps ▸ fits), ?_⟩⟩
            simp [Progress.of, totalLength]
      · refine bind_eq_ok.mpr ⟨_, rfl, bind_eq_ok.mpr ⟨_, load_eq (kept ▸ fits), ?_⟩⟩
        simp [Progress.of, totalLength]

/-- A write in the loop. -/
theorem takeWrite_eq (device : Device Disk) (pool : Pool Disk) {round : Round Disk}
    {pending reads : List Request} {request : Request} (one : pending = [] ∨ reads = [])
    (fits : request.Fits round.memory.checkRange) :
    takeWrite device pool (.of round pending reads) request =
      readGroup device pool round (reads.map (Request.load round.memory)) >>= fun round =>
        if maxBytes < totalLength pending + request.length then
          writeGroup device round (pending.map (Request.load round.memory)) >>= fun round =>
            .ok (.of round [request] [])
        else .ok (.of round (pending ++ [request]) []) := by
  unfold takeWrite
  change readGroup device pool round (reads.map (Request.load round.memory)) >>= _ = _
  cases read : readGroup device pool round (reads.map (Request.load round.memory)) with
  | error failure => rfl
  | ok next =>
      have same := pending_of_readGroup one read
      have kept := readGroup_keeps read
      change Progress.roomForWrite device
        { round := next, pending := pending.map (Request.load round.memory),
          pendingBytes := totalLength pending } request >>= _ = ite _ _ _
      rw [same]
      unfold Progress.roomForWrite
      split
      · dsimp only
        cases written : writeGroup device next (pending.map (Request.load next.memory)) with
        | error => rfl
        | ok last =>
            have keeps : last.memory.checkRange = round.memory.checkRange :=
              (writeGroup_keeps written).trans kept
            refine bind_eq_ok.mpr ⟨_, rfl, bind_eq_ok.mpr ⟨_, load_eq (keeps ▸ fits), ?_⟩⟩
            simp [Progress.of, totalLength]
      · refine bind_eq_ok.mpr ⟨_, rfl, bind_eq_ok.mpr ⟨_, load_eq (kept ▸ fits), ?_⟩⟩
        simp [Progress.of, totalLength]

/-- Any other request in the loop. -/
theorem takeOther_eq (device : Device Disk) (pool : Pool Disk) {round : Round Disk}
    {pending reads : List Request} {request : Request} (one : pending = [] ∨ reads = []) :
    takeOther device pool (.of round pending reads) request =
      (ofReads reads ++ ofWrites pending ++ [Group.other request]).foldlM (runGroup device pool) round >>=
        fun round => .ok (.of round [] []) := by
  rw [List.append_assoc, runOfReads]
  unfold takeOther
  change readGroup device pool round (reads.map (Request.load round.memory)) >>= _ = _
  cases read : readGroup device pool round (reads.map (Request.load round.memory)) with
  | error failure => rfl
  | ok next =>
      change writeGroup device next (pending.map (Request.load round.memory)) >>= _ =
        (ofWrites pending ++ [Group.other request]).foldlM (runGroup device pool) next >>= _
      rw [pending_of_readGroup one read, runOfWrites]
      cases writeGroup device next (pending.map (Request.load next.memory)) with
      | error failure => rfl
      | ok last =>
          change serveOther device last request >>= _ = (serveOther device last request >>= _) >>= _
          cases serveOther device last request <;> rfl

/-- The end of the loop. -/
theorem finish_eq (device : Device Disk) (pool : Pool Disk) {round : Round Disk}
    {pending reads : List Request} (one : pending = [] ∨ reads = []) :
    (Progress.of round pending reads).finish device pool =
      (grouped pending reads []).foldlM (runGroup device pool) round := by
  rw [grouped, ← List.append_nil (ofWrites pending), runOfReads]
  change readGroup device pool round (reads.map (Request.load round.memory)) >>= _ = _
  cases read : readGroup device pool round (reads.map (Request.load round.memory)) with
  | error failure => rfl
  | ok next =>
      change writeGroup device next (pending.map (Request.load round.memory)) =
        (ofWrites pending ++ []).foldlM (runGroup device pool) next
      rw [pending_of_readGroup one read, runOfWrites]
      cases writeGroup device next (pending.map (Request.load next.memory)) <;> rfl

/-- The loop of `processQueue` and its end are a run of the groups. -/
theorem loop_eq (device : Device Disk) (pool : Pool Disk) {round : Round Disk}
    {pending reads requests : List Request} (one : pending = [] ∨ reads = [])
    (fits : ∀ request ∈ requests, request.Fits round.memory.checkRange) :
    (requests.foldlM (take device pool) (.of round pending reads) >>= fun progress =>
        progress.finish device pool) =
      (grouped pending reads requests).foldlM (runGroup device pool) round := by
  induction requests generalizing round pending reads with
  | nil => exact finish_eq device pool one
  | cons request rest inductionHypothesis =>
      have isFit := fits request List.mem_cons_self
      have later : ∀ {next : Round Disk} {pending reads : List Request}, round.Keeps next →
          (pending = [] ∨ reads = []) →
          (rest.foldlM (take device pool) (.of next pending reads) >>= fun progress =>
            progress.finish device pool) =
          (grouped pending reads rest).foldlM (runGroup device pool) next := fun keeps one =>
        inductionHypothesis one fun other member => keeps ▸ fits other (List.mem_cons_of_mem _ member)
      rw [List.foldlM_cons, bind_assoc]
      unfold grouped take
      split
      · rw [takeRead_eq device pool one isFit, runOfWrites, bind_assoc]
        cases written : writeGroup device round (pending.map (Request.load round.memory)) with
        | error failure => rfl
        | ok next =>
            have kept := writeGroup_keeps written
            simp only [ok_bind]
            by_cases full : concurrency ≤ reads.length ∨
                maxBytes < totalLength reads + request.length
            · rw [if_pos full, if_pos full, runOfReads, bind_assoc]
              cases read : readGroup device pool next (reads.map (Request.load next.memory)) with
              | error failure => rfl
              | ok last => exact later ((readGroup_keeps read).trans kept) (.inl rfl)
            · rw [if_neg full, if_neg full]
              exact later kept (.inl rfl)
      · split
        · rw [takeWrite_eq device pool one isFit, runOfReads, bind_assoc]
          cases read : readGroup device pool round (reads.map (Request.load round.memory)) with
          | error failure => rfl
          | ok next =>
              have kept := readGroup_keeps read
              simp only [ok_bind]
              by_cases full : maxBytes < totalLength pending + request.length
              · rw [if_pos full, if_pos full, runOfWrites, bind_assoc]
                cases written : writeGroup device next (pending.map (Request.load next.memory)) with
                | error failure => rfl
                | ok last => exact later ((writeGroup_keeps written).trans kept) (.inr rfl)
              · rw [if_neg full, if_neg full]
                exact later kept (.inr rfl)
        · rw [takeOther_eq device pool one, bind_assoc]
          have runs : (ofReads reads ++ ofWrites pending ++
                Group.other request :: grouped [] [] rest).foldlM (runGroup device pool) round =
              (ofReads reads ++ ofWrites pending ++ [Group.other request]).foldlM
                (runGroup device pool) round >>= fun next =>
                  (grouped [] [] rest).foldlM (runGroup device pool) next := by
            rw [← List.foldlM_append, List.append_assoc _ [_], List.singleton_append]
          rw [runs]
          cases ran : (ofReads reads ++ ofWrites pending ++ [Group.other request]).foldlM
              (runGroup device pool) round with
          | error failure => rfl
          | ok next => exact later (runGroups_keeps ran) (.inl rfl)

/-! ### Requests one at a time -/

/-- What the documentation of `write_batch` promises: the writes are done in their order, and a
batch that fails leaves a prefix of them. -/
structure Device.Ordered (device : Device Disk) : Prop where
  acknowledged : ∀ disk writes, (device.writeBatch disk writes).1 = true →
    device.writeEach disk writes = device.writeBatch disk writes
  unacknowledged : ∀ disk writes, (device.writeBatch disk writes).1 = false →
    ∃ count, (device.writeBatch disk writes).2 = (device.writeEach disk (writes.take count)).2

/-- The writes of a group. -/
def writesOf (memory : Memory) (requests : List Request) : List (Nat × List UInt8) :=
  requests.map (Request.write memory)

/-- A group of writes whose batch left a prefix of them. -/
def Round.failed (device : Device Disk) (round : Round Disk) (requests : List Request)
    (count : Nat) : Round Disk :=
  Round.finishAll { round with
    disk := (device.writeEach round.disk ((writesOf round.memory requests).take count)).2 }
    requests 1

/-- The groups are served in their order, each request on its own, but for groups of writes
whose batch fails. -/
inductive Served (device : Device Disk) : Round Disk → List Group → Round Disk → Prop where
  | done (round : Round Disk) : Served device round [] round
  | alone {round final : Round Disk} {group : Group} {rest : List Group}
      (acknowledged : ∀ requests, group = .writes requests →
        (device.writeBatch round.disk (writesOf round.memory requests)).1 = true)
      (next : Served device (group.requests.foldl (serveOne device) round) rest final) :
      Served device round (group :: rest) final
  | failed {round final : Round Disk} {requests : List Request} {rest : List Group} {count : Nat}
      (unacknowledged : (device.writeBatch round.disk (writesOf round.memory requests)).1 = false)
      (next : Served device (round.failed device requests count) rest final) :
      Served device round (.writes requests :: rest) final

/-- No write of a group holds the status byte of an earlier one. -/
def Apart (requests : List Request) : Prop :=
  requests.Pairwise fun earlier later => ¬ later.Covers earlier.status

theorem writesOf_finish {round : Round Disk} {request : Request} {rest : List Request}
    {status : UInt8} {used : Nat} (apart : ∀ later ∈ rest, ¬ later.Covers request.status) :
    writesOf (round.finish request status used).memory rest = writesOf round.memory rest :=
  List.map_congr_left fun later member =>
    congrArg (Prod.mk later.offset) (gathered_set (apart later member))

theorem serveOne_write {device : Device Disk} {round : Round Disk} {request : Request}
    (isWrite : request.kind = 1) : serveOne device round request =
      Round.finish { round with
        disk := (device.writeAt round.disk request.offset (gathered round.memory request.segments)).2 }
        request (if (device.writeAt round.disk request.offset
          (gathered round.memory request.segments)).1 then 0 else 1) 1 := by
  rw [serveOne, if_neg (by simp [isWrite]), if_pos isWrite]

/-- Writes that all succeed one after the other. -/
theorem serveEach_eq {device : Device Disk} {round : Round Disk} {requests : List Request}
    (areWrites : ∀ request ∈ requests, request.kind = 1) (apart : Apart requests)
    (done : (device.writeEach round.disk (writesOf round.memory requests)).1 = true) :
    requests.foldl (serveOne device) round = Round.finishAll { round with
      disk := (device.writeEach round.disk (writesOf round.memory requests)).2 } requests 0 := by
  induction requests generalizing round with
  | nil => rfl
  | cons request rest inductionHypothesis =>
      obtain ⟨first, later⟩ := List.pairwise_cons.mp apart
      have unfolded : device.writeEach round.disk (writesOf round.memory (request :: rest)) =
          if (device.writeAt round.disk request.offset (gathered round.memory request.segments)).1
          then device.writeEach (device.writeAt round.disk request.offset
            (gathered round.memory request.segments)).2 (writesOf round.memory rest)
          else device.writeAt round.disk request.offset (gathered round.memory request.segments) :=
        rfl
      rw [unfolded] at done ⊢
      have written : (device.writeAt round.disk request.offset
          (gathered round.memory request.segments)).1 = true := by
        by_contra refused
        rw [if_neg refused] at done
        exact refused done
      rw [if_pos written] at done ⊢
      rw [List.foldl_cons, serveOne_write (areWrites request List.mem_cons_self), if_pos written]
      have same : ∀ disk : Disk, writesOf (Round.finish { round with disk } request 0 1).memory rest =
          writesOf round.memory rest := fun _ => writesOf_finish first
      rw [inductionHypothesis (fun other member => areWrites other (List.mem_cons_of_mem _ member))
        later]
      · rw [same]
        rfl
      · rw [same]
        exact done

theorem writeGroup_eq {device : Device Disk} {round : Round Disk} {requests : List Request}
    (some : requests ≠ []) (areWrites : ∀ request ∈ requests, request.kind = 1)
    (fits : ∀ request ∈ requests, request.Fits round.memory.checkRange) :
    writeGroup device round (requests.map (Request.load round.memory)) =
      .ok (Round.finishAll { round with
        disk := (device.writeBatch round.disk (writesOf round.memory requests)).2 } requests
        (if (device.writeBatch round.disk (writesOf round.memory requests)).1 then 0 else 1)) := by
  have writes : (requests.map (Request.load round.memory)).map
      (fun request => (request.offset, request.bytes)) = writesOf round.memory requests := by
    rw [List.map_map]
    refine List.map_congr_left fun request member => ?_
    simp [Request.load, Request.write, areWrites request member]
  rw [writeGroup, if_neg (by simpa using some), writes]
  exact completeAll_eq _ round.memory fits

/-- A group of writes that is served. -/
theorem runWrites {device : Device Disk} (ordered : device.Ordered) {round : Round Disk}
    {requests : List Request} (bounded : Group.Bounded (.writes requests))
    (fits : ∀ request ∈ requests, request.Fits round.memory.checkRange) (apart : Apart requests) :
    ∃ next, writeGroup device round (requests.map (Request.load round.memory)) = .ok next ∧
      ∀ rest final, Served device next rest final →
        Served device round (.writes requests :: rest) final := by
  obtain ⟨some, -, areWrites⟩ := bounded
  refine ⟨_, writeGroup_eq some areWrites fits, fun rest final served => ?_⟩
  cases batch : (device.writeBatch round.disk (writesOf round.memory requests)).1 with
  | true =>
      have each := ordered.acknowledged _ _ batch
      refine .alone (fun others same => Group.writes.inj same ▸ batch) ?_
      rw [Group.requests, serveEach_eq areWrites apart (each ▸ batch), each]
      rwa [batch] at served
  | false =>
      obtain ⟨count, left⟩ := ordered.unacknowledged _ _ batch
      refine @Served.failed _ _ _ _ _ _ count batch ?_
      rw [Round.failed, ← left]
      rwa [batch] at served

theorem serveOne_read {device : Device Disk} {round : Round Disk} {request : Request}
    (isRead : request.kind = 0) : serveOne device round request =
      match device.readAt round.disk request.offset request.length with
      | some bytes => Round.finish { round with
          memory := scattered round.memory request.segments bytes } request 0 (request.length + 1)
      | none => round.finish request 1 1 := by
  unfold serveOne
  exact if_pos isRead

theorem completeRead_eq {device : Device Disk} {round : Round Disk} {request : Request}
    (memory : Memory) (isRead : request.kind = 0) (fits : request.Fits round.memory.checkRange) :
    completeRead round (readRequest device round.disk (request.load memory)) =
      .ok (serveOne device round request) := by
  rw [serveOne_read isRead]
  have loaded : readRequest device round.disk (request.load memory) =
      match device.readAt round.disk request.offset request.length with
      | some bytes => ({ request with bytes }, true)
      | none => (request.load memory, false) := rfl
  rw [loaded]
  cases read : device.readAt round.disk request.offset request.length with
  | none => exact complete_eq 1 1 fits.status
  | some bytes =>
      have whole : bytes.length = request.length :=
        device.readAt_length _ _ _ _ read
      have copied : scatter round.memory request.segments bytes =
          .ok (scattered round.memory request.segments bytes) :=
        scatter_eq (fits.reads isRead) (by rw [fits.length, whole])
      simp only [completeRead, copied, whole, if_true]
      refine complete_eq 0 (request.length + 1) ?_
      rw [scattered_checkRange]
      exact fits.status

theorem serveOne_read_disk {device : Device Disk} {round : Round Disk} {request : Request}
    (isRead : request.kind = 0) : (serveOne device round request).disk = round.disk := by
  rw [serveOne_read isRead]
  split <;> rfl

theorem serveOne_keeps (device : Device Disk) (round : Round Disk) (request : Request) :
    round.Keeps (serveOne device round request) := by
  unfold serveOne Round.Keeps
  split
  · split
    · exact scattered_checkRange _ _ _
    · rfl
  · split
    · rfl
    · split <;> rfl

theorem completeReads_eq {device : Device Disk} {round : Round Disk} {requests : List Request}
    {disk : Disk} (memory : Memory) (same : round.disk = disk)
    (areReads : ∀ request ∈ requests, request.kind = 0)
    (fits : ∀ request ∈ requests, request.Fits round.memory.checkRange) :
    ((requests.map (Request.load memory)).map (readRequest device disk)).foldlM completeRead round =
      .ok (requests.foldl (serveOne device) round) := by
  induction requests generalizing round with
  | nil => rfl
  | cons request rest inductionHypothesis =>
      have isRead := areReads request List.mem_cons_self
      subst same
      rw [List.map_cons, List.map_cons, List.foldlM_cons,
        completeRead_eq memory isRead (fits request List.mem_cons_self), ok_bind]
      refine inductionHypothesis (serveOne_read_disk isRead) (fun other member =>
        areReads other (List.mem_cons_of_mem _ member)) fun other member => ?_
      rw [serveOne_keeps device round request]
      exact fits other (List.mem_cons_of_mem _ member)

/-- A pool finishes every read of a group once. -/
def Pool.Complete (pool : Pool Disk) : Prop :=
  ∀ round requests, (pool round requests).Perm (List.range requests.length)

theorem readGroup_eq {device : Device Disk} {pool : Pool Disk} (complete : pool.Complete)
    {round : Round Disk} {requests : List Request}
    (areReads : ∀ request ∈ requests, request.kind = 0)
    (fits : ∀ request ∈ requests, request.Fits round.memory.checkRange) :
    readGroup device pool round (requests.map (Request.load round.memory)) =
      .ok (requests.foldl (serveOne device) round) := by
  unfold readGroup
  split
  · rename_i empty
    obtain rfl : requests = [] := by simpa using empty
    rfl
  · rw [execute_eq device round.disk (complete _ _)]
    exact completeReads_eq round.memory rfl areReads fits

theorem serveOther_eq {device : Device Disk} {round : Round Disk} {request : Request}
    (bounded : Group.Bounded (.other request)) (fits : request.Fits round.memory.checkRange) :
    serveOther device round request = .ok (serveOne device round request) := by
  rw [serveOther, serveOne, if_neg bounded.1, if_neg bounded.2]
  split
  · exact complete_eq _ 1 fits.status
  · exact complete_eq 2 1 fits.status

/-- The groups are run without an error and served. -/
theorem runGroups_served {device : Device Disk} (ordered : device.Ordered) {pool : Pool Disk}
    (complete : pool.Complete) {round : Round Disk} {groups : List Group}
    (bounded : ∀ group ∈ groups, group.Bounded)
    (fits : ∀ group ∈ groups, ∀ request ∈ group.requests, request.Fits round.memory.checkRange)
    (apart : ∀ requests, .writes requests ∈ groups → Apart requests) :
    ∃ final, groups.foldlM (runGroup device pool) round = .ok final ∧
      Served device round groups final := by
  induction groups generalizing round with
  | nil => exact ⟨round, rfl, .done round⟩
  | cons group rest inductionHypothesis =>
      have isBounded := bounded group List.mem_cons_self
      have isFit := fits group List.mem_cons_self
      have step : ∃ next, runGroup device pool round group = .ok next ∧
          ∀ rest final, Served device next rest final → Served device round (group :: rest) final := by
        cases group with
        | writes requests => exact runWrites ordered isBounded isFit (apart _ List.mem_cons_self)
        | reads requests =>
            exact ⟨_, readGroup_eq complete isBounded.2.2.2 isFit, fun _ _ served =>
              .alone (fun _ same => by simp at same) served⟩
        | other request =>
            exact ⟨_, serveOther_eq isBounded (isFit request List.mem_cons_self),
              fun _ _ served => .alone (fun _ same => by simp at same) served⟩
      obtain ⟨next, ran, serves⟩ := step
      have kept : round.Keeps next := by
        refine runGroups_keeps (?_ : [group].foldlM (runGroup device pool) round = .ok next)
        rw [List.foldlM_cons, ran, ok_bind, List.foldlM_nil]
        rfl
      have rested : ∃ final, rest.foldlM (runGroup device pool) next = .ok final ∧
          Served device next rest final :=
        inductionHypothesis (fun other member => bounded other (List.mem_cons_of_mem _ member))
          (fun other member => kept ▸ fits other (List.mem_cons_of_mem _ member))
          fun requests member => apart requests (List.mem_cons_of_mem _ member)
      obtain ⟨final, finished, served⟩ := rested
      refine ⟨final, ?_, serves rest final served⟩
      rw [List.foldlM_cons, ran]
      exact finished

/-! ### Rounds -/

theorem serveOne_head (device : Device Disk) (round : Round Disk) (request : Request) :
    (serveOne device round request).used.map Prod.fst = round.used.map Prod.fst ++ [request.head] := by
  unfold serveOne
  split
  · split <;> simp [Round.finish]
  · split
    · simp [Round.finish]
    · split <;> simp [Round.finish]

theorem serveAll_heads (device : Device Disk) (round : Round Disk) (requests : List Request) :
    (requests.foldl (serveOne device) round).used.map Prod.fst =
      round.used.map Prod.fst ++ requests.map Request.head := by
  induction requests generalizing round with
  | nil => simp
  | cons request rest inductionHypothesis =>
      rw [List.foldl_cons, inductionHypothesis, serveOne_head]
      simp

theorem finishAll_used (round : Round Disk) (requests : List Request) (status : UInt8) :
    (round.finishAll requests status).used =
      round.used ++ requests.map fun request => (request.head, 1) := by
  induction requests generalizing round with
  | nil => simp [Round.finishAll]
  | cons request rest inductionHypothesis =>
      have first := inductionHypothesis (round.finish request status 1)
      rw [Round.finishAll, List.foldl_cons]
      refine first.trans ?_
      simp [Round.finish]

/-- Every request is completed once, in its place. -/
theorem Served.heads {device : Device Disk} {round final : Round Disk} {groups : List Group}
    (served : Served device round groups final) : final.used.map Prod.fst =
      round.used.map Prod.fst ++ (groups.flatMap Group.requests).map Request.head := by
  induction served with
  | done => simp
  | alone _ _ inductionHypothesis =>
      rw [inductionHypothesis, serveAll_heads, List.flatMap_cons, List.map_append, List.append_assoc]
  | failed _ _ inductionHypothesis =>
      rw [inductionHypothesis, Round.failed, finishAll_used, List.flatMap_cons, List.map_append,
        Group.requests]
      simp [Function.comp_def]

theorem popped_length {device : Device Disk} {round : Round Disk} {chains : List Chain}
    {requests : List Request} (valid : popped device round chains = .ok requests) :
    requests.length ≤ maxRequests := by
  have same := congrArg List.length (popped_fits valid).1
  simp only [List.length_map, List.length_take] at same
  omega

theorem length_of_group {groups : List Group} {group : Group} (member : group ∈ groups) :
    group.requests.length ≤ (groups.flatMap Group.requests).length := by
  obtain ⟨before, after, rfl⟩ := List.append_of_mem member
  simp only [List.flatMap_append, List.flatMap_cons, List.length_append]
  omega

/-- A round with an invalid chain does nothing. Any other one completes each chain once, in the
order of the ring, and leaves what serving the requests one at a time leaves, but for groups of
writes whose batch fails: those are completed with an error and leave a prefix of their
writes. -/
theorem processQueue_serves {device : Device Disk} (ordered : device.Ordered) {pool : Pool Disk}
    (complete : pool.Complete) (round : Round Disk) (chains : List Chain) :
    match popped device round chains with
    | .error failure => processQueue device pool round chains = .error (failure, round)
    | .ok requests =>
        (∀ group ∈ schedule requests, group.Bounded ∧ group.requests.length ≤ maxRequests) ∧
        (schedule requests).flatMap Group.requests = requests ∧
        ((∀ writes, .writes writes ∈ schedule requests → Apart writes) →
          ∃ final, processQueue device pool round chains = .ok (!requests.isEmpty, final) ∧
            Served device round (schedule requests) final ∧
            final.used.map Prod.fst =
              round.used.map Prod.fst ++ (chains.take maxRequests).map Chain.head) := by
  cases valid : popped device round chains with
  | error failure => simp only [processQueue, valid]
  | ok requests =>
      obtain ⟨heads, fits⟩ := popped_fits valid
      have bounded : ∀ group ∈ schedule requests, group.Bounded :=
        grouped_bounded .none fun request member => (fits request member).bounded
      have inGroup : ∀ group ∈ schedule requests, ∀ request ∈ group.requests,
          request.Fits round.memory.checkRange := fun group isGroup request member =>
        fits request (schedule_requests requests ▸ List.mem_flatMap.mpr ⟨group, isGroup, member⟩)
      refine ⟨fun group member => ⟨bounded group member, ?_⟩, schedule_requests requests,
        fun apart => ?_⟩
      · have short := length_of_group member
        rw [schedule_requests] at short
        exact short.trans (popped_length valid)
      · obtain ⟨final, ran, served⟩ := runGroups_served ordered complete bounded inGroup apart
        refine ⟨final, ?_, served, ?_⟩
        · cases requests with
          | nil =>
              obtain rfl := Except.ok.inj ran
              simp only [processQueue, valid]
              rfl
          | cons request rest =>
              have loop : ((request :: rest).foldlM (take device pool) (.of round [] []) >>=
                  fun progress => progress.finish device pool) = .ok final :=
                (loop_eq device pool (.inl rfl) fits).trans ran
              simp only [processQueue, valid]
              obtain ⟨progress, looped, finished⟩ := bind_eq_ok.mp loop
              exact bind_eq_ok.mpr ⟨progress, looped, bind_eq_ok.mpr ⟨final, finished, rfl⟩⟩
        · rw [served.heads, schedule_requests, heads]

/-! ### Where a round differs -/

/-- A disk that logs its writes and refuses those at one offset. -/
def logged (refused : Option Nat) (disk : List (Nat × List UInt8)) (offset : Nat)
    (bytes : List UInt8) : Bool × List (Nat × List UInt8) :=
  if refused = some offset then (false, disk) else (true, disk ++ [(offset, bytes)])

/-- Its batches, one write after the other. -/
def loggedEach (refused : Option Nat) :
    List (Nat × List UInt8) → List (Nat × List UInt8) → Bool × List (Nat × List UInt8)
  | disk, [] => (true, disk)
  | disk, write :: rest =>
      let written := logged refused disk write.1 write.2
      if written.1 then loggedEach refused written.2 rest else written

def logDevice (refused : Option Nat) : Device (List (Nat × List UInt8)) where
  size := 1024 * 1024
  readAt _ _ count := some (List.replicate count 0)
  writeAt := logged refused
  writeBatch := loggedEach refused
  sync disk := (true, disk)
  readAt_length := fun _ _ _ _ read => by simp [← Option.some.inj read]

theorem loggedEach_eq (refused : Option Nat) (disk writes : List (Nat × List UInt8)) :
    (logDevice refused).writeEach disk writes = loggedEach refused disk writes := by
  induction writes generalizing disk with
  | nil => rfl
  | cons write rest inductionHypothesis =>
      rw [Device.writeEach, inductionHypothesis]
      rfl

/-- The default batches of the trait keep its promise. -/
theorem logDevice_ordered (refused : Option Nat) : (logDevice refused).Ordered :=
  ⟨fun disk writes _ => loggedEach_eq refused disk writes, fun disk writes _ =>
    ⟨writes.length, by
      rw [List.take_length]
      exact congrArg Prod.snd (loggedEach_eq refused disk writes).symm⟩⟩

/-- A pool that finishes the reads in their order. -/
def inOrder (Disk : Type) : Pool Disk := fun _ requests => List.range requests.length

/-- Guest memory with the headers of two writes and an unset status byte. -/
def guestMemory : Memory where
  checkRange address count _ := address + count ≤ 65536
  bytes place := if place = 0 ∨ place = 16 ∨ place = 24 then 1 else if place = 64 then 255 else 0

def guestRound : Round (List (Nat × List UInt8)) where
  disk := []
  memory := guestMemory

/-- A write to the first sector. -/
def firstWrite : Chain where
  head := 0
  descriptors := [⟨0, 16, false, true⟩, ⟨1024, 512, false, true⟩, ⟨64, 1, true, false⟩]

/-- A write to the second sector with its payload at an address. -/
def secondWrite (payload : Nat) : Chain where
  head := 3
  descriptors := [⟨16, 16, false, true⟩, ⟨payload, 512, false, true⟩, ⟨32, 1, true, false⟩]

/-- What serving the chains of the round one at a time leaves. -/
def oneByOne (refused : Option Nat) (chains : List Chain) :
    Option (Round (List (Nat × List UInt8))) :=
  (popped (logDevice refused) guestRound chains).toOption.map fun requests =>
    requests.foldl (serveOne (logDevice refused)) guestRound

/-- What `processQueue` leaves of it. -/
def together (refused : Option Nat) (chains : List Chain) :
    Option (Round (List (Nat × List UInt8))) :=
  (processQueue (logDevice refused) (inOrder _) guestRound chains).toOption.map Prod.snd

/-- A write whose payload holds the status byte of an earlier one, a write that fails after one
that does not, and a chain without descriptors. -/
theorem together_ne_oneByOne :
    (together none [firstWrite, secondWrite 64]).map (fun round => round.disk) ≠
        (oneByOne none [firstWrite, secondWrite 64]).map (fun round => round.disk) ∧
      (together (some 512) [firstWrite, secondWrite 2048]).map (fun round => round.memory.bytes 64) =
        some 1 ∧
      (oneByOne (some 512) [firstWrite, secondWrite 2048]).map (fun round => round.memory.bytes 64) =
        some 0 ∧
      processQueue (logDevice none) (inOrder _) guestRound [firstWrite, ⟨6, []⟩] =
        .error (.other "Invalid block descriptor count", guestRound) := by
  refine ⟨by decide +kernel, by decide +kernel, by decide +kernel, rfl⟩

theorem processQueue_serves_two_writes :
    ∃ final groups, processQueue (logDevice none) (inOrder _) guestRound
        [firstWrite, secondWrite 2048] = .ok (true, final) ∧
      Served (logDevice none) guestRound groups final ∧ final.used.map Prod.fst = [0, 3] := by
  have serves := processQueue_serves (logDevice_ordered none) (fun _ _ => .refl _ : (inOrder _).Complete)
    guestRound [firstWrite, secondWrite 2048]
  have valid : popped (logDevice none) guestRound [firstWrite, secondWrite 2048] = .ok [
      { head := 0, status := 64, kind := 1, offset := 0, segments := [(1024, 512)], length := 512 },
      { head := 3, status := 32, kind := 1, offset := 512, segments := [(2048, 512)],
        length := 512 }] := rfl
  rw [valid] at serves
  obtain ⟨final, served⟩ := serves.2.2 fun writes member => by
    obtain rfl := Group.writes.inj (List.mem_singleton.mp member)
    simp [Apart, Request.Covers]
  exact ⟨final, _, served⟩

end Cairn.Storage.BlockQueue

import Cairn.Library.Results
import Cairn.Storage.BlockQueue

/-!
Owns the groups of a round and what they do: `processQueue` runs the groups one after the
other, and each leaves what serving its requests one at a time leaves, but for a group of
writes whose batch fails.

Does not own the queue.
-/

set_option autoImplicit false

namespace Cairn.Storage.BlockQueue

open Cairn.Library.Results

variable {Disk : Type}

/-! ### One request at a time -/

/-- The bytes of the segments of a request. -/
def gathered (memory : Memory) (segments : List (Nat × Nat)) : List UInt8 :=
  segments.flatMap fun segment => memory.slice segment.1 segment.2

/-- The memory once the bytes are in the segments. -/
def scattered (memory : Memory) : List (Nat × Nat) → List UInt8 → Memory
  | [], _ => memory
  | (address, count) :: rest, bytes =>
      scattered (memory.set address (bytes.take count)) rest (bytes.drop count)

/-- A completion. -/
def Round.finish (round : Round Disk) (request : Request) (status : UInt8) (used : Nat) :
    Round Disk :=
  { round with
    memory := round.memory.set request.status [status]
    used := round.used ++ [(request.head, used)] }

/-- The write of a request. -/
def Request.write (memory : Memory) (request : Request) : Nat × List UInt8 :=
  (request.offset, gathered memory request.segments)

/-- A request on its own. -/
def serveOne (device : Device Disk) (round : Round Disk) (request : Request) : Round Disk :=
  if request.kind = 0 then
    match device.readAt round.disk request.offset request.length with
    | some bytes =>
        let memory := scattered round.memory request.segments bytes
        Round.finish { round with memory } request 0 (request.length + 1)
    | none => round.finish request 1 1
  else if request.kind = 1 then
    let written := device.writeAt round.disk request.offset (gathered round.memory request.segments)
    Round.finish { round with disk := written.2 } request (if written.1 then 0 else 1) 1
  else if request.kind = 4 then
    let synced := device.sync round.disk
    Round.finish { round with disk := synced.2 } request (if synced.1 then 0 else 1) 1
  else round.finish request 2 1

/-! ### Groups -/

/-- A group of requests that are served together. -/
inductive Group where
  | writes (requests : List Request)
  | reads (requests : List Request)
  | other (request : Request)

/-- The requests of a group. -/
def Group.requests : Group → List Request
  | .writes requests => requests
  | .reads requests => requests
  | .other request => [request]

/-- The lengths of requests. -/
def totalLength (requests : List Request) : Nat := (requests.map Request.length).sum

/-- The group of the writes that were collected. -/
def ofWrites (requests : List Request) : List Group :=
  if requests.isEmpty then [] else [.writes requests]

/-- The group of the reads that were collected. -/
def ofReads (requests : List Request) : List Group :=
  if requests.isEmpty then [] else [.reads requests]

/-- The groups of the requests after the writes and the reads that were collected. -/
def grouped : List Request → List Request → List Request → List Group
  | pending, reads, [] => ofReads reads ++ ofWrites pending
  | pending, reads, request :: rest =>
      if request.kind = 0 then
        ofWrites pending ++
          if concurrency ≤ reads.length ∨ maxBytes < totalLength reads + request.length then
            ofReads reads ++ grouped [] [request] rest
          else grouped [] (reads ++ [request]) rest
      else if request.kind = 1 then
        ofReads reads ++
          if maxBytes < totalLength pending + request.length then
            ofWrites pending ++ grouped [request] [] rest
          else grouped (pending ++ [request]) [] rest
      else ofReads reads ++ ofWrites pending ++ .other request :: grouped [] [] rest

/-- The groups of a round. -/
def schedule (requests : List Request) : List Group := grouped [] [] requests

theorem ofWrites_requests (requests : List Request) :
    (ofWrites requests).flatMap Group.requests = requests := by
  cases requests <;> simp [ofWrites, Group.requests]

theorem ofReads_requests (requests : List Request) :
    (ofReads requests).flatMap Group.requests = requests := by
  cases requests <;> simp [ofReads, Group.requests]

/-- The groups hold the requests in their order. -/
theorem grouped_requests {pending reads requests : List Request} (one : pending = [] ∨ reads = []) :
    (grouped pending reads requests).flatMap Group.requests = pending ++ reads ++ requests := by
  induction requests generalizing pending reads with
  | nil =>
      rw [grouped, List.flatMap_append, ofReads_requests, ofWrites_requests]
      rcases one with rfl | rfl <;> simp
  | cons request rest inductionHypothesis =>
      unfold grouped
      by_cases isRead : request.kind = 0
      · rw [if_pos isRead, List.flatMap_append, ofWrites_requests]
        split
        · rw [List.flatMap_append, ofReads_requests, inductionHypothesis (.inl rfl)]
          simp
        · rw [inductionHypothesis (.inl rfl)]
          simp
      · rw [if_neg isRead]
        by_cases isWrite : request.kind = 1
        · rw [if_pos isWrite, List.flatMap_append, ofReads_requests]
          split
          · rw [List.flatMap_append, ofWrites_requests, inductionHypothesis (.inr rfl)]
            rcases one with rfl | rfl <;> simp
          · rw [inductionHypothesis (.inr rfl)]
            rcases one with rfl | rfl <;> simp
        · rw [if_neg isWrite, List.flatMap_append, List.flatMap_append, ofReads_requests,
            ofWrites_requests, List.flatMap_cons, inductionHypothesis (.inl rfl), Group.requests]
          rcases one with rfl | rfl <;> simp

theorem schedule_requests (requests : List Request) :
    (schedule requests).flatMap Group.requests = requests :=
  grouped_requests (.inl rfl)

/-- What a group may hold. -/
def Group.Bounded : Group → Prop
  | .writes requests => requests ≠ [] ∧ totalLength requests ≤ maxBytes ∧
      ∀ request ∈ requests, request.kind = 1
  | .reads requests => requests ≠ [] ∧ totalLength requests ≤ maxBytes ∧
      requests.length ≤ concurrency ∧ ∀ request ∈ requests, request.kind = 0
  | .other request => request.kind ≠ 0 ∧ request.kind ≠ 1

theorem totalLength_append (requests : List Request) (request : Request) :
    totalLength (requests ++ [request]) = totalLength requests + request.length := by
  simp [totalLength]

/-- What was collected so far is within the bounds. -/
structure Collected (pending reads : List Request) : Prop where
  areWrites : ∀ request ∈ pending, request.kind = 1
  areReads : ∀ request ∈ reads, request.kind = 0
  writeBytes : totalLength pending ≤ maxBytes
  readBytes : totalLength reads ≤ maxBytes
  readCount : reads.length ≤ concurrency

theorem Collected.ofWrites {pending reads : List Request} (collected : Collected pending reads) :
    ∀ group ∈ BlockQueue.ofWrites pending, group.Bounded := by
  unfold BlockQueue.ofWrites
  split
  · simp
  · rename_i some
    rintro group member
    obtain rfl := List.mem_singleton.mp member
    exact ⟨by simpa using some, collected.writeBytes, collected.areWrites⟩

theorem Collected.ofReads {pending reads : List Request} (collected : Collected pending reads) :
    ∀ group ∈ BlockQueue.ofReads reads, group.Bounded := by
  unfold BlockQueue.ofReads
  split
  · simp
  · rename_i some
    rintro group member
    obtain rfl := List.mem_singleton.mp member
    exact ⟨by simpa using some, collected.readBytes, collected.readCount, collected.areReads⟩

theorem Collected.none : Collected [] [] :=
  ⟨by simp, by simp, by simp [totalLength], by simp [totalLength], by simp⟩

/-- Every group is within the bounds if every request is. -/
theorem grouped_bounded {pending reads requests : List Request}
    (collected : Collected pending reads)
    (short : ∀ request ∈ requests, request.length ≤ maxBytes) :
    ∀ group ∈ grouped pending reads requests, group.Bounded := by
  induction requests generalizing pending reads with
  | nil =>
      intro group member
      rcases List.mem_append.mp member with read | written
      · exact collected.ofReads group read
      · exact collected.ofWrites group written
  | cons request rest inductionHypothesis =>
      have fits := short request List.mem_cons_self
      have next : ∀ pending reads, Collected pending reads →
          ∀ group ∈ grouped pending reads rest, group.Bounded := fun _ _ collected =>
        inductionHypothesis collected fun request member =>
          short request (List.mem_cons_of_mem _ member)
      intro group member
      unfold grouped at member
      by_cases isRead : request.kind = 0
      · rw [if_pos isRead] at member
        rcases List.mem_append.mp member with written | member
        · exact collected.ofWrites group written
        · split at member
          · rcases List.mem_append.mp member with read | member
            · exact collected.ofReads group read
            · refine next [] [request] ⟨by simp, by simp [isRead], by simp [totalLength], ?_, ?_⟩
                group member
              · simpa [totalLength] using fits
              · simp [concurrency]
          · rename_i room
            refine next [] (reads ++ [request]) ⟨by simp, fun other known => ?_,
              by simp [totalLength], ?_, ?_⟩ group member
            · rcases List.mem_append.mp known with known | last
              · exact collected.areReads other known
              · exact (List.mem_singleton.mp last) ▸ isRead
            · rw [totalLength_append]
              omega
            · rw [List.length_append, List.length_singleton]
              omega
      · rw [if_neg isRead] at member
        by_cases isWrite : request.kind = 1
        · rw [if_pos isWrite] at member
          rcases List.mem_append.mp member with read | member
          · exact collected.ofReads group read
          · split at member
            · rcases List.mem_append.mp member with written | member
              · exact collected.ofWrites group written
              · refine next [request] [] ⟨by simp [isWrite], by simp, ?_, by simp [totalLength],
                  by simp⟩ group member
                simpa [totalLength] using fits
            · rename_i room
              refine next (pending ++ [request]) [] ⟨fun other known => ?_, by simp, ?_,
                by simp [totalLength], by simp⟩ group member
              · rcases List.mem_append.mp known with known | last
                · exact collected.areWrites other known
                · exact (List.mem_singleton.mp last) ▸ isWrite
              · rw [totalLength_append]
                omega
        · rw [if_neg isWrite] at member
          rcases List.mem_append.mp member with collected' | member
          · rcases List.mem_append.mp collected' with read | written
            · exact collected.ofReads group read
            · exact collected.ofWrites group written
          · rcases List.mem_cons.mp member with rfl | member
            · exact ⟨isRead, isWrite⟩
            · exact next [] [] .none group member

end Cairn.Storage.BlockQueue

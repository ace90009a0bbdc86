import Cairn.Library.LittleEndian
import Mathlib.Data.List.Basic

/-!
Owns the model of `storage/vhost.rs`: the requests of a block queue, the groups their reads
and writes are collected in, and the completions.

The chains are what the queue yields, the memory is that of the guest behind its range
checks, and a disk is any implementation of the trait. Notifications are left out, and so
are threads that cannot be started or panic.

Does not own the order in which requests take effect.
-/

set_option autoImplicit false

namespace Cairn.Storage.BlockQueue

open Cairn.Library.LittleEndian

def maxBytes : Nat := 8 * 1024 * 1024

def maxRequests : Nat := 128

def concurrency : Nat := 16

/-- An error of the backend; the guest memory has its own. -/
inductive Failure where
  | other (message : String)
  | invalidInput (message : String)
  | memory
deriving DecidableEq, Repr

/-! ### Guest memory -/

/-- Guest memory: which ranges can be read or written, and the bytes. -/
structure Memory where
  checkRange : Nat → Nat → Bool → Bool
  bytes : Nat → UInt8

/-- The bytes of a range. -/
def Memory.slice (memory : Memory) (address count : Nat) : List UInt8 :=
  (List.range count).map fun index => memory.bytes (address + index)

/-- The memory with a range overwritten. -/
def Memory.set (memory : Memory) (address : Nat) (bytes : List UInt8) : Memory :=
  { memory with
    bytes := fun place =>
      if place < address then memory.bytes place
      else (bytes[place - address]?).getD (memory.bytes place) }

/-- `read_slice`. -/
def Memory.readSlice (memory : Memory) (address count : Nat) : Except Failure (List UInt8) :=
  if memory.checkRange address count false then .ok (memory.slice address count)
  else .error .memory

/-- `write_slice`. -/
def Memory.writeSlice (memory : Memory) (address : Nat) (bytes : List UInt8) :
    Except Failure Memory :=
  if memory.checkRange address bytes.length true then .ok (memory.set address bytes)
  else .error .memory

/-! ### Requests -/

structure Descriptor where
  address : Nat
  length : Nat
  writeOnly : Bool
  hasNext : Bool
deriving DecidableEq, Repr

/-- A descriptor chain with the descriptors it yields. -/
structure Chain where
  head : Nat
  descriptors : List Descriptor
deriving DecidableEq, Repr

structure Request where
  head : Nat
  status : Nat
  kind : Nat
  offset : Nat
  segments : List (Nat × Nat)
  length : Nat
  bytes : List UInt8 := []
deriving DecidableEq, Repr

/-- `device::range`. -/
def checkAccess (size offset length : Nat) : Except Failure Unit :=
  if offset + length < 2 ^ 64 ∧ offset + length ≤ size then .ok ()
  else .error (.invalidInput "Disk access exceeds its size")

/-- A payload descriptor in the loop of `Request::parse`. -/
def parseSegment (memory : Memory) (kind : Nat) (parsed : List (Nat × Nat) × Nat)
    (descriptor : Descriptor) : Except Failure (List (Nat × Nat) × Nat) :=
  if ((kind = 0 ∨ kind = 8) ∧ ¬ descriptor.writeOnly) ∨ (kind = 1 ∧ descriptor.writeOnly) then
    .error (.other "Invalid block payload direction")
  else if ¬ memory.checkRange descriptor.address descriptor.length descriptor.writeOnly then
    .error (.other "Invalid block payload address")
  else if maxBytes < parsed.2 + descriptor.length then
    .error (.other "Block request exceeds byte limit")
  else
    .ok (parsed.1 ++ [(descriptor.address, descriptor.length)], parsed.2 + descriptor.length)

/-- The tests of `Request::parse` on the size of a request. -/
def checkLength (size kind offset length : Nat) : Except Failure Unit :=
  if kind = 0 ∨ kind = 1 then do
    checkAccess size offset length
    if length = 0 ∨ length % 512 ≠ 0 then .error (.other "Invalid block request alignment")
    else .ok ()
  else if kind = 4 ∧ length ≠ 0 then .error (.other "Flush request has a payload")
  else .ok ()

/-- `Request::parse` once the header and the status descriptor were found. -/
def parseHeader (memory : Memory) (size head : Nat) (header status : Descriptor)
    (payload : List Descriptor) : Except Failure Request :=
  if header.writeOnly ∨ header.length < 16 ∨ ¬ status.writeOnly ∨ status.length ≠ 1 ∨
      status.hasNext ∨ ¬ memory.checkRange status.address 1 true then
    .error (.other "Invalid block header or status descriptor")
  else do
    let raw ← memory.readSlice header.address 16
    let kind := decode (raw.take 4)
    let offset := decode (raw.drop 8) * 512
    if 2 ^ 64 ≤ offset then .error (.other "Block sector overflow")
    else do
      let parsed ← payload.foldlM (parseSegment memory kind) ([], 0)
      checkLength size kind offset parsed.2
      .ok { head, status := status.address, kind, offset, segments := parsed.1, length := parsed.2 }

/-- `Request::parse`. -/
def parse (memory : Memory) (size : Nat) (chain : Chain) : Except Failure Request :=
  match chain.descriptors.take (maxRequests + 3) with
  | header :: second :: more =>
      if maxRequests < more.length then .error (.other "Invalid block descriptor count")
      else
        parseHeader memory size chain.head header (more.getLastD second) (second :: more).dropLast
  | _ => .error (.other "Invalid block descriptor count")

/-- The bytes of the segments of a request. -/
def gather (memory : Memory) : List (Nat × Nat) → Except Failure (List UInt8)
  | [] => .ok []
  | (address, count) :: rest => do
      let bytes ← memory.readSlice address count
      let more ← gather memory rest
      .ok (bytes ++ more)

/-- `load_payload`. -/
def loadPayload (memory : Memory) (request : Request) : Except Failure Request :=
  if request.kind = 1 then
    (gather memory request.segments).map fun bytes => { request with bytes }
  else .ok { request with bytes := List.replicate request.length 0 }

/-- Copy what was read into the segments of a request. -/
def scatter (memory : Memory) : List (Nat × Nat) → List UInt8 → Except (Failure × Memory) Memory
  | [], _ => .ok memory
  | (address, count) :: rest, bytes =>
      match memory.writeSlice address (bytes.take count) with
      | .error failure => .error (failure, memory)
      | .ok memory => scatter memory rest (bytes.drop count)

/-! ### Disks -/

/-- The operations of a disk. A read that succeeds fills its buffer. -/
structure Device (Disk : Type) where
  size : Nat
  readAt : Disk → Nat → Nat → Option (List UInt8)
  writeAt : Disk → Nat → List UInt8 → Bool × Disk
  writeBatch : Disk → List (Nat × List UInt8) → Bool × Disk
  sync : Disk → Bool × Disk
  readAt_length : ∀ disk offset count bytes, readAt disk offset count = some bytes →
    bytes.length = count

variable {Disk : Type}

/-- The default `write_batch`: one write after the other, up to one that fails. -/
def Device.writeEach (device : Device Disk) (disk : Disk) :
    List (Nat × List UInt8) → Bool × Disk
  | [] => (true, disk)
  | write :: rest =>
      let written := device.writeAt disk write.1 write.2
      if written.1 then device.writeEach written.2 rest else written

/-! ### Rounds -/

/-- The disk, the guest memory and the used ring. -/
structure Round (Disk : Type) where
  disk : Disk
  memory : Memory
  used : List (Nat × Nat) := []

/-- What a step of a round leaves, also when it fails. -/
abbrev Outcome (Disk : Type) (Value : Type) := Except (Failure × Round Disk) Value

/-- `complete`. -/
def complete (status : UInt8) (used : Nat) (round : Round Disk) (request : Request) :
    Outcome Disk (Round Disk) :=
  match round.memory.writeSlice request.status [status] with
  | .error failure => .error (failure, round)
  | .ok memory => .ok { round with memory, used := round.used ++ [(request.head, used)] }

/-- `write_group`. -/
def writeGroup (device : Device Disk) (round : Round Disk) (requests : List Request) :
    Outcome Disk (Round Disk) :=
  if requests.isEmpty then .ok round
  else
    let written := device.writeBatch round.disk
      (requests.map fun request => (request.offset, request.bytes))
    requests.foldlM (complete (if written.1 then 0 else 1) 1) { round with disk := written.2 }

/-- A read of the pool. -/
def readRequest (device : Device Disk) (disk : Disk) (request : Request) : Request × Bool :=
  match device.readAt disk request.offset request.length with
  | some bytes => ({ request with bytes }, true)
  | none => (request, false)

/-- The outcomes of the reads, put in place in the order in which the pool finishes them. -/
def collect (device : Device Disk) (disk : Disk) (requests : List Request) (order : List Nat) :
    List (Option (Request × Bool)) :=
  order.foldl (fun outcomes index =>
      outcomes.set index ((requests[index]?).map (readRequest device disk)))
    (List.replicate requests.length none)

/-- `reads::execute`. -/
def execute (device : Device Disk) (disk : Disk) (requests : List Request) (order : List Nat) :
    Except Failure (List (Request × Bool)) :=
  match requests with
  | [request] => .ok [readRequest device disk request]
  | requests => (collect device disk requests order).mapM fun outcome =>
      match outcome with
      | some outcome => .ok outcome
      | none => .error (.other "Disk read worker stopped")

/-- A finished read in the loop of `read_group`. -/
def completeRead (round : Round Disk) (outcome : Request × Bool) : Outcome Disk (Round Disk) :=
  if outcome.2 then
    match scatter round.memory outcome.1.segments outcome.1.bytes with
    | .error (failure, memory) => .error (failure, { round with memory })
    | .ok memory => complete 0 (outcome.1.bytes.length + 1) { round with memory } outcome.1
  else complete 1 1 round outcome.1

/-- The order in which the pool finishes the reads of a group. -/
abbrev Pool (Disk : Type) := Round Disk → List Request → List Nat

/-- `read_group`. -/
def readGroup (device : Device Disk) (pool : Pool Disk) (round : Round Disk)
    (requests : List Request) : Outcome Disk (Round Disk) :=
  if requests.isEmpty then .ok round
  else
    match execute device round.disk requests (pool round requests) with
    | .error failure => .error (failure, round)
    | .ok outcomes => outcomes.foldlM completeRead round

/-- The loop state of `process_queue`. -/
structure Progress (Disk : Type) where
  round : Round Disk
  pending : List Request := []
  pendingBytes : Nat := 0
  reads : List Request := []
  readBytes : Nat := 0

/-- The reads of a loop state, completed if another one would be too many. -/
def Progress.roomForRead (device : Device Disk) (pool : Pool Disk) (progress : Progress Disk)
    (request : Request) : Outcome Disk (Progress Disk) :=
  if concurrency ≤ progress.reads.length ∨ maxBytes < progress.readBytes + request.length then
    (readGroup device pool progress.round progress.reads).map fun round =>
      { progress with round, reads := [], readBytes := 0 }
  else .ok progress

/-- The writes of a loop state, completed if another one would be too many. -/
def Progress.roomForWrite (device : Device Disk) (progress : Progress Disk) (request : Request) :
    Outcome Disk (Progress Disk) :=
  if maxBytes < progress.pendingBytes + request.length then
    (writeGroup device progress.round progress.pending).map fun round =>
      { progress with round, pending := [], pendingBytes := 0 }
  else .ok progress

/-- `load_payload` in the loop of `process_queue`. -/
def Progress.load (progress : Progress Disk) (request : Request) : Outcome Disk Request :=
  (loadPayload progress.round.memory request).mapError fun failure => (failure, progress.round)

/-- A flush, or a request that is not supported. -/
def serveOther (device : Device Disk) (round : Round Disk) (request : Request) :
    Outcome Disk (Round Disk) :=
  if request.kind = 4 then
    let synced := device.sync round.disk
    complete (if synced.1 then 0 else 1) 1 { round with disk := synced.2 } request
  else complete 2 1 round request

/-- A read in the loop of `process_queue`. -/
def takeRead (device : Device Disk) (pool : Pool Disk) (progress : Progress Disk)
    (request : Request) : Outcome Disk (Progress Disk) := do
  let round ← writeGroup device progress.round progress.pending
  let written : Progress Disk := { progress with round, pending := [], pendingBytes := 0 }
  let progress ← written.roomForRead device pool request
  let loaded ← progress.load request
  .ok { progress with
    reads := progress.reads ++ [loaded], readBytes := progress.readBytes + request.length }

/-- A write in the loop of `process_queue`. -/
def takeWrite (device : Device Disk) (pool : Pool Disk) (progress : Progress Disk)
    (request : Request) : Outcome Disk (Progress Disk) := do
  let round ← readGroup device pool progress.round progress.reads
  let read : Progress Disk := { progress with round, reads := [], readBytes := 0 }
  let progress ← read.roomForWrite device request
  let loaded ← progress.load request
  .ok { progress with
    pending := progress.pending ++ [loaded],
    pendingBytes := progress.pendingBytes + request.length }

/-- Any other request in the loop of `process_queue`. -/
def takeOther (device : Device Disk) (pool : Pool Disk) (progress : Progress Disk)
    (request : Request) : Outcome Disk (Progress Disk) := do
  let round ← readGroup device pool progress.round progress.reads
  let round ← writeGroup device round progress.pending
  let round ← serveOther device round request
  .ok { round }

/-- The loop of `process_queue`. -/
def take (device : Device Disk) (pool : Pool Disk) (progress : Progress Disk)
    (request : Request) : Outcome Disk (Progress Disk) :=
  if request.kind = 0 then takeRead device pool progress request
  else if request.kind = 1 then takeWrite device pool progress request
  else takeOther device pool progress request

/-- The end of `process_queue`. -/
def Progress.finish (device : Device Disk) (pool : Pool Disk) (progress : Progress Disk) :
    Outcome Disk (Round Disk) := do
  let round ← readGroup device pool progress.round progress.reads
  writeGroup device round progress.pending

/-- The requests `process_queue` pops: up to the bound, or an invalid one. -/
def popped (device : Device Disk) (round : Round Disk) (chains : List Chain) :
    Except Failure (List Request) :=
  (chains.take maxRequests).mapM (parse round.memory device.size)

/-- `process_queue`: whether there were requests, and what it leaves. -/
def processQueue (device : Device Disk) (pool : Pool Disk) (round : Round Disk)
    (chains : List Chain) : Except (Failure × Round Disk) (Bool × Round Disk) :=
  match popped device round chains with
  | .error failure => .error (failure, round)
  | .ok [] => .ok (false, round)
  | .ok requests => do
      let progress ← requests.foldlM (take device pool) { round }
      let round ← progress.finish device pool
      .ok (true, round)

end Cairn.Storage.BlockQueue

import Mathlib.Data.List.Flatten
import Cairn.Nodes.Snapshots

/-!
Owns `Fetch` of `nodes/snapshots.rs`: the ordered transfer of a snapshot's blocks from a
peer, in batches where the peer supports them and block by block otherwise.

A peer may answer every request differently, so its answers depend on the number of the
request. A transfer that stays idle too long ends like one that is cut.
-/

set_option autoImplicit false

namespace Cairn.Nodes.Snapshots

open Cairn.Library.Results
open Cairn.Storage.Lazy (Bytes Identities blockBytes)

/-- The endpoints for batches. -/
inductive Endpoint where
  | publication
  | blocks
deriving DecidableEq, Repr

/-- What a response carries: how its body ends, and the body up to there. -/
structure Answer where
  status : Nat
  contentLength : Option Nat
  body : Bytes
  interrupted : Bool
deriving DecidableEq, Repr

/-- The statuses after which an older endpoint is asked. -/
def Answer.unsupported (answer : Answer) : Bool :=
  answer.status = 404 ∨ answer.status = 405 ∨ answer.status = 503

/-- `StatusCode::is_success`. -/
def Answer.success (answer : Answer) : Bool := 200 ≤ answer.status ∧ answer.status < 300

/-- A peer: its answers to the requests, by their number; nothing where the transfer fails
before a response. -/
structure Peer (Hash : Type) where
  post : Nat → Endpoint → List Hash → Option Answer
  get : Nat → Hash → Option Answer

/-- The rest of a batch response. -/
structure Stream where
  body : Bytes
  interrupted : Bool
deriving DecidableEq, Repr

/-- `Fetch`, and the number of requests it has sent. -/
structure Fetch (Hash : Type) where
  pending : List (Hash × Nat)
  stream : Option Stream
  remaining : Nat
  legacy : Bool
  publication : Bool
  publicationBatch : Nat
  requests : Nat

/-- `READ_BATCH`. -/
def readBatch : Nat := 8

/-- `PUBLICATION_BATCH`. -/
def publicationBatch : Nat := 8

/-- `MAX_PUBLICATION_BLOCKS`. -/
def maxPublicationBlocks : Nat := 1024 * 1024 * 1024 * 1024 / blockBytes

variable {Hash : Type}

/-- `response_block`. -/
def responseBlock (answer : Answer) : Except Error Bytes :=
  if blockBytes < answer.body.length then
    .error (Error.bad "Backup block exceeds its maximum size.")
  else if answer.interrupted then .error Error.internal
  else .ok answer.body

namespace Fetch

/-- `new`. -/
def new (blocks : List (Hash × Nat)) : Fetch Hash where
  pending := blocks
  stream := none
  remaining := 0
  legacy := false
  publication := true
  publicationBatch := Snapshots.publicationBatch
  requests := 0

/-- `direct_publication`. -/
def directPublication (fetch : Fetch Hash) : Fetch Hash :=
  { fetch with publicationBatch := maxPublicationBlocks }

/-- The endpoint of the next batch. -/
def endpoint (fetch : Fetch Hash) : Endpoint :=
  if fetch.publication then .publication else .blocks

/-- The blocks of the next batch. -/
def batch (fetch : Fetch Hash) : List (Hash × Nat) :=
  fetch.pending.take (if fetch.publication then fetch.publicationBatch else readBatch)

/-- The loop of `block` that opens a batch. A peer without the publication endpoint is asked
for blocks, and one without either is asked for every block alone. -/
def connect (peer : Peer Hash) (fetch : Fetch Hash) : Except Error (Fetch Hash) :=
  if fetch.stream.isSome ∨ fetch.legacy then .ok fetch
  else
    match peer.post fetch.requests fetch.endpoint (fetch.batch.map Prod.fst) with
    | none => .error (Error.unavailable "Backup block transfer interrupted.")
    | some answer =>
      if answer.unsupported then
        if _publication : fetch.publication then
          connect peer { fetch with publication := false, requests := fetch.requests + 1 }
        else .ok { fetch with legacy := true, requests := fetch.requests + 1 }
      else if ¬ answer.success then .error (Error.unavailable "Backup block batch unavailable.")
      else if ∃ actual ∈ answer.contentLength, actual ≠ (fetch.batch.map Prod.snd).sum then
        .error (Error.bad "Backup block batch has the wrong size.")
      else .ok { fetch with
        remaining := fetch.batch.length
        stream := some ⟨answer.body, answer.interrupted⟩
        requests := fetch.requests + 1 }
termination_by fetch.publication.toNat
decreasing_by
  rw [_publication]
  decide

/-- The part of `block` that reads from a batch. -/
def readBlock (fetch : Fetch Hash) (stream : Stream) (size : Nat) :
    Except Error (Bytes × Fetch Hash) :=
  if stream.body.length < size then
    .error (Error.unavailable "Backup block batch interrupted.")
  else if fetch.remaining - 1 = 0 then
    if stream.body.drop size ≠ [] then
      .error (Error.bad "Backup block batch exceeds its expected size.")
    else if stream.interrupted then .error (Error.unavailable "Backup block batch interrupted.")
    else .ok (stream.body.take size, { fetch with remaining := fetch.remaining - 1, stream := none })
  else .ok (stream.body.take size, { fetch with
    remaining := fetch.remaining - 1
    stream := some { stream with body := stream.body.drop size } })

/-- The part of `block` that asks for the block alone. -/
def readAlone (peer : Peer Hash) (fetch : Fetch Hash) (hash : Hash) :
    Except Error (Bytes × Fetch Hash) :=
  match peer.get fetch.requests hash with
  | none => .error (Error.unavailable "Backup block transfer interrupted.")
  | some answer =>
    if ¬ answer.success then .error (Error.unavailable "Backup block unavailable.")
    else (fun bytes => (bytes, { fetch with requests := fetch.requests + 1 })) <$> responseBlock answer

/-- The part of `block` behind its loop. -/
def readNext (peer : Peer Hash) (fetch : Fetch Hash) (hash : Hash) (size : Nat) :
    Except Error (Bytes × Fetch Hash) :=
  match fetch.stream with
  | some stream => fetch.readBlock stream size
  | none => readAlone peer fetch hash

theorem readNext_batch {peer : Peer Hash} {fetch : Fetch Hash} {stream : Stream} (hash : Hash)
    (size : Nat) (held : fetch.stream = some stream) :
    readNext peer fetch hash size = fetch.readBlock stream size := by
  rw [readNext, held]

theorem readNext_alone {peer : Peer Hash} {fetch : Fetch Hash} (hash : Hash) (size : Nat)
    (closed : fetch.stream = none) :
    readNext peer fetch hash size = readAlone peer fetch hash := by
  rw [readNext, closed]

/-- `block`. -/
def block [DecidableEq Hash] (peer : Peer Hash) (hash : Hash) :
    StateT (Fetch Hash) (Except Error) Bytes := fun fetch =>
  match fetch.pending.head?.filter fun entry => entry.1 = hash ∧ entry.2 ≤ blockBytes with
  | none => .error (Error.bad "Unexpected snapshot block.")
  | some (_, size) => do
    let opened ← connect peer fetch
    let (bytes, next) ← readNext peer opened hash size
    .ok (bytes, { next with pending := next.pending.tail })

/-- What a returned block went through. -/
theorem block_eq_ok [DecidableEq Hash] {peer : Peer Hash} {hash : Hash} {bytes : Bytes}
    {fetch final : Fetch Hash} :
    (block peer hash).run fetch = .ok (bytes, final) ↔
      ∃ size rest opened next, fetch.pending = (hash, size) :: rest ∧ size ≤ blockBytes ∧
        connect peer fetch = .ok opened ∧ readNext peer opened hash size = .ok (bytes, next) ∧
        final = { next with pending := next.pending.tail } := by
  show block peer hash fetch = _ ↔ _
  unfold block
  constructor
  · intro returned
    split at returned
    · contradiction
    · rename_i expected size found
      obtain ⟨first, expects⟩ := Option.filter_eq_some_iff.mp found
      obtain ⟨rest, pending⟩ := List.head?_eq_some_iff.mp first
      obtain ⟨rfl, fits⟩ := of_decide_eq_true expects
      obtain ⟨opened, connected, returned⟩ := bind_eq_ok.mp returned
      obtain ⟨⟨read, next⟩, taken, returned⟩ := bind_eq_ok.mp returned
      obtain ⟨rfl, rfl⟩ := Prod.mk.inj (Except.ok.inj returned)
      exact ⟨size, rest, opened, next, pending, fits, connected, taken, rfl⟩
  · rintro ⟨size, rest, opened, next, pending, fits, connected, taken, rfl⟩
    have found : fetch.pending.head?.filter
        (fun entry => entry.1 = hash ∧ entry.2 ≤ blockBytes) = some (hash, size) := by
      rw [pending, List.head?_cons, Option.filter_some, if_pos (by simpa using fits)]
    rw [found]
    exact bind_eq_ok.mpr ⟨opened, connected, bind_eq_ok.mpr ⟨_, taken, rfl⟩⟩

/-! ### Opening a batch -/

/-- The blocks that a number of entries stand for. -/
def contentsOf (contentOf : Hash → Bytes) (blocks : List (Hash × Nat)) : List Bytes :=
  blocks.map fun entry => contentOf entry.1

theorem contentsOf_append (contentOf : Hash → Bytes) (first second : List (Hash × Nat)) :
    contentsOf contentOf (first ++ second) =
      contentsOf contentOf first ++ contentsOf contentOf second :=
  List.map_append

/-- What an opened transfer reads next: the batch it had, blocks alone, or a new batch. -/
inductive Opened (peer : Peer Hash) (fetch : Fetch Hash) : Fetch Hash → Prop where
  | kept {stream : Stream} (open_already : fetch.stream = some stream) : Opened peer fetch fetch
  | alone {opened : Fetch Hash} (closed : fetch.stream = none) (none_open : opened.stream = none)
      (pending : opened.pending = fetch.pending)
      (batch : opened.publicationBatch = fetch.publicationBatch) : Opened peer fetch opened
  | batched {opened : Fetch Hash} {number count : Nat} {endpoint : Endpoint} {answer : Answer}
      (closed : fetch.stream = none) (positive : 0 < count)
      (answered : peer.post number endpoint ((fetch.pending.take count).map Prod.fst) = some answer)
      (success : answer.success)
      (stream : opened.stream = some ⟨answer.body, answer.interrupted⟩)
      (remaining : opened.remaining = (fetch.pending.take count).length)
      (pending : opened.pending = fetch.pending)
      (batch : opened.publicationBatch = fetch.publicationBatch) : Opened peer fetch opened

theorem connect_opened {peer : Peer Hash} {fetch opened : Fetch Hash}
    (batched : 0 < fetch.publicationBatch) (connected : connect peer fetch = .ok opened) :
    Opened peer fetch opened := by
  have closed : ∀ fetch : Fetch Hash, ¬ (fetch.stream.isSome ∨ fetch.legacy) → fetch.stream = none :=
    fun fetch unready => Option.not_isSome_iff_eq_none.mp fun held => unready (.inl held)
  fun_induction connect peer fetch with
  | case1 fetch ready =>
      obtain rfl := Except.ok.inj connected
      cases held : fetch.stream with
      | some stream => exact .kept held
      | none => exact .alone held held rfl rfl
  | case2 => contradiction
  | case3 fetch unready answer _ _ _ inductionHypothesis =>
      cases inductionHypothesis batched connected with
      | kept held =>
          rw [show fetch.stream = some _ from held] at unready
          exact absurd (.inl rfl) unready
      | alone before after pending batch => exact .alone before after pending batch
      | batched before positive answered success stream remaining pending batch =>
          exact .batched before positive answered success stream remaining pending batch
  | case4 fetch unready answer _ _ _ =>
      obtain rfl := Except.ok.inj connected
      exact .alone (closed fetch unready) (closed fetch unready) rfl rfl
  | case5 => contradiction
  | case6 => contradiction
  | case7 fetch unready answer answered _ success _ =>
      obtain rfl := Except.ok.inj connected
      have positive : 0 < if fetch.publication then fetch.publicationBatch else readBatch := by
        split
        · exact batched
        · decide
      exact .batched (closed fetch unready) positive answered (by simpa using success) rfl rfl rfl rfl

/-- What a transfer expects of its blocks: their contents have the sizes it knows. -/
def Sized (contentOf : Hash → Bytes) (blocks : List (Hash × Nat)) : Prop :=
  ∀ entry ∈ blocks, (contentOf entry.1).length = entry.2

theorem Sized.length_contentsOf {contentOf : Hash → Bytes} {blocks : List (Hash × Nat)}
    (sized : Sized contentOf blocks) :
    (contentsOf contentOf blocks).map List.length = blocks.map Prod.snd := by
  rw [contentsOf, List.map_map]
  exact List.map_congr_left sized

/-! ### Peers -/

/-- **A peer that serves blocks.** Every batch is answered whole, or refused as unsupported,
and every block asked for alone is served. Which of the two a batch meets may change with
every request. -/
structure Serving (contentOf : Hash → Bytes) (blocks : List (Hash × Nat)) (peer : Peer Hash) :
    Prop where
  post : ∀ number endpoint asked, asked ⊆ blocks →
    ∃ answer, peer.post number endpoint (asked.map Prod.fst) = some answer ∧
      (answer.unsupported ∨ answer.success ∧ answer.interrupted = false ∧
        answer.body = (contentsOf contentOf asked).flatten ∧
        ∀ actual ∈ answer.contentLength, actual = answer.body.length)
  get : ∀ number, ∀ entry ∈ blocks, ∃ answer, peer.get number entry.1 = some answer ∧
    answer.success ∧ answer.interrupted = false ∧ answer.body = contentOf entry.1

/-- **A peer that alters nothing.** A batch it answers may miss entries and may be cut
anywhere, and it may fail or refuse any request; the bytes that arrive are those of the
blocks, in their order. -/
structure Honest (contentOf : Hash → Bytes) (blocks : List (Hash × Nat)) (peer : Peer Hash) :
    Prop where
  post : ∀ number endpoint asked answer, asked ⊆ blocks →
    peer.post number endpoint (asked.map Prod.fst) = some answer → answer.success →
      answer.body.Sublist (contentsOf contentOf asked).flatten
  get : ∀ number answer, ∀ entry ∈ blocks, peer.get number entry.1 = some answer →
    answer.success → answer.interrupted = false → answer.body = contentOf entry.1

theorem Answer.supported_of_success {answer : Answer} (success : answer.success) :
    answer.unsupported = false := by
  simp only [Answer.success, Bool.decide_and, Bool.and_eq_true, decide_eq_true_eq] at success
  simp only [Answer.unsupported, decide_eq_false_iff_not]
  omega

/-- A serving peer's batches open. -/
theorem connect_ok {contentOf : Hash → Bytes} {blocks : List (Hash × Nat)} {peer : Peer Hash}
    (serving : Serving contentOf blocks peer) (sized : Sized contentOf blocks)
    {fetch : Fetch Hash} (known : fetch.pending ⊆ blocks) :
    ∃ opened, connect peer fetch = .ok opened := by
  have served : ∀ fetch : Fetch Hash, fetch.pending ⊆ blocks →
      ∃ answer, peer.post fetch.requests fetch.endpoint (fetch.batch.map Prod.fst) = some answer ∧
        (answer.unsupported ∨ answer.success ∧
          ∀ actual ∈ answer.contentLength, actual = (fetch.batch.map Prod.snd).sum) := by
    intro fetch known
    have asked : fetch.batch ⊆ blocks := fun entry member => known (List.mem_of_mem_take member)
    obtain ⟨answer, answered, refused | ⟨success, _, body, length⟩⟩ :=
      serving.post fetch.requests fetch.endpoint fetch.batch asked
    · exact ⟨answer, answered, .inl refused⟩
    · refine ⟨answer, answered, .inr ⟨success, fun actual given => ?_⟩⟩
      have sized_batch : Sized contentOf fetch.batch := fun entry member => sized entry (asked member)
      rw [length actual given, body, List.length_flatten, sized_batch.length_contentsOf]
  fun_induction connect peer fetch with
  | case1 fetch ready => exact ⟨fetch, rfl⟩
  | case2 fetch _ unanswered =>
      obtain ⟨answer, answered, _⟩ := served fetch known
      rw [unanswered] at answered
      contradiction
  | case3 fetch _ _ _ _ _ inductionHypothesis => exact inductionHypothesis known
  | case4 => exact ⟨_, rfl⟩
  | case5 fetch _ answer answered supported failed =>
      obtain ⟨_, same, refused | ⟨success, _⟩⟩ := served fetch known
      · obtain rfl := Option.some.inj (answered.symm.trans same)
        exact absurd refused supported
      · obtain rfl := Option.some.inj (answered.symm.trans same)
        exact absurd success failed
  | case6 fetch _ answer answered supported _ wrong =>
      obtain ⟨_, same, refused | ⟨_, length⟩⟩ := served fetch known
      · obtain rfl := Option.some.inj (answered.symm.trans same)
        exact absurd refused supported
      · obtain rfl := Option.some.inj (answered.symm.trans same)
        obtain ⟨actual, given, differs⟩ := wrong
        exact absurd (length actual given) differs
  | case7 => exact ⟨_, rfl⟩

/-! ### Serving peers -/

/-- An open batch of a serving peer holds the blocks it is still to hand out. -/
structure Aligned (contentOf : Hash → Bytes) (blocks : List (Hash × Nat)) (fetch : Fetch Hash) :
    Prop where
  known : fetch.pending ⊆ blocks
  batch : 0 < fetch.publicationBatch
  remaining : ∀ stream, fetch.stream = some stream →
    0 < fetch.remaining ∧ fetch.remaining ≤ fetch.pending.length
  stream : ∀ stream, fetch.stream = some stream → stream.interrupted = false ∧
    stream.body = (contentsOf contentOf (fetch.pending.take fetch.remaining)).flatten

/-- Opening keeps the invariant. -/
theorem Aligned.opened {contentOf : Hash → Bytes} {blocks : List (Hash × Nat)} {peer : Peer Hash}
    (serving : Serving contentOf blocks peer) {fetch opened : Fetch Hash}
    (aligned : Aligned contentOf blocks fetch) (pending : fetch.pending ≠ [])
    (opens : Opened peer fetch opened) :
    Aligned contentOf blocks opened ∧ opened.pending = fetch.pending := by
  cases opens with
  | kept held => exact ⟨aligned, rfl⟩
  | alone _ held same batch =>
      refine ⟨⟨same ▸ aligned.known, batch ▸ aligned.batch, fun stream some_open => ?_,
        fun stream some_open => ?_⟩, same⟩
      · rw [held] at some_open
        contradiction
      · rw [held] at some_open
        contradiction
  | @batched _ number count endpoint answer closed positive answered success stream remaining same batch =>
      have asked : fetch.pending.take count ⊆ blocks := fun entry member =>
        aligned.known (List.mem_of_mem_take member)
      obtain ⟨_, given, refused | ⟨_, ends, body, _⟩⟩ := serving.post number endpoint _ asked
      · obtain rfl := Option.some.inj (answered.symm.trans given)
        rw [Answer.supported_of_success success] at refused
        contradiction
      · obtain rfl := Option.some.inj (answered.symm.trans given)
        refine ⟨⟨same ▸ aligned.known, batch ▸ aligned.batch, fun held some_open => ?_,
          fun held some_open => ?_⟩, same⟩
        · rw [remaining, same, List.length_take]
          have := List.length_pos_iff.mpr pending
          omega
        · obtain rfl := Option.some.inj (stream.symm.trans some_open)
          refine ⟨ends, ?_⟩
          show answer.body = _
          rw [remaining, same, List.length_take, ← List.take_eq_take_min]
          exact body

/-- The next block of an aligned batch. -/
theorem Aligned.readBlock {contentOf : Hash → Bytes} {blocks : List (Hash × Nat)}
    {fetch : Fetch Hash} (sized : Sized contentOf blocks) (aligned : Aligned contentOf blocks fetch)
    {hash : Hash} {size : Nat} {rest : List (Hash × Nat)} {stream : Stream}
    (pending : fetch.pending = (hash, size) :: rest) (held : fetch.stream = some stream) :
    ∃ next, fetch.readBlock stream size = .ok (contentOf hash, next) ∧
      next.pending = fetch.pending ∧
      Aligned contentOf blocks { next with pending := rest } := by
  obtain ⟨ends, body⟩ := aligned.stream stream held
  obtain ⟨positive, bounded⟩ := aligned.remaining stream held
  obtain ⟨left, remaining⟩ := Nat.exists_eq_succ_of_ne_zero (Nat.ne_of_gt positive)
  have known : rest ⊆ blocks := fun entry member => aligned.known (by
    rw [pending]
    exact List.mem_cons_of_mem _ member)
  have size_eq : (contentOf hash).length = size := sized (hash, size) (aligned.known (by
    rw [pending]
    exact List.mem_cons_self))
  rw [remaining, pending, List.take_succ_cons, contentsOf, List.map_cons, List.flatten_cons] at body
  dsimp only at body
  rw [pending, remaining, List.length_cons] at bounded
  have enough : ¬ stream.body.length < size := by
    rw [body, List.length_append]
    omega
  have taken : stream.body.take size = contentOf hash := by
    rw [body, List.take_left' size_eq]
  have dropped : stream.body.drop size = (contentsOf contentOf (rest.take left)).flatten := by
    rw [body, List.drop_left' size_eq, contentsOf]
  rw [Fetch.readBlock, if_neg enough, remaining, Nat.succ_sub_one, taken, dropped]
  by_cases last : left = 0
  · subst last
    rw [if_pos rfl, if_neg (by simp [contentsOf]), ends, if_neg Bool.false_ne_true]
    exact ⟨_, rfl, rfl, known, aligned.batch, fun _ closed => (nomatch closed),
      fun _ closed => (nomatch closed)⟩
  · rw [if_neg last]
    refine ⟨_, rfl, rfl, known, aligned.batch, fun _ _ => ⟨Nat.pos_of_ne_zero last, ?_⟩,
      fun rest_stream some_open => ?_⟩
    · exact Nat.le_of_succ_le_succ bounded
    · obtain rfl := Option.some.inj some_open
      exact ⟨ends, rfl⟩

variable [DecidableEq Hash]

/-- **A served block is handed out.** -/
theorem Aligned.block {contentOf : Hash → Bytes} {blocks : List (Hash × Nat)} {peer : Peer Hash}
    (serving : Serving contentOf blocks peer) (sized : Sized contentOf blocks)
    (bounded : ∀ entry ∈ blocks, entry.2 ≤ blockBytes) {fetch : Fetch Hash}
    (aligned : Aligned contentOf blocks fetch) {hash : Hash} {size : Nat}
    {rest : List (Hash × Nat)} (pending : fetch.pending = (hash, size) :: rest) :
    ∃ next, (Fetch.block peer hash).run fetch = .ok (contentOf hash, next) ∧
      next.pending = rest ∧ Aligned contentOf blocks next := by
  have member : (hash, size) ∈ blocks := aligned.known (by
    rw [pending]
    exact List.mem_cons_self)
  have fits : size ≤ blockBytes := bounded (hash, size) member
  obtain ⟨opened, connected⟩ := connect_ok serving sized aligned.known
  obtain ⟨opened_aligned, same⟩ := aligned.opened serving (by rw [pending]; simp)
    (connect_opened aligned.batch connected)
  cases held : opened.stream with
  | some stream =>
      obtain ⟨next, read, kept, next_aligned⟩ :=
        opened_aligned.readBlock sized (same.trans pending) held
      refine ⟨_, block_eq_ok.mpr ⟨size, rest, opened, next, pending, fits, connected, ?_, rfl⟩, ?_⟩
      · rw [readNext_batch hash size held]
        exact read
      · rw [kept, same, pending, List.tail_cons]
        exact ⟨rfl, next_aligned⟩
  | none =>
      obtain ⟨answer, answered, success, ends, body⟩ :=
        serving.get opened.requests (hash, size) member
      have short : ¬ blockBytes < answer.body.length := by
        rw [body, sized (hash, size) member]
        exact Nat.not_lt.mpr fits
      refine ⟨_, block_eq_ok.mpr ⟨size, rest, opened, { opened with requests := opened.requests + 1 },
        pending, fits, connected, ?_, rfl⟩, ?_⟩
      · rw [readNext_alone hash size held, readAlone, answered]
        dsimp only
        rw [if_neg (not_not.mpr success), responseBlock, if_neg short, ends,
          if_neg Bool.false_ne_true, body]
        rfl
      · dsimp only
        rw [same, pending, List.tail_cons]
        refine ⟨rfl, fun entry later => opened_aligned.known (by
          rw [same, pending]
          exact List.mem_cons_of_mem _ later), opened_aligned.batch, fun stream some_open => ?_,
          fun stream some_open => ?_⟩
        · rw [held] at some_open
          contradiction
        · rw [held] at some_open
          contradiction

/-- Every block is handed out, in order. -/
theorem Aligned.run {contentOf : Hash → Bytes} {blocks : List (Hash × Nat)} {peer : Peer Hash}
    (serving : Serving contentOf blocks peer) (sized : Sized contentOf blocks)
    (bounded : ∀ entry ∈ blocks, entry.2 ≤ blockBytes) {fetch : Fetch Hash}
    (aligned : Aligned contentOf blocks fetch) {pending : List (Hash × Nat)}
    (is_pending : fetch.pending = pending) :
    ∃ final, ((pending.map Prod.fst).mapM (Fetch.block peer)).run fetch =
      .ok (contentsOf contentOf pending, final) := by
  induction pending generalizing fetch with
  | nil => exact ⟨fetch, rfl⟩
  | cons entry rest inductionHypothesis =>
      obtain ⟨next, handed, next_pending, next_aligned⟩ :=
        aligned.block serving sized bounded is_pending
      obtain ⟨final, run⟩ := inductionHypothesis next_aligned next_pending
      refine ⟨final, ?_⟩
      rw [List.map_cons, List.mapM_cons]
      exact bind_eq_ok.mpr ⟨_, handed, bind_eq_ok.mpr ⟨_, run, rfl⟩⟩

omit [DecidableEq Hash]

/-! ### Peers that alter nothing -/

/-- Blocks of the right sizes are the contents when no byte of the contents is missing from
what arrived and nothing else arrived. -/
theorem contents_of_sublist {contentOf : Hash → Bytes} {blocks : List (Hash × Nat)}
    (sized : Sized contentOf blocks) {bodies : List Bytes}
    (sizes : bodies.map List.length = blocks.map Prod.snd)
    (arrived : bodies.flatten.Sublist (contentsOf contentOf blocks).flatten) :
    bodies = contentsOf contentOf blocks := by
  have lengths : bodies.map List.length = (contentsOf contentOf blocks).map List.length :=
    sizes.trans sized.length_contentsOf.symm
  refine List.eq_iff_flatten_eq.mpr ⟨arrived.eq_of_length ?_, lengths⟩
  rw [List.length_flatten, List.length_flatten, lengths]

/-- How far a transfer from an honest peer is: the blocks settled by complete responses, and
those that the open response has handed out so far. -/
structure Tracks (contentOf : Hash → Bytes) (blocks : List (Hash × Nat)) (bodies : List Bytes)
    (current : List (Hash × Nat)) (got : List Bytes) (settled : List (Hash × Nat))
    (fetch : Fetch Hash) : Prop where
  split : blocks = settled ++ current ++ fetch.pending
  bodies : bodies = contentsOf contentOf settled ++ got
  batch : 0 < fetch.publicationBatch
  closed : fetch.stream = none → current = [] ∧ got = []
  remaining : ∀ stream, fetch.stream = some stream →
    0 < fetch.remaining ∧ fetch.remaining ≤ fetch.pending.length
  sizes : got.map List.length = current.map Prod.snd
  arrived : ∀ stream, fetch.stream = some stream → (got.flatten ++ stream.body).Sublist
    (contentsOf contentOf (current ++ fetch.pending.take fetch.remaining)).flatten

/-- Opening keeps what is tracked. -/
theorem Tracks.opened {contentOf : Hash → Bytes} {blocks : List (Hash × Nat)} {peer : Peer Hash}
    (honest : Honest contentOf blocks peer) {fetch opened : Fetch Hash} {bodies : List Bytes}
    {current : List (Hash × Nat)} {got : List Bytes} {settled : List (Hash × Nat)}
    (tracks : Tracks contentOf blocks bodies current got settled fetch)
    (pending : fetch.pending ≠ []) (opens : Opened peer fetch opened) :
    Tracks contentOf blocks bodies current got settled opened ∧ opened.pending = fetch.pending := by
  cases opens with
  | kept held => exact ⟨tracks, rfl⟩
  | alone before held same batch =>
      refine ⟨⟨same ▸ tracks.split, tracks.bodies, batch ▸ tracks.batch,
        fun _ => tracks.closed before, fun stream some_open => ?_, tracks.sizes,
        fun stream some_open => ?_⟩, same⟩
      · rw [held] at some_open
        contradiction
      · rw [held] at some_open
        contradiction
  | @batched _ number count endpoint answer before positive answered success stream remaining same
      batch =>
      have asked : fetch.pending.take count ⊆ blocks := fun entry member => by
        rw [tracks.split]
        exact List.mem_append_right _ (List.mem_of_mem_take member)
      obtain ⟨rfl, rfl⟩ := tracks.closed before
      refine ⟨⟨same ▸ tracks.split, tracks.bodies, batch ▸ tracks.batch, fun closed => ?_,
        fun held some_open => ?_, tracks.sizes, fun held some_open => ?_⟩, same⟩
      · rw [stream] at closed
        contradiction
      · rw [remaining, same, List.length_take]
        have := List.length_pos_iff.mpr pending
        omega
      · obtain rfl := Option.some.inj (stream.symm.trans some_open)
        rw [List.flatten_nil, List.nil_append, List.nil_append, remaining, same, List.length_take,
          ← List.take_eq_take_min]
        exact honest.post number endpoint _ answer asked answered success

/-- A block read from a batch. -/
theorem Tracks.readBlock {contentOf : Hash → Bytes} {blocks : List (Hash × Nat)}
    {fetch next : Fetch Hash} {bodies : List Bytes} {current : List (Hash × Nat)}
    {got : List Bytes} {settled : List (Hash × Nat)} (sized : Sized contentOf blocks)
    (tracks : Tracks contentOf blocks bodies current got settled fetch) {hash : Hash} {size : Nat}
    {rest : List (Hash × Nat)} {stream : Stream} {bytes : Bytes}
    (pending : fetch.pending = (hash, size) :: rest) (held : fetch.stream = some stream)
    (read : fetch.readBlock stream size = .ok (bytes, next)) :
    next.pending = fetch.pending ∧
      ∃ current got settled, Tracks contentOf blocks (bodies ++ [bytes]) current got settled
        { next with pending := next.pending.tail } := by
  obtain ⟨left, remaining⟩ :=
    Nat.exists_eq_succ_of_ne_zero (Nat.ne_of_gt (tracks.remaining stream held).1)
  have bounded := (tracks.remaining stream held).2
  have arrived := tracks.arrived stream held
  rw [remaining, pending, List.take_succ_cons] at arrived
  rw [pending, remaining, List.length_cons] at bounded
  rw [Fetch.readBlock, remaining, Nat.succ_sub_one] at read
  split at read
  · contradiction
  · rename_i enough
    have sizes : (got ++ [stream.body.take size]).map List.length =
        (current ++ [(hash, size)]).map Prod.snd := by
      rw [List.map_append, List.map_append, tracks.sizes, List.map_singleton, List.map_singleton,
        List.length_take, Nat.min_eq_left (Nat.le_of_not_lt enough)]
    have split_here : blocks = settled ++ (current ++ [(hash, size)]) ++ rest := by
      rw [tracks.split, pending]
      simp
    split at read
    · rename_i last
      split at read
      · contradiction
      · rename_i whole
        split at read
        · contradiction
        · obtain ⟨rfl, rfl⟩ := Prod.mk.inj (Except.ok.inj read)
          -- The response is complete: what it handed out is what was asked for.
          have sized_here : Sized contentOf (current ++ [(hash, size)]) := fun entry member =>
            sized entry (by
              rw [split_here]
              exact List.mem_append_left _ (List.mem_append_right _ member))
          have taken := List.take_append_drop size stream.body
          rw [not_not.mp whole, List.append_nil] at taken
          have exact_bodies : got ++ [stream.body.take size] =
              contentsOf contentOf (current ++ [(hash, size)]) := by
            refine contents_of_sublist sized_here sizes ?_
            rw [List.flatten_append, List.flatten_singleton, taken]
            rw [last, List.take_zero] at arrived
            exact arrived
          refine ⟨rfl, [], [], settled ++ (current ++ [(hash, size)]), ?_, ?_, tracks.batch,
            fun _ => ⟨rfl, rfl⟩, fun _ closed => (nomatch closed), rfl,
            fun _ closed => (nomatch closed)⟩
          · rw [List.append_nil, pending, List.tail_cons]
            exact split_here
          · rw [tracks.bodies, List.append_assoc, exact_bodies, List.append_nil,
              contentsOf_append contentOf settled]
    · rename_i more
      obtain ⟨rfl, rfl⟩ := Prod.mk.inj (Except.ok.inj read)
      refine ⟨rfl, current ++ [(hash, size)], got ++ [stream.body.take size], settled, ?_, ?_,
        tracks.batch, fun closed => (nomatch closed), fun _ _ => ⟨Nat.pos_of_ne_zero more, ?_⟩,
        sizes, fun rest_stream some_open => ?_⟩
      · dsimp only
        rw [pending, List.tail_cons]
        exact split_here
      · rw [tracks.bodies, List.append_assoc]
      · dsimp only
        rw [pending, List.tail_cons]
        exact Nat.le_of_succ_le_succ bounded
      · obtain rfl := Option.some.inj some_open
        dsimp only
        rw [pending, List.tail_cons, List.flatten_append, List.flatten_singleton, List.append_assoc,
          List.take_append_drop, List.append_assoc, List.singleton_append]
        exact arrived

variable [DecidableEq Hash]

/-- **What an honest peer's transfer returns is tracked.** -/
theorem Tracks.block {contentOf : Hash → Bytes} {blocks : List (Hash × Nat)} {peer : Peer Hash}
    (honest : Honest contentOf blocks peer) (sized : Sized contentOf blocks)
    {fetch next : Fetch Hash} {bodies : List Bytes} {current : List (Hash × Nat)}
    {got : List Bytes} {settled : List (Hash × Nat)}
    (tracks : Tracks contentOf blocks bodies current got settled fetch) {hash : Hash}
    {bytes : Bytes} (returned : (Fetch.block peer hash).run fetch = .ok (bytes, next)) :
    (∃ size, fetch.pending = (hash, size) :: next.pending) ∧
      ∃ current got settled, Tracks contentOf blocks (bodies ++ [bytes]) current got settled next := by
  obtain ⟨size, rest, opened, read, pending, _, connected, taken, rfl⟩ := block_eq_ok.mp returned
  obtain ⟨opened_tracks, same⟩ := tracks.opened honest (by rw [pending]; simp)
    (connect_opened tracks.batch connected)
  cases held : opened.stream with
  | some stream =>
      rw [readNext_batch hash size held] at taken
      obtain ⟨kept, tracked⟩ :=
        opened_tracks.readBlock sized (same.trans pending) held taken
      refine ⟨⟨size, ?_⟩, tracked⟩
      dsimp only
      rw [kept, same, pending, List.tail_cons]
  | none =>
      rw [readNext_alone hash size held, readAlone] at taken
      have member : (hash, size) ∈ blocks := by
        rw [tracks.split, pending]
        exact List.mem_append_right _ List.mem_cons_self
      split at taken
      · contradiction
      · rename_i answer answered
        split at taken
        · contradiction
        · rename_i success
          obtain ⟨received, responded, taken⟩ := map_eq_ok.mp taken
          obtain ⟨rfl, rfl⟩ := Prod.mk.inj taken
          obtain ⟨rfl, rfl⟩ := opened_tracks.closed held
          have body : received = contentOf hash := by
            rw [responseBlock] at responded
            split at responded
            · contradiction
            · split at responded
              · contradiction
              · rename_i ends
                obtain rfl := Except.ok.inj responded
                exact honest.get _ answer (hash, size) member answered (not_not.mp success)
                  (by simpa using ends)
          dsimp only
          rw [same, pending, List.tail_cons]
          refine ⟨⟨size, rfl⟩, [], [], settled ++ [(hash, size)], ?_, ?_, opened_tracks.batch,
            fun _ => ⟨rfl, rfl⟩, fun stream some_open => ?_, rfl, fun stream some_open => ?_⟩
          · rw [tracks.split, pending]
            simp
          · rw [tracks.bodies, contentsOf_append, body]
            simp [contentsOf]
          · rw [held] at some_open
            contradiction
          · rw [held] at some_open
            contradiction

/-- A whole transfer is tracked. -/
theorem Tracks.run {contentOf : Hash → Bytes} {blocks : List (Hash × Nat)} {peer : Peer Hash}
    (honest : Honest contentOf blocks peer) (sized : Sized contentOf blocks)
    {asked : List Hash} {fetch final : Fetch Hash} {bodies returned : List Bytes}
    {current : List (Hash × Nat)} {got : List Bytes} {settled : List (Hash × Nat)}
    (tracks : Tracks contentOf blocks bodies current got settled fetch)
    (run : (asked.mapM (Fetch.block peer)).run fetch = .ok (returned, final)) :
    asked ++ final.pending.map Prod.fst = fetch.pending.map Prod.fst ∧
      ∃ current got settled, Tracks contentOf blocks (bodies ++ returned) current got settled final := by
  induction asked generalizing fetch bodies returned current got settled with
  | nil =>
      obtain ⟨rfl, rfl⟩ := run_pure_eq_ok.mp run
      exact ⟨rfl, current, got, settled, (List.append_nil bodies).symm ▸ tracks⟩
  | cons hash rest inductionHypothesis =>
      rw [List.mapM_cons, StateT.run_bind] at run
      obtain ⟨⟨bytes, next⟩, handed, run⟩ := bind_eq_ok.mp run
      rw [StateT.run_bind] at run
      obtain ⟨⟨others, last⟩, ran, run⟩ := bind_eq_ok.mp run
      obtain ⟨rfl, rfl⟩ := run_pure_eq_ok.mp run
      obtain ⟨⟨size, pending⟩, _, _, _, tracked⟩ := tracks.block honest sized handed
      obtain ⟨asked, tracked⟩ := inductionHypothesis tracked ran
      rw [pending, List.map_cons, ← asked]
      refine ⟨rfl, ?_⟩
      simpa using tracked

end Fetch

/-! ### The whole -/

variable [DecidableEq Hash]

/-- The transfer of a list of blocks, from a peer of the same machine or through a proxy. -/
def Fetch.start (direct : Bool) (blocks : List (Hash × Nat)) : Fetch Hash :=
  if direct then (Fetch.new blocks).directPublication else Fetch.new blocks

/-- `block` for every block of the list, in order, until one fails. -/
def Fetch.all (peer : Peer Hash) (direct : Bool) (blocks : List (Hash × Nat)) :
    Except Error (List Bytes × Fetch Hash) :=
  ((blocks.map Prod.fst).mapM (Fetch.block peer)).run (Fetch.start direct blocks)

end Cairn.Nodes.Snapshots

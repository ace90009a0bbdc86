import Cairn.Protocol.DirectLinkRequests

/-!
Owns what a client may conclude from `TransportNotSent`: the request never reaches the
dispatcher of the installation, then or later, so that replaying it over the relay
executes it once. `not_sent_never_executed` is the result for every run.
-/

set_option autoImplicit false

namespace Cairn.Protocol.DirectChannel

open Cairn.Library Cairn.Library.HashMaps DataChannel

/-- `sendRequest` replays a call after this outcome of its promise. -/
def Call.replayed (identified : String → Option Bool) (path : String) (call : Call) : Outcome → Bool
  | .rejected failure => call.replayable identified path failure
  | .resolved _ => false

namespace Link

variable {codec : Codec Frame} {entries : Bytes → Entries} {link : Link} {id : String}

/-- The times a call is executed: each frame of it that reached the dispatcher, and
each failure after which `sendRequest` replays it over the relay. -/
def executions (identified : String → Option Bool) (path : String) (id : String) (call : Call)
    (link : Link) : Nat :=
  link.handed.countP (fun frame => frame.requestId = some id) +
    link.channel.outcomes.countP fun entry =>
      entry.1 = id ∧ call.replayed identified path entry.2

/-- A run keeps its promises and its packets in order. -/
theorem run_asked (lawful : codec.Lawful) (visits : Visits codec entries) {identity : Identity}
    {budget : ReassemblyBudget} {actions : List Action}
    (ran : run codec identity budget actions = some link) : link.Sound codec ∧ link.Asked := by
  have kept : ∀ (state : Link) action next, state.Sound codec ∧ state.Asked →
      step codec identity state action = some next → next.Sound codec ∧ next.Asked :=
    fun state action next both stepped => ⟨both.1.step lawful identity action stepped,
      both.2.step lawful visits identity both.1 action stepped⟩
  exact Steps.execute_invariant kept ⟨Sound.initial codec budget, Asked.initial budget⟩ ran

/-- What reached the dispatcher was the last packet of a send that was not lost. -/
theorem Recorded.of_handed (recorded : link.Recorded) {frame : Frame}
    (handed : frame ∈ link.handed) : ∃ written ∈ link.read, written.Completes ∧
      written.frame = frame ∧ ¬ link.Lost written.key := by
  obtain ⟨entry, member, rfl⟩ := List.mem_map.mp (recorded.handed.subset handed)
  obtain ⟨written, read, sameKey, completes, sameFrame⟩ := recorded.origin entry member
  exact ⟨written, read, completes, sameFrame, sameKey ▸ recorded.kept entry member⟩

/-- A request that was reported as not sent has not reached the dispatcher. -/
theorem Asked.not_handed (asked : link.Asked) (recorded : link.Recorded)
    (notSent : (id, .rejected .transportNotSent) ∈ link.channel.outcomes) :
    ∀ frame ∈ link.handed, frame.requestId ≠ some id := by
  intro frame handed isRequest
  obtain ⟨written, read, completes, rfl, kept⟩ := recorded.of_handed handed
  exact kept (.inl (asked.asks.notSent written (List.mem_append_left _ read) completes id isRequest
    notSent))

/-- The sends of one request that were emitted are one send. -/
theorem Asked.emitted_once (asked : link.Asked) (sound : link.Sound codec) (id : String) :
    link.emitted.countP (fun entry => entry.2.requestId = some id) ≤ 1 := by
  have place : ∀ entry ∈ link.emitted, link.channel.history[entry.1]? = some entry.2 := by
    intro entry member
    obtain ⟨written, read, sameKey, _, sameFrame⟩ := sound.recorded.origin entry member
    rw [← sameKey, ← sameFrame]
    exact sound.writes.recorded written (List.mem_append_left _ read)
  rw [List.countP_eq_length_filter]
  have keys : ((link.emitted.filter fun entry => entry.2.requestId = some id).map Prod.fst).Nodup :=
    sound.recorded.once.sublist (List.filter_sublist.map _)
  match isFiltered : link.emitted.filter fun entry => entry.2.requestId = some id with
  | [] =>
      rw [isFiltered]
      exact Nat.zero_le _
  | [_] =>
      rw [isFiltered]
      exact Nat.le_refl _
  | first :: second :: _ =>
      rw [isFiltered] at keys
      have isFirst : first ∈ link.emitted.filter fun entry => entry.2.requestId = some id := by
        rw [isFiltered]
        exact List.mem_cons_self
      have isSecond : second ∈ link.emitted.filter fun entry => entry.2.requestId = some id := by
        rw [isFiltered]
        exact List.mem_cons_of_mem _ List.mem_cons_self
      obtain ⟨inFirst, firstRequest⟩ := List.mem_filter.mp isFirst
      obtain ⟨inSecond, secondRequest⟩ := List.mem_filter.mp isSecond
      have same := asked.asks.unique first.1 second.1 first.2 second.2 id (place first inFirst)
        (place second inSecond) (of_decide_eq_true firstRequest) (of_decide_eq_true secondRequest)
      have apart := (List.nodup_cons.mp keys).1
      exact absurd (same ▸ List.mem_cons_self) apart

theorem Asked.handed_once (asked : link.Asked) (sound : link.Sound codec) (id : String) :
    link.handed.countP (fun frame => frame.requestId = some id) ≤ 1 := by
  have within := sound.recorded.handed.countP_le
    (p := fun frame : Frame => decide (frame.requestId = some id))
  have mapped : (link.emitted.map Prod.snd).countP (fun frame => frame.requestId = some id) =
      link.emitted.countP fun entry => entry.2.requestId = some id := List.countP_map ..
  rw [mapped] at within
  exact within.trans (asked.emitted_once sound id)

/-- The promise of a request is settled once, so it is replayed at most once. -/
theorem Asked.replayed_once (asked : link.Asked) (id : String) (test : Outcome → Bool) :
    link.channel.outcomes.countP (fun entry => entry.1 = id ∧ test entry.2) ≤ 1 := by
  have once : (link.channel.outcomes.map Prod.fst).count id ≤ 1 :=
    List.nodup_iff_count_le_one.mp asked.asks.once id
  have counted : (link.channel.outcomes.map Prod.fst).count id =
      link.channel.outcomes.countP fun entry => entry.1 = id := by
    rw [List.count, List.countP_map]
    exact List.countP_congr fun entry _ => by simp
  rw [counted] at once
  refine Nat.le_trans (List.countP_mono_left fun entry _ both => ?_) once
  simp only [decide_eq_true_eq, Bool.decide_and, Bool.and_eq_true] at both ⊢
  exact both.1

/-- A call that is not idempotent is replayed only after it was reported as not sent. -/
theorem notSent_of_replayed {identified : String → Option Bool} {path : String} {call : Call}
    (mutates : ¬ call.Idempotent identified path)
    (replayed : 0 < link.channel.outcomes.countP fun entry =>
      entry.1 = id ∧ call.replayed identified path entry.2) :
    (id, .rejected .transportNotSent) ∈ link.channel.outcomes := by
  obtain ⟨⟨name, outcome⟩, member, holds⟩ := List.countP_pos_iff.mp replayed
  obtain ⟨rfl, replays⟩ := of_decide_eq_true holds
  cases outcome with
  | resolved status => cases replays
  | rejected failure =>
      unfold Call.replayed Call.replayable at replays
      have reason := (of_decide_eq_true replays).2
      rcases reason with rfl | ⟨_, idempotent⟩
      · exact member
      · exact absurd idempotent mutates

/-- A run that goes on keeps the promises that were settled. -/
theorem outcomes_last {identity : Identity} {later : List Action} {final : Link}
    (ran : Steps.execute (step codec identity) link later = some final) :
    link.channel.outcomes ⊆ final.channel.outcomes := by
  have kept : ∀ (state : Link) action next, link.channel.outcomes ⊆ state.channel.outcomes →
      step codec identity state action = some next →
      link.channel.outcomes ⊆ next.channel.outcomes := fun state action next inside stepped =>
    List.Subset.trans inside (step_outcomes stepped).subset
  exact Steps.execute_invariant kept (List.Subset.refl _) ran

/-- If a promise of the client is rejected as not sent, no frame of its request has
reached the dispatcher nor ever does; and what `sendRequest` does with a call that is
not idempotent, over the channel and the relay together, executes it at most once. -/
theorem not_sent_never_executed (lawful : codec.Lawful) (visits : Visits codec entries)
    {identity : Identity} {budget : ReassemblyBudget} {actions later : List Action} {final : Link}
    (ran : run codec identity budget actions = some link)
    (on : Steps.execute (step codec identity) link later = some final) :
    (∀ id, (id, .rejected .transportNotSent) ∈ link.channel.outcomes →
      ∀ frame ∈ final.handed, frame.requestId ≠ some id) ∧
    ∀ id call identified path, final.channel.calls.lookup id = some call →
      call.path = apiPath path → ¬ call.Idempotent identified path →
        final.executions identified path id call ≤ 1 := by
  have whole : run codec identity budget (actions ++ later) = some final :=
    Steps.execute_append.mpr ⟨link, ran, on⟩
  obtain ⟨sound, asked⟩ := run_asked lawful visits whole
  refine ⟨fun id notSent => asked.not_handed sound.recorded (outcomes_last on notSent),
    fun id call identified path _ _ mutates => ?_⟩
  unfold executions
  have handedOnce := asked.handed_once sound id
  have replayedOnce := asked.replayed_once id (call.replayed identified path)
  by_cases replayed : 0 < final.channel.outcomes.countP fun entry =>
      entry.1 = id ∧ call.replayed identified path entry.2
  · have notSent := notSent_of_replayed mutates replayed
    have none : final.handed.countP (fun frame => frame.requestId = some id) = 0 := by
      refine List.countP_eq_zero.mpr fun frame member isRequest => ?_
      exact asked.not_handed sound.recorded notSent frame member (of_decide_eq_true isRequest)
    omega
  · omega

end Link

/-! ### A request on a channel that closes -/

/-- The bytes of an ASCII text. -/
def ascii (text : String) : Bytes := text.toList.map fun char => UInt8.ofNat char.toNat

/-- A call that stops a chat. -/
def stopCall : Call := ⟨some "POST", apiPath "/chats/c/stop", [], none⟩

/-- The owner of the installation. -/
def owner : Identity := ⟨"a", .owner⟩

/-- The frame of the call. -/
def stopFrame : Frame := .request "r" (stopCall.frame owner)

/-- The JSON text of the frame. -/
def stopText : Bytes :=
  ascii ("\x7b\"type\":\"request\",\"id\":\"r\",\"account_id\":\"a\",\"role\":\"owner\"," ++
    "\"method\":\"POST\",\"path\":\"/api/chats/c/stop\",\"headers\":[],\"body\":\"\"\x7d")

/-- The entries read of one text. -/
def entriesOf (frame : Frame) (text packet : Bytes) : Entries :=
  if packet = text then frame.identity else []

/-- The JSON of one frame. -/
def jsonOf (frame : Frame) (text : Bytes) : Codec Frame where
  serialize other := if other = frame then some text else none
  parse bytes := if bytes = text then some frame else none
  requestIdPrefix packet := requestIdPrefix none none (entriesOf frame text packet)

theorem jsonOf_serialize {frame other : Frame} {text bytes : Bytes}
    (serialized : (jsonOf frame text).serialize other = some bytes) : other = frame ∧ bytes = text := by
  unfold jsonOf at serialized
  dsimp only at serialized
  split at serialized
  · rename_i same
    exact ⟨same, (Option.some.inj serialized).symm⟩
  · cases serialized

theorem jsonOf_lawful (frame : Frame) {text : Bytes} (nonempty : text ≠ []) :
    (jsonOf frame text).Lawful where
  nonempty := fun other bytes serialized => (jsonOf_serialize serialized).2 ▸ nonempty
  roundTrip := fun other bytes serialized => by
    obtain ⟨rfl, rfl⟩ := jsonOf_serialize serialized
    exact if_pos rfl

theorem jsonOf_visits (frame : Frame) (text : Bytes) :
    Visits (jsonOf frame text) (entriesOf frame text) where
  visited := fun packet => rfl
  truncated := fun other bytes count serialized => by
    obtain ⟨rfl, rfl⟩ := jsonOf_serialize serialized
    refine ⟨[], ?_⟩
    rw [List.append_nil]
    unfold entriesOf
    split
    · exact List.prefix_refl _
    · exact List.nil_prefix

theorem stopText_ne_nil : stopText ≠ [] := by
  unfold stopText ascii
  rw [ne_eq, List.map_eq_nil_iff, String.toList_append, List.append_eq_nil_iff]
  rintro ⟨first, _⟩
  exact absurd (String.toList_eq_nil_iff.mp first) (by decide)

set_option maxRecDepth 8000 in
/-- A request that is still waiting when the channel closes is reported as not sent,
and its send then stops. -/
theorem not_sent_after_close :
    ∃ link, Link.run (jsonOf stopFrame stopText) owner (ReassemblyBudget.forAccount "a" .owner)
      [.request "r" stopCall false, .close] = some link ∧
      ("r", .rejected .transportNotSent) ∈ link.channel.outcomes ∧
      ∃ final, Steps.execute (Link.step (jsonOf stopFrame stopText) owner) link [.capacity 0] =
        some final ∧ (∀ frame ∈ final.handed, frame.requestId ≠ some "r") ∧
        final.executions (fun _ => none) "/chats/c/stop" "r" stopCall ≤ 1 := by
  refine ⟨_, rfl, by decide, _, rfl, ?_⟩
  obtain ⟨unsent, once⟩ := @Link.not_sent_never_executed _ _ _
    (jsonOf_lawful stopFrame stopText_ne_nil) (jsonOf_visits stopFrame stopText) owner
    (ReassemblyBudget.forAccount "a" .owner) [.request "r" stopCall false, .close] [.capacity 0] _
    rfl rfl
  exact ⟨unsent "r" (by decide),
    once "r" stopCall (fun _ => none) "/chats/c/stop" rfl rfl (by decide)⟩

end Cairn.Protocol.DirectChannel

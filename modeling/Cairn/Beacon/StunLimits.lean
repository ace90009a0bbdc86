import Cairn.Beacon.StunResponses
import Cairn.Library.Steps

/-!
Owns what holds of the responder over every sequence of datagrams: it never reads outside of
its buffer, answers well-formed binding requests only, and sends at most 20 responses to an
address and 1000 in total in each of its windows of one second. `responder_bounded` is the
main result.
-/

set_option autoImplicit false

namespace Cairn.Beacon.Stun

open Cairn.Library Cairn.Library.HashMaps Cairn.Library.IpAddresses Cairn.Library.Steps

/-! ### Counting responses -/

/-- The responses of a window. -/
def inWindow (window : Nat) (sent : List Sent) : Nat :=
  sent.countP fun response => response.window = window

/-- The responses of a window to an address. -/
def toAddress (window : Nat) (ip : IpAddr) (sent : List Sent) : Nat :=
  sent.countP fun response => response.window = window ∧ response.source.ip = ip

theorem inWindow_cons (window : Nat) (response : Sent) (sent : List Sent) :
    inWindow window (response :: sent) =
      inWindow window sent + if response.window = window then 1 else 0 := by
  simp only [inWindow, List.countP_cons, decide_eq_true_eq]

theorem toAddress_cons (window : Nat) (ip : IpAddr) (response : Sent) (sent : List Sent) :
    toAddress window ip (response :: sent) = toAddress window ip sent +
      if response.window = window ∧ response.source.ip = ip then 1 else 0 := by
  simp only [toAddress, List.countP_cons, decide_eq_true_eq]

theorem inWindow_eq_zero {window : Nat} {sent : List Sent}
    (other : ∀ response ∈ sent, response.window ≠ window) : inWindow window sent = 0 :=
  List.countP_eq_zero.mpr fun response member => by simpa using other response member

theorem toAddress_eq_zero {window : Nat} {sent : List Sent}
    (other : ∀ response ∈ sent, response.window ≠ window) (ip : IpAddr) :
    toAddress window ip sent = 0 :=
  List.countP_eq_zero.mpr fun response member => by
    have different := other response member
    simp [different]

/-! ### What holds of the responder -/

variable (crc32 : Bytes → UInt32)

/-- Two windows are the same, or one starts when the other is over. -/
def Apart (first other : Nat) : Prop := first = other ∨ first + second ≤ other ∨ other + second ≤ first

/-- What was sent: responses to binding requests, within windows of one second that do not
overlap, and no more than the limits in each. -/
structure Served (sent : List Sent) : Prop where
  answered : ∀ response ∈ sent, ∃ fingerprint,
    BindingRequest crc32 response.request fingerprint ∧
    Answers crc32 response.request response.source fingerprint response.response
  windows : ∀ response ∈ sent, response.window ≤ response.time ∧
    response.time < response.window + second
  apart : ∀ first ∈ sent, ∀ other ∈ sent, Apart first.window other.window
  byAddress : ∀ window ip, toAddress window ip sent ≤ 20
  overall : ∀ window, inWindow window sent ≤ 1000

/-- The state of the responder stands for what it sent. -/
structure Limited (state : State) : Prop where
  buffered : state.input.length = 513
  started : state.window ≤ state.clock
  counted : ∀ ip, getD state.counts ip 0 = toAddress state.window ip state.sent
  total : state.total = inWindow state.window state.sent
  tracked : size state.counts ≤ 1000
  past : ∀ response ∈ state.sent, response.window = state.window ∨
    response.window + second ≤ state.window
  served : Served crc32 state.sent

theorem Limited.starting (clock : Nat) : Limited crc32 (State.starting clock) where
  buffered := List.length_replicate
  started := Nat.le_refl clock
  counted := fun _ => rfl
  total := rfl
  tracked := Nat.zero_le _
  past := nofun
  served := ⟨nofun, nofun, nofun, fun _ _ => Nat.zero_le _, fun _ => Nat.zero_le _⟩

variable {crc32} {state : State}

/-- The buffer of a received datagram starts with it. -/
theorem Limited.receive (limited : Limited crc32 state) (bytes : Bytes) :
    Limited crc32 (state.receive bytes) ∧
      ∃ rest, (state.receive bytes).input = bytes.take 513 ++ rest := by
  refine ⟨⟨?_, limited.started, limited.counted, limited.total, limited.tracked, limited.past,
    limited.served⟩, _, rfl⟩
  show (bytes.take 513 ++ state.input.drop (bytes.take 513).length).length = 513
  have buffered := limited.buffered
  rw [List.length_append, List.length_drop, List.length_take]
  omega

/-- After the check of its age a window is less than a second old. -/
theorem Limited.turn (limited : Limited crc32 state) (elapsed restarted : Nat) :
    Limited crc32 (state.turn elapsed restarted) ∧
      (state.turn elapsed restarted).clock < (state.turn elapsed restarted).window + second := by
  have started := limited.started
  unfold State.turn
  dsimp only
  by_cases elapses : state.clock + elapsed - state.window ≥ second
  · rw [if_pos elapses]
    have later : ∀ response ∈ state.sent,
        response.window + second ≤ state.clock + elapsed + restarted := fun response member => by
      rcases limited.past response member with same | earlier
      · omega
      · omega
    have positive : 0 < second := by decide
    have fresh : ∀ response ∈ state.sent,
        response.window ≠ state.clock + elapsed + restarted := fun response member same => by
      have before := later response member
      omega
    refine ⟨⟨limited.buffered, Nat.le_refl _, fun ip => ?_, ?_, Nat.zero_le _,
      fun response member => .inr (later response member), limited.served⟩, by
        show state.clock + elapsed + restarted < state.clock + elapsed + restarted + second
        omega⟩
    · show getD (∅ : HashMap IpAddr Nat) ip 0 = _
      rw [toAddress_eq_zero fresh ip]
      rfl
    · exact (inWindow_eq_zero fresh).symm
  · rw [if_neg elapses]
    refine ⟨⟨limited.buffered, ?_, limited.counted, limited.total, limited.tracked, limited.past,
      limited.served⟩, ?_⟩
    · show state.window ≤ state.clock + elapsed
      omega
    · show state.clock + elapsed < state.window + second
      omega

/-- A response that the limits allow keeps to them. -/
theorem Limited.send (limited : Limited crc32 state) {request answer : Bytes} {source : Source}
    {fingerprint : Bool} (recent : state.clock < state.window + second) (room : state.total < 1000)
    (tracks : ¬ (state.counts.lookup source.ip = none ∧ size state.counts ≥ 1000))
    (allowed : getD state.counts source.ip 0 < 20)
    (binding : BindingRequest crc32 request fingerprint)
    (answers : Answers crc32 request source fingerprint answer) :
    Limited crc32 { state with
      counts := state.counts.insert source.ip (getD state.counts source.ip 0 + 1)
      total := state.total + 1
      sent := ⟨source, request, answer, state.window, state.clock⟩ :: state.sent } := by
  have served := limited.served
  refine ⟨limited.buffered, limited.started, fun ip => ?_, ?_, ?_, ?_, ⟨?_, ?_, ?_, ?_, ?_⟩⟩
  · have counted := limited.counted ip
    rw [getD_insert, toAddress_cons]
    by_cases same : ip = source.ip
    · subst same
      rw [if_pos rfl, counted]
      simp
    · have other : ¬ source.ip = ip := fun equal => same equal.symm
      rw [if_neg same, counted]
      simp [other]
  · show state.total + 1 = _
    rw [inWindow_cons, if_pos rfl, limited.total]
  · show size (state.counts.insert source.ip _) ≤ 1000
    cases found : state.counts.lookup source.ip with
    | none =>
        rw [size_insert_of_notMem _ (AList.lookup_eq_none.mp found)]
        have few : ¬ size state.counts ≥ 1000 := fun many => tracks ⟨found, many⟩
        omega
    | some count =>
        refine Nat.le_trans (size_le_size fun key member => ?_) limited.tracked
        rcases AList.mem_insert _ |>.mp member with same | inside
        · subst same
          exact AList.lookup_isSome.mp (by rw [found]; rfl)
        · exact inside
  · exact List.forall_mem_cons.mpr ⟨.inl rfl, limited.past⟩
  · exact List.forall_mem_cons.mpr
      ⟨⟨fingerprint, binding, answers⟩, served.answered⟩
  · exact List.forall_mem_cons.mpr ⟨⟨limited.started, recent⟩, served.windows⟩
  · -- The window of the new response is that of the state.
    have apart : ∀ other ∈ state.sent, Apart other.window state.window := fun other member =>
      (limited.past other member).imp_right .inl
    refine List.forall_mem_cons.mpr ⟨?_, fun first isFirst => ?_⟩
    · refine List.forall_mem_cons.mpr ⟨.inl rfl, fun other member => ?_⟩
      rcases apart other member with same | before | behind
      · exact .inl same.symm
      · exact .inr (.inr before)
      · exact .inr (.inl behind)
    · exact List.forall_mem_cons.mpr ⟨apart first isFirst, served.apart first isFirst⟩
  · intro window ip
    have bounded := served.byAddress window ip
    rw [toAddress_cons]
    split
    · rename_i same
      obtain ⟨rfl, rfl⟩ := same
      have counted := limited.counted source.ip
      show toAddress state.window source.ip state.sent + 1 ≤ 20
      omega
    · exact bounded
  · intro window
    have bounded := served.overall window
    rw [inWindow_cons]
    split
    · rename_i same
      obtain rfl := same
      have total := limited.total
      show inWindow state.window state.sent + 1 ≤ 1000
      omega
    · exact bounded

/-- A valid request is answered, or ignored, within the limits. -/
theorem Limited.answer (limited : Limited crc32 state) {request rest : Bytes} {source : Source}
    {fingerprint : Bool} (received : state.input = request ++ rest)
    (recent : state.clock < state.window + second) (room : state.total < 1000)
    (binding : BindingRequest crc32 request fingerprint) :
    ∃ next, state.answer crc32 source request fingerprint = some next ∧ Limited crc32 next := by
  have long : 20 ≤ request.length := by
    obtain ⟨_, _, _, _, least, _⟩ := binding
    exact least
  unfold State.answer
  by_cases crowded : state.counts.lookup source.ip = none ∧ size state.counts ≥ 1000
  · rw [if_pos crowded]
    exact ⟨state, rfl, limited⟩
  rw [if_neg crowded]
  dsimp only
  by_cases exhausted : getD state.counts source.ip 0 ≥ 20
  · rw [if_pos exhausted]
    exact ⟨state, rfl, limited⟩
  have responded := response_eq crc32 rest long source fingerprint
  rw [← received] at responded
  rw [if_neg exhausted, responded, Option.map_some]
  exact ⟨_, rfl, limited.send recent room crowded (Nat.lt_of_not_le exhausted) binding
    (answers_messageOf crc32 long source fingerprint)⟩

/-- A round of the responder never reads outside of its buffer, and keeps to its limits. -/
theorem Limited.step (limited : Limited crc32 state) (event : Event) :
    ∃ next, step crc32 state event = some next ∧ Limited crc32 next := by
  cases event with
  | failed => exact ⟨state, rfl, limited⟩
  | datagram source bytes elapsed restarted =>
      obtain ⟨received, rest, input⟩ := limited.receive bytes
      obtain ⟨turned, recent⟩ := received.turn elapsed restarted
      have buffer : ((state.receive bytes).turn elapsed restarted).input =
          bytes.take 513 ++ rest := by
        rw [← input]
        unfold State.turn
        dsimp only
        split <;> rfl
      rw [Stun.step, buffer, (header_within (bytes.take 513) rest).1]
      obtain ⟨passed, isPassed⟩ := Option.isSome_iff_exists.mp (header_within (bytes.take 513) rest).2
      rw [isPassed]
      cases passed with
      | false => exact ⟨_, rfl, turned⟩
      | true =>
          dsimp only
          by_cases exhausted : ((state.receive bytes).turn elapsed restarted).total ≥ 1000
          · rw [if_pos exhausted]
            exact ⟨_, rfl, turned⟩
          rw [if_neg exhausted]
          have words := (take_header isPassed).2.2.1
          have within := attributes_within crc32 (bytes.take 513) rest false words
            (show 20 % 4 = 0 from rfl)
          rw [within.1]
          obtain ⟨checked, isChecked⟩ := Option.isSome_iff_exists.mp within.2
          rw [isChecked]
          cases checked with
          | invalid => exact ⟨_, rfl, turned⟩
          | valid fingerprint =>
              exact turned.answer buffer recent (Nat.lt_of_not_le exhausted)
                (bindingRequest_of_valid crc32 isPassed isChecked)

theorem Limited.execute (limited : Limited crc32 state) (events : List Event) :
    ∃ final, execute (Stun.step crc32) state events = some final ∧ Limited crc32 final := by
  induction events generalizing state with
  | nil => exact ⟨state, rfl, limited⟩
  | cons event rest inductionHypothesis =>
      obtain ⟨next, stepped, limited⟩ := limited.step event
      obtain ⟨final, executed, limited⟩ := inductionHypothesis limited
      exact ⟨final, execute_cons.mpr ⟨next, stepped, executed⟩, limited⟩

variable (crc32)

/-- The checks of every datagram end, find the same whatever stands behind it in the buffer,
and accept exactly the binding requests. -/
structure Parses (datagram : Bytes) : Prop where
  header : ∀ rest, Stun.header (datagram ++ rest) datagram.length =
    Stun.header datagram datagram.length
  headed : (Stun.header datagram datagram.length).isSome
  attributes : Stun.header datagram datagram.length = some true → ∀ rest,
    Stun.attributes crc32 (datagram ++ rest) datagram.length 20 false =
      Stun.attributes crc32 datagram datagram.length 20 false
  attributed : Stun.header datagram datagram.length = some true →
    (Stun.attributes crc32 datagram datagram.length 20 false).isSome
  accepts : ∀ fingerprint, (Stun.header datagram datagram.length = some true ∧
      Stun.attributes crc32 datagram datagram.length 20 false = some (.valid fingerprint)) ↔
    BindingRequest crc32 datagram fingerprint

theorem parses (datagram : Bytes) : Parses crc32 datagram where
  header rest := (header_within datagram rest).1
  headed := (header_within datagram []).2
  attributes passed rest :=
    (attributes_within crc32 datagram rest false (take_header passed).2.2.1 rfl).1
  attributed passed :=
    (attributes_within crc32 datagram [] false (take_header passed).2.2.1 rfl).2
  accepts _ := ⟨fun both => bindingRequest_of_valid crc32 both.1 both.2,
    valid_of_bindingRequest crc32⟩

/-- The responder reads every datagram within its bounds, and over every sequence of
datagrams it answers binding requests only, correctly and within its limits. -/
theorem responder_bounded :
    (∀ datagram, Parses crc32 datagram) ∧
    ∀ clock events, ∃ final, execute (step crc32) (State.starting clock) events = some final ∧
      Served crc32 final.sent := by
  refine ⟨parses crc32, fun clock events => ?_⟩
  obtain ⟨final, executed, limited⟩ := (Limited.starting crc32 clock).execute events
  exact ⟨final, executed, limited.served⟩

end Cairn.Beacon.Stun

import Cairn.Protocol.DataChannel

/-!
Owns the accounting of the reassembly budget: what every branch of the decoder
reserves and returns, one decoder at a time against what the others hold, and
from it the bounds over any run of the decoders of an installation.
`reassembly_budget_safe` is the main result.
-/

set_option autoImplicit false

namespace Cairn.Protocol.DataChannel

open Cairn.Library.HashMaps

/-! ### Counters -/

/-- The caps on the counters. -/
structure Reservations.Within (reserved : Reservations) : Prop where
  total : reserved.total ≤ 2 * maxFrame
  members : reserved.members ≤ maxFrame
  accounts : ∀ account, getD reserved.accounts account 0 ≤ maxFrame

/-- What the other holders of a budget have reserved. -/
structure Rest where
  total : Nat
  members : Nat
  accounts : String → Nat

/-- The counters are what the others hold and an amount of one handle. -/
structure Covers (rest : Rest) (budget : ReassemblyBudget) (amount : Nat)
    (reserved : Reservations) : Prop where
  total : reserved.total = rest.total + amount
  members : reserved.members = rest.members + if budget.member then amount else 0
  accounts : ∀ account, getD reserved.accounts account 0 =
    rest.accounts account + if account = budget.account then amount else 0
  positive : ∀ account, reserved.accounts.lookup account ≠ some 0

theorem checkedSub_of_le {value amount : Nat} (le : amount ≤ value) :
    checkedSub value amount = some (value - amount) :=
  if_pos le

theorem lookup_of_getD_pos {table : HashMap String Nat} {account : String}
    (positive : 0 < getD table account 0) : table.lookup account = some (getD table account 0) := by
  unfold getD at *
  cases found : table.lookup account with
  | none => simp [found] at positive
  | some value => rfl

namespace ReassemblyBudget

theorem lookup_settled (account other : String) (remaining : Nat) (accounts : HashMap String Nat) :
    (settled account remaining accounts).lookup other =
      if other = account then if remaining = 0 then none else some remaining
      else accounts.lookup other := by
  unfold settled
  by_cases zero : remaining = 0
  · simp only [zero, if_true, lookup_erase]
  · simp only [zero, if_false, lookup_insert]

theorem getD_settled (account other : String) (remaining : Nat) (accounts : HashMap String Nat) :
    getD (settled account remaining accounts) other 0 =
      if other = account then remaining else getD accounts other 0 := by
  unfold getD
  rw [lookup_settled]
  by_cases same : other = account <;> by_cases zero : remaining = 0 <;> simp [same, zero]

end ReassemblyBudget

/-- A reservation is returned without underflow. -/
theorem Covers.release {rest : Rest} {budget : ReassemblyBudget} {amount bytes : Nat}
    {reserved : Reservations} (covers : Covers rest budget amount reserved)
    (within : reserved.Within) (positive : 0 < bytes) (le : bytes ≤ amount) :
    ∃ next, budget.release bytes reserved = some next ∧
      Covers rest budget (amount - bytes) next ∧ next.Within := by
  have total := covers.total
  have account := covers.accounts budget.account
  rw [if_pos rfl] at account
  have stored : reserved.accounts.lookup budget.account =
      some (getD reserved.accounts budget.account 0) := lookup_of_getD_pos (by omega)
  have members : budget.releasedMembers bytes reserved =
      some (rest.members + if budget.member then amount - bytes else 0) := by
    have before := covers.members
    unfold ReassemblyBudget.releasedMembers
    cases member : budget.member with
    | true =>
        simp only [member, if_true] at before ⊢
        rw [checkedSub_of_le (by omega)]
        congr 1
        omega
    | false => simpa [member] using before
  have accounts : ∀ other, getD (ReassemblyBudget.settled budget.account
      (getD reserved.accounts budget.account 0 - bytes) reserved.accounts) other 0 =
        rest.accounts other + if other = budget.account then amount - bytes else 0 := by
    intro other
    rw [ReassemblyBudget.getD_settled]
    by_cases same : other = budget.account
    · subst other
      simp only [if_true]
      omega
    · simpa [same] using covers.accounts other
  refine ⟨⟨reserved.total - bytes, rest.members + if budget.member then amount - bytes else 0,
    ReassemblyBudget.settled budget.account
      (getD reserved.accounts budget.account 0 - bytes) reserved.accounts⟩,
    ?_, ⟨?_, rfl, accounts, ?_⟩, ?_, ?_, ?_⟩
  · simp only [ReassemblyBudget.release, checkedSub_of_le (show bytes ≤ reserved.total by omega),
      members, stored,
      checkedSub_of_le (show bytes ≤ getD reserved.accounts budget.account 0 by omega),
      Option.bind_eq_bind, Option.bind_some]
  · dsimp only
    omega
  · intro other
    dsimp only
    rw [ReassemblyBudget.lookup_settled]
    by_cases same : other = budget.account
    · by_cases zero : getD reserved.accounts budget.account 0 - bytes = 0 <;> simp [same, zero]
    · simpa [same] using covers.positive other
  · exact Nat.le_trans (Nat.sub_le _ _) within.total
  · refine Nat.le_trans ?_ within.members
    rw [covers.members]
    dsimp only
    split <;> omega
  · intro other
    refine Nat.le_trans ?_ (within.accounts other)
    rw [covers.accounts other]
    dsimp only
    rw [accounts]
    split <;> omega

/-- A granted reservation keeps the caps. -/
theorem Covers.reserve {rest : Rest} {budget : ReassemblyBudget} {amount bytes : Nat}
    {reserved next : Reservations} (covers : Covers rest budget amount reserved)
    (positive : 0 < bytes) (within : reserved.Within)
    (granted : budget.reserve bytes reserved = .ok next) :
    Covers rest budget (amount + bytes) next ∧ next.Within := by
  unfold ReassemblyBudget.reserve at granted
  dsimp only at granted
  split at granted
  · simp at granted
  rename_i room
  push Not at room
  obtain ⟨total, account, members⟩ := room
  obtain rfl := Except.ok.inj granted
  have accounts : ∀ other, getD (reserved.accounts.insert budget.account
      (getD reserved.accounts budget.account 0 + bytes)) other 0 =
        rest.accounts other + if other = budget.account then amount + bytes else 0 := by
    intro other
    have before := covers.accounts other
    rw [getD_insert]
    by_cases same : other = budget.account
    · subst other
      simp only [if_true] at before ⊢
      omega
    · simpa [same] using before
  refine ⟨⟨?_, ?_, accounts, ?_⟩, total, ?_, ?_⟩
  · have before := covers.total
    dsimp only
    omega
  · rw [covers.members]
    dsimp only
    split <;> omega
  · intro other
    dsimp only
    rw [lookup_insert]
    split
    · intro zero
      have := Option.some.inj zero
      omega
    · exact covers.positive other
  · have before := within.members
    dsimp only
    split
    · exact members (by assumption)
    · exact before
  · intro other
    have before := within.accounts other
    dsimp only
    rw [getD_insert]
    split
    · exact account
    · exact before

/-! ### One decoder -/

namespace FrameDecoder

/-- What a decoder has reserved. -/
def held (decoder : FrameDecoder) : Nat := sum Assembly.reservation decoder.pending

/-- The bytes in the assemblies of a decoder. -/
def stored (decoder : FrameDecoder) : Nat :=
  sum (fun frame => frame.bytes.length) decoder.pending

/-- An assembly holds its declared total and is incomplete. -/
structure Underway (frame : Assembly) : Prop where
  reserved : frame.reservation = frame.total
  incomplete : frame.bytes.length < frame.total

/-- What every decoder keeps. -/
structure Sound (decoder : FrameDecoder) : Prop where
  underway : ∀ id frame, decoder.pending.lookup id = some frame → Underway frame
  buffered : decoder.buffered = decoder.stored

/-- A decoder and the counters, against what the others hold. -/
structure Keeps (rest : Rest) (budget : ReassemblyBudget) (state : FrameDecoder × Reservations) :
    Prop where
  handle : state.1.budget = budget
  sound : state.1.Sound
  covers : Covers rest budget state.1.held state.2
  within : state.2.Within

variable {rest : Rest} {budget : ReassemblyBudget}

/-- An assembly that leaves returns its reservation; it may be complete. -/
theorem remove_keeps {decoder : FrameDecoder} {reserved : Reservations} {id : UInt32}
    {frame : Assembly} (found : decoder.pending.lookup id = some frame)
    (positive : 0 < frame.reservation)
    (others : ∀ other frame, other ≠ id → decoder.pending.lookup other = some frame →
      Underway frame)
    (buffered : decoder.buffered = decoder.stored) (isBudget : decoder.budget = budget)
    (covers : Covers rest budget decoder.held reserved) (within : reserved.Within) :
    ∃ next, decoder.remove id frame reserved = some next ∧ Keeps rest budget next ∧
      next.1.pending = decoder.pending.erase id ∧ next.1.discarded = decoder.discarded := by
  have bytes := sum_eq_add_erase (fun frame : Assembly => frame.bytes.length) found
  have amount := sum_eq_add_erase Assembly.reservation found
  obtain ⟨next, released, coversNext, withinNext⟩ :=
    covers.release within positive (by unfold held; omega)
  refine ⟨({ decoder with
      pending := decoder.pending.erase id
      buffered := decoder.buffered - frame.bytes.length }, next), ?_, ⟨isBudget, ⟨?_, ?_⟩, ?_,
    withinNext⟩, rfl, rfl⟩
  · have enough : frame.bytes.length ≤ decoder.buffered := by
      rw [buffered]
      unfold stored
      omega
    simp only [remove, checkedSub_of_le enough, isBudget, released, Option.bind_eq_bind,
      Option.bind_some]
  · intro other otherFrame stored
    obtain ⟨different, stored⟩ := lookup_of_erase stored
    exact others other otherFrame different stored
  · dsimp only
    rw [buffered]
    unfold stored
    dsimp only
    omega
  · have remaining : decoder.held - frame.reservation = sum Assembly.reservation
        (decoder.pending.erase id) := by
      unfold held
      omega
    rw [remaining] at coversNext
    exact coversNext

/-- A sound decoder gives up one of its assemblies. -/
theorem Keeps.remove {state : FrameDecoder × Reservations} (keeps : Keeps rest budget state)
    {id : UInt32} {frame : Assembly} (found : state.1.pending.lookup id = some frame) :
    ∃ next, state.1.remove id frame state.2 = some next ∧ Keeps rest budget next ∧
      next.1.pending = state.1.pending.erase id ∧ next.1.discarded = state.1.discarded := by
  have underway := keeps.sound.underway id frame found
  refine remove_keeps found ?_ (fun other frame _ => keeps.sound.underway other frame)
    keeps.sound.buffered keeps.handle keeps.covers keeps.within
  rw [underway.reserved]
  exact Nat.lt_of_le_of_lt (Nat.zero_le _) underway.incomplete

/-- The set of discarded transfers has no part in the accounting. -/
theorem Keeps.withDiscarded {state : FrameDecoder × Reservations}
    (keeps : Keeps rest budget state) (discarded : HashMap UInt32 Discarded) :
    Keeps rest budget ({ state.1 with discarded := discarded }, state.2) :=
  ⟨keeps.handle, ⟨keeps.sound.underway, keeps.sound.buffered⟩, keeps.covers, keeps.within⟩

/-- Entries still to visit: distinct and stored. -/
def Visits (entries : List ((_ : UInt32) × Assembly)) (decoder : FrameDecoder) : Prop :=
  entries.NodupKeys ∧ ∀ entry ∈ entries, decoder.pending.lookup entry.1 = some entry.2

theorem visits_filter (decoder : FrameDecoder) (keep : ((_ : UInt32) × Assembly) → Bool) :
    Visits (decoder.pending.entries.filter keep) decoder :=
  ⟨decoder.pending.nodupKeys.sublist List.filter_sublist, fun _ member =>
    AList.mem_lookup_iff.mpr (List.mem_of_mem_filter member)⟩

/-- Giving up a list of stored assemblies. -/
theorem discardAll_keeps {entries : List ((_ : UInt32) × Assembly)}
    {state : FrameDecoder × Reservations} (keeps : Keeps rest budget state)
    (visits : Visits entries state.1) :
    ∃ next, entries.foldlM discard state = some next ∧ Keeps rest budget next := by
  induction entries generalizing state with
  | nil => exact ⟨state, rfl, keeps⟩
  | cons entry entries inductionHypothesis =>
      obtain ⟨distinct, found⟩ := visits
      obtain ⟨fresh, distinct⟩ := List.nodupKeys_cons.mp distinct
      obtain ⟨removed, isRemoved, keepsRemoved, pending, _⟩ := keeps.remove (found entry (by simp))
      have foundRest : ∀ other ∈ entries, removed.1.pending.lookup other.1 = some other.2 := by
        intro other member
        have different : other.1 ≠ entry.1 := fun same =>
          fresh (same ▸ List.mem_map_of_mem member)
        rw [pending, lookup_erase, if_neg different]
        exact found other (by simp [member])
      obtain ⟨next, finished, keepsNext⟩ := inductionHypothesis
        (keepsRemoved.withDiscarded (removed.1.discarded.insert entry.1
          ⟨entry.2.total, entry.2.bytes.length⟩)) ⟨distinct, foundRest⟩
      refine ⟨next, ?_, keepsNext⟩
      rw [List.foldlM_cons]
      simpa only [discard, isRemoved, Option.bind_eq_bind, Option.bind_some] using finished

theorem Keeps.expire {state : FrameDecoder × Reservations} (keeps : Keeps rest budget state)
    (readings : Readings) :
    ∃ next, state.1.expire readings state.2 = some next ∧ Keeps rest budget next :=
  discardAll_keeps keeps (visits_filter _ _)

theorem remove_eq_some {decoder : FrameDecoder} {reserved : Reservations} {id : UInt32}
    {frame : Assembly} {next : FrameDecoder × Reservations}
    (removed : decoder.remove id frame reserved = some next) :
    next.1.pending = decoder.pending.erase id ∧ next.1.discarded = decoder.discarded := by
  unfold FrameDecoder.remove at removed
  simp only [Option.bind_eq_bind, Option.bind_eq_some_iff, Option.some.injEq] at removed
  obtain ⟨buffered, _, released, _, rfl⟩ := removed
  exact ⟨rfl, rfl⟩

/-- An abort takes exactly its own transfer out of both tables. -/
theorem Keeps.abort {Frame : Type} {state : FrameDecoder × Reservations}
    (keeps : Keeps rest budget state) (id : UInt32) :
    ∃ next, state.1.abort id state.2 = some ((next, .ok none) : Answer Frame) ∧
      Keeps rest budget next ∧ next.1.pending = state.1.pending.erase id ∧
      next.1.discarded = state.1.discarded.erase id := by
  unfold FrameDecoder.abort
  cases found : state.1.pending.lookup id with
  | none =>
      exact ⟨({ state.1 with discarded := state.1.discarded.erase id }, state.2), rfl,
        keeps.withDiscarded _, (erase_of_notMem (AList.lookup_eq_none.mp found)).symm, rfl⟩
  | some frame =>
      obtain ⟨next, removed, keepsNext, pending, discarded⟩ := keeps.remove found
      refine ⟨({ next.1 with discarded := next.1.discarded.erase id }, next.2), ?_,
        keepsNext.withDiscarded _, pending, by rw [discarded]⟩
      simp only [removed, Option.bind_eq_bind, Option.bind_some]

theorem Keeps.drain {Frame : Type} {state : FrameDecoder × Reservations}
    (keeps : Keeps rest budget state) (fragment : Fragment) (discarded : Discarded) :
    Keeps rest budget (state.1.drain fragment discarded state.2 : Answer Frame).1 := by
  unfold FrameDecoder.drain
  split
  · exact keeps
  · exact keeps.withDiscarded _

/-- The assembly a matching fragment leads to. -/
def grown (readings : Readings) (fragment : Fragment) (frame : Assembly) : Assembly :=
  ⟨frame.reservation, frame.total, frame.bytes ++ fragment.payload, readings.progressed⟩

variable {Frame : Type} (codec : Codec Frame)

theorem Keeps.extend {state : FrameDecoder × Reservations} (keeps : Keeps rest budget state)
    (readings : Readings) {fragment : Fragment} (fits : ¬ fragment.Exceeds) :
    ∃ answer, state.1.extend codec readings fragment state.2 = some answer ∧
      Keeps rest budget answer.1 := by
  unfold FrameDecoder.extend
  cases found : state.1.pending.lookup fragment.id with
  | none => exact ⟨_, rfl, keeps⟩
  | some frame =>
      dsimp only
      by_cases mismatch : frame.total ≠ fragment.total ∨ frame.bytes.length ≠ fragment.offset
      · exact ⟨_, if_pos mismatch, keeps⟩
      rw [if_neg mismatch]
      push Not at mismatch
      obtain ⟨sameTotal, sameOffset⟩ := mismatch
      have underway := keeps.sound.underway fragment.id frame found
      let grown : Assembly := grown readings fragment frame
      let decoder : FrameDecoder :=
        ⟨state.1.pending.insert fragment.id grown, state.1.discarded,
          state.1.buffered + fragment.payload.length, state.1.budget⟩
      have grownFound : decoder.pending.lookup fragment.id = some grown := AList.lookup_insert _
      have others : ∀ other frame, other ≠ fragment.id →
          decoder.pending.lookup other = some frame → Underway frame := by
        intro other otherFrame different stored
        rw [lookup_insert, if_neg different] at stored
        exact keeps.sound.underway other otherFrame stored
      have grownLength : grown.bytes.length = frame.bytes.length + fragment.payload.length :=
        List.length_append
      have buffered : decoder.buffered = decoder.stored := by
        have replaced : decoder.stored + frame.bytes.length =
            state.1.stored + grown.bytes.length :=
          sum_replace (fun frame : Assembly => frame.bytes.length) found grown
        have counted := keeps.sound.buffered
        show state.1.buffered + fragment.payload.length = decoder.stored
        omega
      have held : decoder.held = state.1.held := by
        have replaced : decoder.held + frame.reservation = state.1.held + frame.reservation :=
          sum_replace Assembly.reservation found grown
        omega
      have covers : Covers rest budget decoder.held state.2 := held ▸ keeps.covers
      by_cases incomplete : grown.bytes.length ≠ fragment.total
      · refine ⟨_, if_pos incomplete, keeps.handle, ⟨fun other otherFrame stored => ?_, buffered⟩,
          covers, keeps.within⟩
        by_cases same : other = fragment.id
        · rw [same] at stored
          obtain rfl := Option.some.inj (grownFound.symm.trans stored)
          refine ⟨underway.reserved, ?_⟩
          unfold Fragment.Exceeds at fits
          show grown.bytes.length < frame.total
          omega
        · exact others other otherFrame same stored
      · have positive : 0 < grown.reservation := by
          show 0 < frame.reservation
          have := underway.reserved
          have := underway.incomplete
          omega
        obtain ⟨next, removed, keepsNext, _⟩ := remove_keeps grownFound positive others buffered
          keeps.handle covers keeps.within
        refine ⟨(next, decoded codec grown.bytes), (if_neg incomplete).trans ?_, keepsNext⟩
        exact congrArg
          (fun result => result.bind fun state => some (state, decoded codec grown.bytes)) removed

/-- What a fragment that continues its assembly does: the assembly grows, or it is
complete and leaves. -/
theorem extend_matching {decoder : FrameDecoder} {reserved : Reservations} {readings : Readings}
    {fragment : Fragment} {frame : Assembly} {answer : Answer Frame}
    (extended : decoder.extend codec readings fragment reserved = some answer)
    (found : decoder.pending.lookup fragment.id = some frame)
    (sameTotal : frame.total = fragment.total) (sameOffset : frame.bytes.length = fragment.offset) :
    answer.1.1.discarded = decoder.discarded ∧
    ((grown readings fragment frame).bytes.length ≠ fragment.total →
      answer.2 = .ok none ∧ answer.1.1.pending =
        decoder.pending.insert fragment.id (grown readings fragment frame)) ∧
    ((grown readings fragment frame).bytes.length = fragment.total →
      answer.2 = decoded codec (grown readings fragment frame).bytes ∧
      answer.1.1.pending = (decoder.pending.insert fragment.id
        (grown readings fragment frame)).erase fragment.id) := by
  have matching : ¬ (frame.total ≠ fragment.total ∨ frame.bytes.length ≠ fragment.offset) := by
    rw [not_or, not_not, not_not]
    exact ⟨sameTotal, sameOffset⟩
  rw [FrameDecoder.extend, found] at extended
  dsimp only at extended
  rw [if_neg matching] at extended
  split at extended
  · rename_i incomplete
    obtain rfl := Option.some.inj extended
    exact ⟨rfl, fun _ => ⟨rfl, rfl⟩, fun complete => absurd complete incomplete⟩
  · rename_i complete
    obtain ⟨next, removed, answered⟩ := Option.bind_eq_some_iff.mp extended
    obtain ⟨pending, discarded⟩ := remove_eq_some removed
    obtain rfl := Option.some.inj answered
    exact ⟨discarded, fun incomplete => absurd incomplete complete, fun _ => ⟨rfl, pending⟩⟩

/-- A fragment that does not exceed its total declares a positive one. -/
theorem total_pos {fragment : Fragment} (fits : ¬ fragment.Exceeds) : 0 < fragment.total := by
  unfold Fragment.Exceeds at fits
  push Not at fits
  have payload := List.length_pos_of_ne_nil fits.1
  omega

/-- A new assembly with its reservation. -/
theorem Keeps.admitted {state : FrameDecoder × Reservations} (keeps : Keeps rest budget state)
    {id : UInt32} {total : Nat} (lastProgress : Nat) {reserved : Reservations}
    (fresh : id ∉ state.1.pending) (positive : 0 < total)
    (claimed : state.1.claim total state.2 = .ok reserved) :
    Keeps rest budget ({ state.1 with
      pending := state.1.pending.insert id ⟨total, total, [], lastProgress⟩ }, reserved) := by
  unfold FrameDecoder.claim at claimed
  split at claimed
  · simp at claimed
  rw [keeps.handle] at claimed
  obtain ⟨covers, within⟩ := keeps.covers.reserve positive keeps.within claimed
  refine ⟨keeps.handle, ⟨fun other frame stored => ?_, ?_⟩, ?_, within⟩
  · dsimp only at stored
    rw [lookup_insert] at stored
    split at stored
    · obtain rfl := Option.some.inj stored
      exact ⟨rfl, positive⟩
    · exact keeps.sound.underway other frame stored
  · have counted := keeps.sound.buffered
    unfold FrameDecoder.stored at *
    rw [sum_insert_of_notMem _ _ fresh]
    simpa using counted
  · have held := sum_insert_of_notMem Assembly.reservation
      (⟨total, total, [], lastProgress⟩ : Assembly) fresh
    rw [Nat.add_comm] at held
    unfold FrameDecoder.held at *
    rw [held]
    exact covers

theorem Keeps.admitFragment {state : FrameDecoder × Reservations} (keeps : Keeps rest budget state)
    (readings : Readings) {fragment : Fragment} (fits : ¬ fragment.Exceeds) :
    ∃ answer, state.1.admitFragment codec readings fragment state.2 = some answer ∧
      Keeps rest budget answer.1 := by
  unfold FrameDecoder.admitFragment
  by_cases crowded : fragment.id ∈ state.1.pending ∨
      size state.1.pending + size state.1.discarded ≥ maxInFlight
  · exact ⟨_, if_pos crowded, keeps⟩
  rw [if_neg crowded]
  push Not at crowded
  by_cases whole : state.1.budget.member = true ∧ fragment.payload.length = fragment.total
  · exact ⟨_, if_pos whole, keeps⟩
  rw [if_neg whole]
  cases claimed : state.1.claim fragment.total state.2 with
  | ok reserved =>
      exact (keeps.admitted readings.admitted crowded.1 (total_pos fits) claimed).extend codec
        readings fits
  | error error =>
      dsimp only
      split
      · exact ⟨_, rfl, keeps.withDiscarded _⟩
      · exact ⟨_, rfl, keeps⟩

theorem Keeps.accept {state : FrameDecoder × Reservations} (keeps : Keeps rest budget state)
    (readings : Readings) (fragment : Fragment) :
    ∃ answer, state.1.accept codec readings fragment state.2 = some answer ∧
      Keeps rest budget answer.1 := by
  unfold FrameDecoder.accept
  by_cases aborts : fragment.Aborts
  · rw [if_pos aborts]
    obtain ⟨next, aborted, keepsNext, _⟩ := keeps.abort fragment.id
    exact ⟨(next, .ok none), aborted, keepsNext⟩
  rw [if_neg aborts]
  by_cases exceeds : fragment.Exceeds
  · exact ⟨_, if_pos exceeds, keeps⟩
  rw [if_neg exceeds]
  cases state.1.discarded.lookup fragment.id with
  | some discarded => exact ⟨_, rfl, keeps.drain fragment discarded⟩
  | none =>
      dsimp only
      split
      · exact keeps.admitFragment codec readings exceeds
      · exact keeps.extend codec readings exceeds

/-- A packet never makes a counter run below zero, and keeps the accounting. -/
theorem Keeps.push {state : FrameDecoder × Reservations} (keeps : Keeps rest budget state)
    (readings : Readings) (packet : Bytes) :
    ∃ answer, state.1.push codec readings packet state.2 = some answer ∧
      Keeps rest budget answer.1 := by
  obtain ⟨⟨decoder, reserved⟩, expired, keepsExpired⟩ := keeps.expire readings
  simp only [FrameDecoder.push, expired, Option.bind_eq_bind, Option.bind_some]
  cases DataChannel.fragment packet with
  | error error => exact ⟨_, rfl, keepsExpired⟩
  | ok fragment => exact keepsExpired.accept codec readings fragment

/-- A dropped decoder returns everything it holds. -/
theorem Keeps.drop {state : FrameDecoder × Reservations} (keeps : Keeps rest budget state) :
    ∃ reserved, state.1.drop state.2 = some reserved ∧ Covers rest budget 0 reserved ∧
      reserved.Within := by
  have positive : ∀ entry ∈ state.1.pending.entries, 0 < entry.2.reservation := by
    intro entry member
    have underway := keeps.sound.underway entry.1 entry.2 (AList.mem_lookup_iff.mpr member)
    have := underway.reserved
    have := underway.incomplete
    omega
  have covers := keeps.covers
  have within := keeps.within
  unfold FrameDecoder.drop
  rw [keeps.handle]
  unfold FrameDecoder.held sum at covers
  generalize state.1.pending.entries = entries at positive covers
  generalize state.2 = reserved at covers within
  clear keeps
  induction entries generalizing reserved with
  | nil => exact ⟨reserved, rfl, covers, within⟩
  | cons entry entries inductionHypothesis =>
      rw [List.map_cons, List.sum_cons] at covers
      obtain ⟨next, released, coversNext, withinNext⟩ :=
        covers.release within (positive entry (by simp)) (Nat.le_add_right _ _)
      rw [Nat.add_sub_cancel_left] at coversNext
      rw [List.foldlM_cons, released]
      exact inductionHypothesis (fun other member => positive other (by simp [member])) next
        coversNext withinNext

end FrameDecoder

/-! ### All decoders of an installation -/

/-- The shared counters and the live decoders, by peer. -/
structure Installation where
  reserved : Reservations
  decoders : HashMap Nat FrameDecoder

namespace Installation

/-- An installation before any peer connects. -/
def initial : Installation := ⟨Reservations.initial, ∅⟩

/-- What happens to the decoders. -/
inductive Event where
  | connect (peer : Nat) (budget : ReassemblyBudget)
  | push (peer : Nat) (readings : Readings) (packet : Bytes)
  | expire (peer : Nat) (readings : Readings)
  | disconnect (peer : Nat)

/-- A peer's decoder and the counters after a call. -/
def update (peer : Nat) (state : FrameDecoder × Reservations) (installation : Installation) :
    Installation :=
  ⟨state.2, installation.decoders.insert peer state.1⟩

variable {Frame : Type} (codec : Codec Frame)

/-- One event; events of peers that are not connected change nothing. -/
def step (installation : Installation) : Event → Option Installation
  | .connect peer budget =>
      if peer ∈ installation.decoders then some installation
      else some ⟨installation.reserved,
        installation.decoders.insert peer (FrameDecoder.withBudget budget)⟩
  | .push peer readings packet =>
      match installation.decoders.lookup peer with
      | none => some installation
      | some decoder => do
          let answer ← decoder.push codec readings packet installation.reserved
          some (installation.update peer answer.1)
  | .expire peer readings =>
      match installation.decoders.lookup peer with
      | none => some installation
      | some decoder => do
          let state ← decoder.expire readings installation.reserved
          some (installation.update peer state)
  | .disconnect peer =>
      match installation.decoders.lookup peer with
      | none => some installation
      | some decoder => do
          let reserved ← decoder.drop installation.reserved
          some ⟨reserved, installation.decoders.erase peer⟩

/-- A sequence of events. -/
def run (installation : Installation) (events : List Event) : Option Installation :=
  events.foldlM (step codec) installation

/-- What the decoders of a table hold. -/
def restOf (decoders : HashMap Nat FrameDecoder) : Rest where
  total := sum FrameDecoder.held decoders
  members := sum (fun decoder => if decoder.budget.member then decoder.held else 0) decoders
  accounts := fun account =>
    sum (fun decoder => if account = decoder.budget.account then decoder.held else 0) decoders

theorem restOf_members (decoders : HashMap Nat FrameDecoder) :
    (restOf decoders).members =
      sum (fun decoder => if decoder.budget.member then decoder.held else 0) decoders := rfl

theorem restOf_accounts (decoders : HashMap Nat FrameDecoder) (account : String) :
    (restOf decoders).accounts account =
      sum (fun decoder => if account = decoder.budget.account then decoder.held else 0)
        decoders := rfl

/-- What every installation keeps: each decoder is sound, and each counter is the
sum over the decoders it counts, within its cap. -/
structure Sound (installation : Installation) : Prop where
  decoders : ∀ peer decoder, installation.decoders.lookup peer = some decoder → decoder.Sound
  total : installation.reserved.total = (restOf installation.decoders).total
  members : installation.reserved.members = (restOf installation.decoders).members
  accounts : ∀ account, getD installation.reserved.accounts account 0 =
    (restOf installation.decoders).accounts account
  positive : ∀ account, installation.reserved.accounts.lookup account ≠ some 0
  within : installation.reserved.Within

theorem Sound.initial : initial.Sound where
  decoders := fun peer decoder found => by simp [Installation.initial] at found
  total := rfl
  members := rfl
  accounts := fun account => rfl
  positive := fun account => by simp [Installation.initial, Reservations.initial]
  within := ⟨Nat.zero_le _, Nat.zero_le _, fun _ => Nat.zero_le _⟩

/-- One decoder of a sound installation, against the others. -/
theorem Sound.keeps {installation : Installation} (sound : installation.Sound) {peer : Nat}
    {decoder : FrameDecoder} (found : installation.decoders.lookup peer = some decoder) :
    FrameDecoder.Keeps (restOf (installation.decoders.erase peer)) decoder.budget
      (decoder, installation.reserved) where
  handle := rfl
  sound := sound.decoders peer decoder found
  covers := {
    total := sound.total.trans
      ((sum_eq_add_erase FrameDecoder.held found).trans (Nat.add_comm _ _))
    members := sound.members.trans
      ((sum_eq_add_erase (fun decoder : FrameDecoder =>
        if decoder.budget.member then decoder.held else 0) found).trans (Nat.add_comm _ _))
    accounts := fun account => (sound.accounts account).trans
      ((sum_eq_add_erase (fun decoder : FrameDecoder =>
        if account = decoder.budget.account then decoder.held else 0) found).trans
          (Nat.add_comm _ _))
    positive := sound.positive }
  within := sound.within

/-- A decoder that keeps the accounting makes a sound installation with the others. -/
theorem Sound.update {installation : Installation} (sound : installation.Sound) {peer : Nat}
    {budget : ReassemblyBudget} {state : FrameDecoder × Reservations}
    (keeps : FrameDecoder.Keeps (restOf (installation.decoders.erase peer)) budget state) :
    (installation.update peer state).Sound where
  decoders := fun other decoder found => by
    simp only [Installation.update, lookup_insert] at found
    split at found
    · exact Option.some.inj found ▸ keeps.sound
    · exact sound.decoders other decoder found
  total := by
    simp only [Installation.update, restOf, sum_insert]
    rw [Nat.add_comm]
    exact keeps.covers.total
  members := by
    simp only [Installation.update, restOf, sum_insert, keeps.handle]
    rw [Nat.add_comm]
    exact keeps.covers.members
  accounts := fun account => by
    simp only [Installation.update, restOf, sum_insert, keeps.handle]
    rw [Nat.add_comm]
    exact keeps.covers.accounts account
  positive := keeps.covers.positive
  within := keeps.within

theorem Sound.connected {installation : Installation} (sound : installation.Sound) {peer : Nat}
    {budget : ReassemblyBudget} (absent : peer ∉ installation.decoders) :
    (installation.update peer (FrameDecoder.withBudget budget, installation.reserved)).Sound := by
  have keeps : FrameDecoder.Keeps (restOf (installation.decoders.erase peer)) budget
      (FrameDecoder.withBudget budget, installation.reserved) := by
    rw [erase_of_notMem absent]
    have empty : (FrameDecoder.withBudget budget).held = 0 := rfl
    refine ⟨rfl, ⟨fun id frame found => by simp [FrameDecoder.withBudget] at found, rfl⟩, ?_,
      sound.within⟩
    rw [empty]
    exact ⟨sound.total, by simpa using sound.members, fun account => by
      simpa using sound.accounts account, sound.positive⟩
  exact sound.update keeps

/-- The other decoders stay sound when one that holds nothing is gone. -/
theorem Sound.erase {installation : Installation} (sound : installation.Sound) {peer : Nat}
    {budget : ReassemblyBudget} {reserved : Reservations}
    (covers : Covers (restOf (installation.decoders.erase peer)) budget 0 reserved)
    (within : reserved.Within) :
    Sound ⟨reserved, installation.decoders.erase peer⟩ where
  decoders := fun other decoder found => by
    dsimp only at found
    rw [lookup_erase] at found
    split at found
    · simp at found
    · exact sound.decoders other decoder found
  total := by simpa using covers.total
  members := by simpa using covers.members
  accounts := fun account => by simpa using covers.accounts account
  positive := covers.positive
  within := within

/-- No event makes a counter run below zero, and every event keeps the accounting. -/
theorem Sound.step {installation : Installation} (sound : installation.Sound) (event : Event) :
    ∃ next, installation.step codec event = some next ∧ next.Sound := by
  cases event with
  | connect peer budget =>
      unfold Installation.step
      dsimp only
      split
      · exact ⟨_, rfl, sound⟩
      · rename_i absent
        exact ⟨_, rfl, sound.connected absent⟩
  | push peer readings packet =>
      cases found : installation.decoders.lookup peer with
      | none => exact ⟨installation, by simp [Installation.step, found], sound⟩
      | some decoder =>
          obtain ⟨answer, pushed, keeps⟩ := (sound.keeps found).push codec readings packet
          exact ⟨_, by simp [Installation.step, found, pushed], sound.update keeps⟩
  | expire peer readings =>
      cases found : installation.decoders.lookup peer with
      | none => exact ⟨installation, by simp [Installation.step, found], sound⟩
      | some decoder =>
          obtain ⟨state, expired, keeps⟩ := (sound.keeps found).expire readings
          exact ⟨_, by simp [Installation.step, found, expired], sound.update keeps⟩
  | disconnect peer =>
      cases found : installation.decoders.lookup peer with
      | none => exact ⟨installation, by simp [Installation.step, found], sound⟩
      | some decoder =>
          obtain ⟨reserved, dropped, covers, within⟩ := (sound.keeps found).drop
          exact ⟨_, by simp [Installation.step, found, dropped], sound.erase covers within⟩

/-- Only members hold reservations, and none of them under the owner's account. -/
structure OnlyMembersHold (installation : Installation) (owner : ReassemblyBudget) : Prop where
  role : owner.member = false
  members : ∀ peer decoder, installation.decoders.lookup peer = some decoder →
    decoder.budget.member = false → decoder.held = 0
  accounts : ∀ peer decoder, installation.decoders.lookup peer = some decoder →
    decoder.budget.member = true → decoder.budget.account ≠ owner.account

/-- The budget grants the owner any frame while only members hold reservations. -/
theorem Sound.reserves {installation : Installation} (sound : installation.Sound)
    {owner : ReassemblyBudget} (only : installation.OnlyMembersHold owner) {bytes : Nat}
    (fits : bytes ≤ maxFrame) :
    ∃ reserved, owner.reserve bytes installation.reserved = .ok reserved := by
  have total : installation.reserved.total = installation.reserved.members := by
    rw [sound.total, sound.members, restOf_members]
    refine sum_congr fun peer decoder found => ?_
    cases role : decoder.budget.member with
    | true => rfl
    | false => exact only.members peer decoder found role
  have account : getD installation.reserved.accounts owner.account 0 = 0 := by
    rw [sound.accounts, restOf_accounts]
    refine sum_eq_zero _ fun peer decoder found => ?_
    split
    · rename_i same
      cases role : decoder.budget.member with
      | true => exact absurd same.symm (only.accounts peer decoder found role)
      | false => exact only.members peer decoder found role
    · rfl
  have members := sound.within.members
  have room : ¬ (installation.reserved.total + bytes > 2 * maxFrame ∨
      getD installation.reserved.accounts owner.account 0 + bytes > maxFrame ∨
      (owner.member = true ∧ installation.reserved.members + bytes > maxFrame)) := by
    rw [total, account, only.role]
    simp only [Bool.false_eq_true, false_and, or_false, not_or]
    omega
  exact ⟨_, if_neg room⟩

end Installation

namespace FrameDecoder

variable {Frame : Type} (codec : Codec Frame)

/-- A sound decoder that holds nothing has nothing pending. -/
theorem Sound.pending_empty {decoder : FrameDecoder} (sound : decoder.Sound)
    (nothing : decoder.held = 0) : decoder.pending = ∅ := by
  refine AList.ext (List.eq_nil_iff_forall_not_mem.mpr fun entry member => ?_)
  have found : decoder.pending.lookup entry.1 = some entry.2 := AList.mem_lookup_iff.mpr member
  have underway := sound.underway entry.1 entry.2 found
  have bound : entry.2.reservation ≤ decoder.held := le_sum Assembly.reservation found
  have := underway.reserved
  have := underway.incomplete
  omega

/-- The budget grants the decoder any frame. -/
def Granted (decoder : FrameDecoder) (reserved : Reservations) : Prop :=
  ∀ total ≤ maxFrame, ∃ next, decoder.claim total reserved = .ok next

theorem expire_of_empty {decoder : FrameDecoder} (empty : decoder.pending = ∅)
    (readings : Readings) (reserved : Reservations) :
    decoder.expire readings reserved = some (decoder, reserved) := by
  have nothing : decoder.overdue readings = [] := by
    unfold overdue
    rw [empty]
    rfl
  rw [FrameDecoder.expire, nothing]
  rfl

theorem total_le_of_fragment {packet : Bytes} {checked : Fragment}
    (isFragment : fragment packet = .ok checked) : checked.total ≤ maxFrame := by
  unfold fragment at isFragment
  split at isFragment
  · simp at isFragment
  dsimp only at isFragment
  split at isFragment
  · simp at isFragment
  · rename_i valid
    rw [← Except.ok.inj isFragment]
    push Not at valid
    exact valid.2

/-- The first packet of a frame is taken by an owner's decoder the budget grants
any frame, if the transfer is new and there is room for one more. -/
theorem Granted.admits {decoder : FrameDecoder} {reserved : Reservations}
    (granted : decoder.Granted reserved) (empty : decoder.pending = ∅)
    (role : decoder.budget.member = false) (readings : Readings) {packet : Bytes}
    {first : Fragment} (isFragment : fragment packet = .ok first) (start : first.offset = 0)
    (fits : ¬ first.Exceeds) (new : first.id ∉ decoder.discarded)
    (room : size decoder.discarded < maxInFlight) {answer : Answer Frame}
    (pushed : decoder.push codec readings packet reserved = some answer) :
    (first.payload.length = first.total → answer.2 = decoded codec first.payload) ∧
    (first.payload.length ≠ first.total → answer.2 = .ok none ∧ ∃ frame,
      answer.1.1.pending.lookup first.id = some frame ∧ frame.bytes = first.payload) := by
  obtain ⟨next, claimed⟩ := granted first.total (total_le_of_fragment isFragment)
  have notAbort : ¬ first.Aborts := fun aborts => fits (Or.inl aborts.2.2)
  have notDiscarded : decoder.discarded.lookup first.id = none := AList.lookup_eq_none.mpr new
  have uncrowded : ¬ (first.id ∈ decoder.pending ∨
      size decoder.pending + size decoder.discarded ≥ maxInFlight) := by
    rw [empty, not_or]
    refine ⟨AList.notMem_empty _, ?_⟩
    have none : size (∅ : HashMap UInt32 Assembly) = 0 := rfl
    omega
  have notWhole : ¬ (decoder.budget.member = true ∧ first.payload.length = first.total) := by
    simp [role]
  simp only [FrameDecoder.push, expire_of_empty empty, Option.bind_eq_bind, Option.bind_some,
    isFragment] at pushed
  rw [FrameDecoder.accept, if_neg notAbort, if_neg fits, notDiscarded] at pushed
  simp only [start, if_true] at pushed
  rw [FrameDecoder.admitFragment, if_neg uncrowded, if_neg notWhole, claimed] at pushed
  dsimp only at pushed
  obtain ⟨_, incomplete, complete⟩ :=
    extend_matching codec pushed (AList.lookup_insert _) rfl start.symm
  refine ⟨fun ends => (complete ends).1, fun continues => ⟨(incomplete continues).1, ?_⟩⟩
  rw [(incomplete continues).2]
  exact ⟨_, AList.lookup_insert _, rfl⟩

end FrameDecoder

namespace Installation

variable {Frame : Type} (codec : Codec Frame)

theorem Sound.granted {installation : Installation} (sound : installation.Sound) {peer : Nat}
    {owner : FrameDecoder} (found : installation.decoders.lookup peer = some owner)
    (only : installation.OnlyMembersHold owner.budget) : owner.Granted installation.reserved := by
  intro total fits
  obtain ⟨next, reserved⟩ := sound.reserves only fits
  have empty : owner.pending = ∅ := (sound.decoders peer owner found).pending_empty
    (only.members peer owner found only.role)
  refine ⟨next, ?_⟩
  rw [FrameDecoder.claim, empty, sum_empty, if_neg (by omega), reserved]

/-- The counters are back at zero when no transfer is under way. -/
theorem Sound.emptied {installation : Installation} (sound : installation.Sound)
    (ended : ∀ peer decoder, installation.decoders.lookup peer = some decoder →
      decoder.pending = ∅) : installation.reserved = Reservations.initial := by
  have held : ∀ peer decoder, installation.decoders.lookup peer = some decoder →
      decoder.held = 0 := fun peer decoder found => by
    rw [FrameDecoder.held, ended peer decoder found, sum_empty]
  have total : installation.reserved.total = 0 := sound.total.trans (sum_eq_zero _ held)
  have members : installation.reserved.members = 0 := by
    rw [sound.members, restOf_members]
    exact sum_eq_zero _ fun peer decoder found => by simp [held peer decoder found]
  have accounts : installation.reserved.accounts = ∅ := by
    refine eq_empty_of_lookup fun account => ?_
    have zero : getD installation.reserved.accounts account 0 = 0 := by
      rw [sound.accounts, restOf_accounts]
      exact sum_eq_zero _ fun peer decoder found => by simp [held peer decoder found]
    have positive := sound.positive account
    unfold getD at zero
    cases found : installation.reserved.accounts.lookup account with
    | none => rfl
    | some value =>
        rw [found] at zero positive
        exact absurd (congrArg some zero) positive
  obtain ⟨reserved, decoders⟩ := installation
  obtain ⟨reservedTotal, reservedMembers, reservedAccounts⟩ := reserved
  simp only at total members accounts
  rw [total, members, accounts]
  rfl

end Installation

end Cairn.Protocol.DataChannel

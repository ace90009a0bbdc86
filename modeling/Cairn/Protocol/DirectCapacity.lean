import Cairn.Protocol.Direct
import Mathlib.Data.List.Count
import Mathlib.Data.List.Induction

/-!
Owns what the owner keeps on a tunnel shared with members: a tunnel is its
signal budget and its live connections, run by signals, admissions and
closures in any order. `owner_reserve` is the main result.
-/

set_option autoImplicit false

namespace Cairn.Protocol

open Cairn.Library.HashMaps

/-- The claims of one account. -/
def ofAccount (accountId : String) (list : List DirectClaims) : Nat :=
  list.countP fun claims => claims.accountId = accountId

/-- The claims of members. -/
def ofMembers (list : List DirectClaims) : Nat :=
  list.countP fun claims => claims.role = .member

/-- Only the owner's account acts as owner. -/
def DirectClaims.Speaks (owner : String) (claims : DirectClaims) : Prop :=
  claims.role = .owner ↔ claims.accountId = owner

theorem length_of_speaks {owner : String} {list : List DirectClaims}
    (speaks : ∀ claims ∈ list, claims.Speaks owner) :
    list.length = ofMembers list + ofAccount owner list := by
  induction list with
  | nil => rfl
  | cons head tail inductionHypothesis =>
      have headSpeaks := speaks head (by simp)
      have tailLength := inductionHypothesis fun claims member => speaks claims (by simp [member])
      unfold ofMembers ofAccount at *
      rw [List.length_cons, List.countP_cons, List.countP_cons]
      cases role : head.role with
      | owner =>
          have isOwner : head.accountId = owner := headSpeaks.mp role
          simp [isOwner]
          omega
      | member =>
          have notOwner : head.accountId ≠ owner := fun same => by
            simp [headSpeaks.mpr same] at role
          simp [notOwner]
          omega

/-! ### Signals -/

namespace SignalBudget

/-- A budget counts the signals accepted since it started, within the caps. -/
structure Counts (budget : SignalBudget) (window : List DirectClaims) : Prop where
  total : budget.total = window.length
  members : budget.members = ofMembers window
  accounts : ∀ accountId, getD budget.accounts accountId 0 = ofAccount accountId window
  total_le : budget.total ≤ maxSignalsPerTunnel
  members_le : budget.members ≤ maxSignalsPerTunnel - maxSignalsPerAccount

theorem Counts.fresh (started : Nat) : (fresh started).Counts [] where
  total := rfl
  members := rfl
  accounts := fun _ => by simp [SignalBudget.fresh, getD, ofAccount]
  total_le := Nat.zero_le _
  members_le := Nat.zero_le _

theorem Counts.charge {budget : SignalBudget} {window : List DirectClaims}
    (counts : budget.Counts window) {claims : DirectClaims}
    (room : budget.total < maxSignalsPerTunnel)
    (memberRoom : claims.role = .member →
      budget.members < maxSignalsPerTunnel - maxSignalsPerAccount) :
    (budget.charge claims).Counts (window ++ [claims]) where
  total := by simp [SignalBudget.charge, counts.total]
  members := by
    have before := counts.members
    unfold ofMembers at *
    by_cases isMember : claims.role = .member <;>
      simp [SignalBudget.charge, isMember, before, List.countP_append]
  accounts := fun accountId => by
    have before := counts.accounts accountId
    unfold ofAccount at *
    rw [SignalBudget.charge, getD_insert, List.countP_append]
    by_cases same : accountId = claims.accountId
    · subst accountId
      simp [before]
    · simp [same, Ne.symm same, before]
  total_le := room
  members_le := by
    by_cases isMember : claims.role = .member
    · simpa [SignalBudget.charge, isMember] using Nat.succ_le_of_lt (memberRoom isMember)
    · simpa [SignalBudget.charge, isMember] using counts.members_le

/-- What `consume` answers: it charges the current budget and keeps within the
caps, or it names the cap that is reached. -/
theorem consume_cases (now restarted : Nat) (claims : DirectClaims) (budget : SignalBudget) :
    (budget.consume now restarted claims =
        ((budget.current now restarted).charge claims, true) ∧
      (budget.current now restarted).total < maxSignalsPerTunnel ∧
      (claims.role = .member → (budget.current now restarted).members <
        maxSignalsPerTunnel - maxSignalsPerAccount)) ∨
    (budget.consume now restarted claims = (budget.current now restarted, false) ∧
      (maxSignalsPerAccount ≤ getD (budget.current now restarted).accounts claims.accountId 0 ∨
        maxSignalsPerTunnel ≤ (budget.current now restarted).total ∨
        claims.role = .member)) := by
  have unfolded : budget.consume now restarted claims =
      if getD (budget.current now restarted).accounts claims.accountId 0 ≥ maxSignalsPerAccount ∨
          (budget.current now restarted).total ≥ maxSignalsPerTunnel ∨
          (claims.role = .member ∧ (budget.current now restarted).members ≥
            maxSignalsPerTunnel - maxSignalsPerAccount) then
        (budget.current now restarted, false)
      else ((budget.current now restarted).charge claims, true) := rfl
  rw [unfolded]
  split
  · rename_i refused
    refine Or.inr ⟨rfl, ?_⟩
    obtain account | total | members := refused
    · exact Or.inl account
    · exact Or.inr (Or.inl total)
    · exact Or.inr (Or.inr members.1)
  · rename_i accepted
    push Not at accepted
    exact Or.inl ⟨rfl, accepted.2.1, accepted.2.2⟩

end SignalBudget

/-- The state of a tunnel: its budget, the claims of its live connections, and
the signals accepted since the budget last started. -/
structure Tunnel where
  signals : SignalBudget
  connections : List DirectClaims
  window : List DirectClaims

namespace Tunnel

/-- A tunnel when it connects. -/
def connected (started : Nat) : Tunnel := ⟨SignalBudget.fresh started, [], []⟩

/-- The accepted signals a signal at this time is judged with. -/
def windowAt (now : Nat) (tunnel : Tunnel) : List DirectClaims :=
  if now - tunnel.signals.started ≥ SignalBudget.span then [] else tunnel.window

/-- A signal and whether it is let through. -/
def signal (now restarted : Nat) (claims : DirectClaims) (tunnel : Tunnel) : Tunnel × Bool :=
  let (signals, accepted) := tunnel.signals.consume now restarted claims
  ({ tunnel with
      signals := signals
      window := if accepted then tunnel.windowAt now ++ [claims] else tunnel.windowAt now },
    accepted)

/-- A connection and whether it is admitted. -/
def connect (claims : DirectClaims) (tunnel : Tunnel) : Tunnel × Bool :=
  if hasDirectCapacity claims tunnel.connections then
    ({ tunnel with connections := tunnel.connections ++ [claims] }, true)
  else (tunnel, false)

/-- What happens on a tunnel; a closure ends the connections it selects. -/
inductive Event where
  | signal (now restarted : Nat) (claims : DirectClaims)
  | connect (claims : DirectClaims)
  | close (closed : DirectClaims → Bool)

/-- The owner's account acts as owner and every other account as member. -/
def Event.Speaks (owner : String) : Event → Prop
  | .signal _ _ claims => claims.Speaks owner
  | .connect claims => claims.Speaks owner
  | .close _ => True

/-- One event. -/
def step (tunnel : Tunnel) : Event → Tunnel
  | .signal now restarted claims => (tunnel.signal now restarted claims).1
  | .connect claims => (tunnel.connect claims).1
  | .close closed =>
      { tunnel with connections := tunnel.connections.filter fun claims => !closed claims }

/-- A sequence of events. -/
def run (tunnel : Tunnel) (events : List Event) : Tunnel := events.foldl step tunnel

/-- Connections within the caps. -/
structure Admitted (connections : List DirectClaims) : Prop where
  total_le : connections.length ≤ maxDirectConnections
  members_le : ofMembers connections ≤ maxDirectMemberConnections

/-- What every tunnel keeps. -/
structure Bounded (tunnel : Tunnel) : Prop where
  counts : tunnel.signals.Counts tunnel.window
  admitted : Admitted tunnel.connections

/-- The claims a tunnel holds follow the roles of their accounts. -/
structure Spoken (owner : String) (tunnel : Tunnel) : Prop where
  window : ∀ claims ∈ tunnel.window, claims.Speaks owner
  connections : ∀ claims ∈ tunnel.connections, claims.Speaks owner

theorem Bounded.connected (started : Nat) : (connected started).Bounded where
  counts := SignalBudget.Counts.fresh started
  admitted := ⟨Nat.zero_le _, Nat.zero_le _⟩

theorem Bounded.current {tunnel : Tunnel} (bounded : tunnel.Bounded) (now restarted : Nat) :
    (tunnel.signals.current now restarted).Counts (tunnel.windowAt now) := by
  unfold SignalBudget.current windowAt
  by_cases elapsed : now - tunnel.signals.started ≥ SignalBudget.span
  · rw [if_pos elapsed, if_pos elapsed]
    exact SignalBudget.Counts.fresh restarted
  · rw [if_neg elapsed, if_neg elapsed]
    exact bounded.counts

theorem Bounded.signal {tunnel : Tunnel} (bounded : tunnel.Bounded) (now restarted : Nat)
    (claims : DirectClaims) : (tunnel.signal now restarted claims).1.Bounded := by
  have counts := bounded.current now restarted
  obtain ⟨accepted, room, memberRoom⟩ | ⟨refused, _⟩ :=
    SignalBudget.consume_cases now restarted claims tunnel.signals
  · exact ⟨by simpa [Tunnel.signal, accepted] using counts.charge room memberRoom,
      bounded.admitted⟩
  · exact ⟨by simpa [Tunnel.signal, refused] using counts, bounded.admitted⟩

theorem Admitted.connect {connections : List DirectClaims} (admitted : Admitted connections)
    {claims : DirectClaims} (capacity : hasDirectCapacity claims connections = true) :
    Admitted (connections ++ [claims]) := by
  simp only [hasDirectCapacity, decide_eq_true_eq] at capacity
  obtain ⟨total, _, members⟩ := capacity
  refine ⟨by simpa using Nat.succ_le_of_lt total, ?_⟩
  have kept := admitted.members_le
  unfold ofMembers at *
  rw [List.countP_append]
  cases role : claims.role with
  | owner => simpa [role] using kept
  | member => simpa [role] using Nat.succ_le_of_lt (members.resolve_left (by simp [role]))

theorem Bounded.step {tunnel : Tunnel} (bounded : tunnel.Bounded) (event : Event) :
    (tunnel.step event).Bounded := by
  cases event with
  | signal now restarted claims => exact bounded.signal now restarted claims
  | connect claims =>
      unfold Tunnel.step Tunnel.connect
      by_cases capacity : hasDirectCapacity claims tunnel.connections = true
      · simpa [capacity] using ⟨bounded.counts, bounded.admitted.connect capacity⟩
      · simpa [capacity] using bounded
  | close closed =>
      exact ⟨bounded.counts,
        ⟨Nat.le_trans (List.length_filter_le _ _) bounded.admitted.total_le,
          Nat.le_trans (List.filter_sublist.countP_le) bounded.admitted.members_le⟩⟩

theorem Spoken.step {owner : String} {tunnel : Tunnel} (spoken : tunnel.Spoken owner)
    {event : Event} (speaks : event.Speaks owner) : (tunnel.step event).Spoken owner := by
  cases event with
  | signal now restarted claims =>
      refine ⟨fun other member => ?_, spoken.connections⟩
      have recent : ∀ other ∈ tunnel.windowAt now, other.Speaks owner := by
        unfold windowAt
        split
        · simp
        · exact spoken.window
      simp only [Tunnel.step, Tunnel.signal] at member
      split at member
      · obtain old | new := List.mem_append.mp member
        · exact recent other old
        · exact List.mem_singleton.mp new ▸ speaks
      · exact recent other member
  | connect claims =>
      by_cases capacity : hasDirectCapacity claims tunnel.connections = true
      · refine ⟨by simpa [Tunnel.step, Tunnel.connect, capacity] using spoken.window,
          fun other member => ?_⟩
        simp only [Tunnel.step, Tunnel.connect, capacity, if_true] at member
        obtain old | new := List.mem_append.mp member
        · exact spoken.connections other old
        · exact List.mem_singleton.mp new ▸ speaks
      · simpa [Tunnel.step, Tunnel.connect, capacity] using spoken
  | close closed =>
      exact ⟨spoken.window, fun other member =>
        spoken.connections other (List.mem_of_mem_filter member)⟩

theorem run_bounded (started : Nat) (events : List Event) :
    ((connected started).run events).Bounded :=
  List.foldlRecOn events step (Bounded.connected started) fun _ bounded event _ =>
    bounded.step event

theorem run_spoken {owner : String} (started : Nat) {events : List Event}
    (speaks : ∀ event ∈ events, event.Speaks owner) :
    ((connected started).run events).Spoken owner :=
  List.foldlRecOn events step ⟨by simp [connected], by simp [connected]⟩
    fun _ spoken event member => spoken.step (speaks event member)

/-- A refused signal of the owner finds the owner's own share used up. -/
theorem owner_signal_refused {owner : String} {tunnel : Tunnel} (bounded : tunnel.Bounded)
    (spoken : tunnel.Spoken owner) {now restarted : Nat} {claims : DirectClaims}
    (account : claims.accountId = owner) (speaks : claims.Speaks owner)
    (refused : (tunnel.signal now restarted claims).2 = false) :
    maxSignalsPerAccount ≤ ofAccount owner (tunnel.windowAt now) := by
  have counts := bounded.current now restarted
  have isOwner : claims.role = .owner := speaks.mpr account
  obtain ⟨accepted, _⟩ | ⟨_, reason⟩ :=
    SignalBudget.consume_cases now restarted claims tunnel.signals
  · simp [Tunnel.signal, accepted] at refused
  · rw [account, counts.accounts, counts.total] at reason
    obtain used | full | isMember := reason
    · exact used
    · have windowSpeaks : ∀ claims ∈ tunnel.windowAt now, claims.Speaks owner := by
        unfold windowAt
        split
        · simp
        · exact spoken.window
      have split := length_of_speaks windowSpeaks
      have members := counts.members ▸ counts.members_le
      unfold maxSignalsPerTunnel at *
      unfold maxSignalsPerAccount at *
      omega
    · simp [isOwner] at isMember

/-- A refused connection of the owner finds the owner's own share in use. -/
theorem owner_connection_refused {owner : String} {tunnel : Tunnel} (bounded : tunnel.Bounded)
    (spoken : tunnel.Spoken owner) {claims : DirectClaims}
    (account : claims.accountId = owner) (speaks : claims.Speaks owner)
    (refused : hasDirectCapacity claims tunnel.connections = false) :
    maxDirectPerAccount ≤ ofAccount owner tunnel.connections := by
  have isOwner : claims.role = .owner := speaks.mpr account
  have split := length_of_speaks spoken.connections
  have members := bounded.admitted.members_le
  simp only [hasDirectCapacity, isOwner, account, decide_eq_false_iff_not, true_or, and_true,
    not_and_or, Nat.not_lt] at refused
  obtain full | used := refused
  · unfold maxDirectMemberConnections maxDirectConnections at *
    unfold maxDirectPerAccount at *
    omega
  · exact used

/-- Whatever members do, the owner is refused a signal only after using the
reserved amount in the current window, and a connection only while holding the
reserved number; the totals stay within the caps. -/
theorem owner_reserve (owner : String) (started : Nat) (events : List Event)
    (speaks : ∀ event ∈ events, event.Speaks owner) :
    let tunnel := (connected started).run events
    tunnel.window.length ≤ 960 ∧
    tunnel.connections.length ≤ 32 ∧
    (∀ now restarted claims, claims.accountId = owner → claims.Speaks owner →
      (tunnel.signal now restarted claims).2 = false →
        120 ≤ ofAccount owner (tunnel.windowAt now)) ∧
    (∀ claims, claims.accountId = owner → claims.Speaks owner →
      (tunnel.connect claims).2 = false → 8 ≤ ofAccount owner tunnel.connections) := by
  have bounded := run_bounded started events
  have spoken := run_spoken started speaks
  refine ⟨bounded.counts.total ▸ bounded.counts.total_le, bounded.admitted.total_le,
    fun now restarted claims account same refused =>
      owner_signal_refused bounded spoken account same refused,
    fun claims account same refused => ?_⟩
  refine owner_connection_refused bounded spoken account same ?_
  by_contra capacity
  rw [Bool.not_eq_false] at capacity
  simp [Tunnel.connect, capacity] at refused

/-- An owner account that holds its eight connections. -/
theorem owner_reserve_at_cap :
    let owner : DirectClaims := ⟨"c", "i", "owner", .owner, "s", 0, "", 1, "n"⟩
    let events := List.replicate 8 (Event.connect owner)
    (((connected 0).run events).connect owner).2 = false ∧
      8 ≤ ofAccount "owner" ((connected 0).run events).connections := by
  intro owner events
  have speaks : owner.Speaks "owner" := by simp [DirectClaims.Speaks, owner]
  have eventsSpeak : ∀ event ∈ events, event.Speaks "owner" := fun event member =>
    (List.eq_of_mem_replicate member) ▸ speaks
  have refused : (((connected 0).run events).connect owner).2 = false := by decide +kernel
  exact ⟨refused,
    (owner_reserve "owner" 0 events eventsSpeak).2.2.2 owner rfl speaks refused⟩

end Tunnel

end Cairn.Protocol

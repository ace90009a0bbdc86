import Cairn.Beacon.Ownership
import Cairn.Beacon.Shrinking

/-!
Owns the refinement of the machine of ownership by the tables: the owners are the machine's, and
every claim code and device claim in a table is one the machine still has. Each change of the tables
is one event of the machine, or leaves what the machine sees.

Does not own the locks under which a transaction makes a change.
-/

set_option autoImplicit false

namespace Cairn.Beacon

open Cairn.Library.HashMaps Cairn.Library.Histories Cairn.Library.RowLocks Cairn.Library.Steps

variable {db next middle : Database} {functions : Functions} {event : Event} {state : Ownership}

/-- A device claim, as the machine has it. -/
def DeviceClaim.pending (claim : DeviceClaim) : Pending :=
  ⟨claim.installation,
    claim.reviewedBy.bind fun account => claim.confirmationDigest.map fun digest => (account, digest),
    claim.approvedBy⟩

/-- The tables are a state of the machine, less what was cleaned up. -/
structure Refines (db : Database) (state : Ownership) : Prop where
  owner : ∀ installation, db.owner installation = state.owner installation
  codes : ∀ digest code, db.claimCodes.lookup digest = some code →
    state.codes digest = some code.account
  pending : ∀ device claim, db.deviceClaims.lookup device = some claim →
    state.pending device = some claim.pending

/-- The history is a run of the machine to the tables, and its names are known. -/
structure Owned (db : Database) : Prop where
  history : ∃ state, execute Ownership.step .initial db.log = some state ∧ Refines db state
  legal : Legal (fun before event => event.Rightful before) db.log
  named : ∀ event ∈ db.log, ∀ value, event.names value → value ∈ db.seen
  rows : ∀ installation, (db.installations.lookup installation).isSome → installation ∈ db.seen
  started : ∀ device claim, db.deviceClaims.lookup device = some claim →
    .started device claim.installation claim.recovering ∈ db.log
  targets : ∀ device installation recovering,
    .started device installation recovering ∈ db.log → installation ∈ db.seen

/-- What a transaction may do: the history and the known values grow. -/
structure Onward (db next : Database) : Prop where
  seen : ∀ value ∈ db.seen, value ∈ next.seen
  log : ∀ event ∈ db.log, event ∈ next.log

/-- The invariant of ownership, and what a step may do to it. -/
def ownershipLogic : Logic Database := ⟨Owned, Onward⟩

theorem Onward.refl (db : Database) : Onward db db :=
  ⟨fun _ member => member, fun _ member => member⟩

theorem Onward.trans (first : Onward db middle) (second : Onward middle next) : Onward db next :=
  ⟨fun value member => second.seen value (first.seen value member),
    fun event member => second.log event (first.log event member)⟩

/-! ### Changes the machine does not see -/

/-- An event that says nothing about ownership. -/
def Event.isInert : Event → Bool
  | .consented _ _ => true
  | .granted _ _ _ => true
  | .issued _ _ _ _ _ _ => true
  | .answered _ _ => true
  | .revoked _ => true
  | _ => false

theorem Event.step_of_inert (inert : event.isInert = true) : state.step event = some state := by
  cases event <;> first | rfl | cases inert

theorem Event.rightful_of_inert (inert : event.isInert = true) (before : List Event) :
    event.Rightful before := by
  cases event <;> trivial

theorem Event.not_names_of_inert (inert : event.isInert = true) (value : String) : ¬ event.names value := by
  cases event <;> first | exact id | cases inert

/-- A change that leaves the owners, and adds no claims. -/
structure Idle (db next : Database) : Prop where
  owner : ∀ installation, next.owner installation = db.owner installation
  rows : ∀ installation, (next.installations.lookup installation).isSome →
    (db.installations.lookup installation).isSome
  codes : ∀ digest code, next.claimCodes.lookup digest = some code →
    db.claimCodes.lookup digest = some code
  claims : ∀ device claim, next.deviceClaims.lookup device = some claim →
    db.deviceClaims.lookup device = some claim
  seen : ∀ value ∈ db.seen, value ∈ next.seen
  log : ∃ extra, next.log = db.log ++ extra ∧ ∀ event ∈ extra, event.isInert = true

namespace Idle

/-- The tables of ownership are the same. -/
theorem of_same (installations : next.installations = db.installations)
    (codes : next.claimCodes = db.claimCodes) (claims : next.deviceClaims = db.deviceClaims)
    (seen : ∀ value ∈ db.seen, value ∈ next.seen) {extra : List Event}
    (log : next.log = db.log ++ extra) (inert : ∀ event ∈ extra, event.isInert = true) :
    Idle db next := by
  refine ⟨fun installation => by rw [Database.owner, Database.owner, installations],
    fun installation present => ?_, fun digest code found => ?_, fun device claim found => ?_, seen,
    extra, log, inert⟩
  · rwa [← installations]
  · rwa [← codes]
  · rwa [← claims]

theorem refl (db : Database) : Idle db db :=
  of_same rfl rfl rfl (fun _ member => member) (List.append_nil _).symm
    fun _ member => absurd member List.not_mem_nil

theorem record (inert : event.isInert = true) : Idle db (db.record event) :=
  of_same rfl rfl rfl (fun _ member => member) rfl fun other member => by
    rwa [List.mem_singleton.mp member]

theorem trans (first : Idle db middle) (second : Idle middle next) : Idle db next where
  owner installation := (second.owner installation).trans (first.owner installation)
  rows installation present := first.rows installation (second.rows installation present)
  codes digest code found := first.codes digest code (second.codes digest code found)
  claims device claim found := first.claims device claim (second.claims device claim found)
  seen value member := second.seen value (first.seen value member)
  log := by
    obtain ⟨extra, isMiddle, inert⟩ := first.log
    obtain ⟨more, isNext, inertMore⟩ := second.log
    refine ⟨extra ++ more, by rw [isNext, isMiddle, List.append_assoc], fun event member => ?_⟩
    exact (List.mem_append.mp member).elim (inert event) (inertMore event)

theorem onward (idle : Idle db next) : Onward db next := by
  obtain ⟨extra, isLog, -⟩ := idle.log
  exact ⟨idle.seen, fun event member => by
    rw [isLog]
    exact List.mem_append_left _ member⟩

end Idle

/-- Inert events leave the machine where it is. -/
theorem execute_inert {log extra : List Event}
    (executed : execute Ownership.step .initial log = some state)
    (inert : ∀ event ∈ extra, event.isInert = true) :
    execute Ownership.step .initial (log ++ extra) = some state := by
  refine execute_append.mpr ⟨state, executed, ?_⟩
  induction extra with
  | nil => rfl
  | cons event rest inductionHypothesis =>
      refine execute_cons.mpr ⟨state, Event.step_of_inert (inert event List.mem_cons_self), ?_⟩
      exact inductionHypothesis fun other member => inert other (List.mem_cons_of_mem _ member)

theorem Owned.idle (owned : Owned db) (idle : Idle db next) : Owned next := by
  obtain ⟨extra, isLog, inert⟩ := idle.log
  obtain ⟨state, executed, refines⟩ := owned.history
  refine ⟨⟨state, ?_, ?_⟩, ?_, fun event member value names => ?_, fun installation present => ?_,
    fun device claim found => ?_, fun device installation recovering member => ?_⟩
  · rw [isLog]
    exact execute_inert executed inert
  · exact ⟨fun installation => (idle.owner installation).trans (refines.owner installation),
      fun digest code found => refines.codes digest code (idle.codes digest code found),
      fun device claim found => refines.pending device claim (idle.claims device claim found)⟩
  · rw [isLog]
    exact owned.legal.append fun event member => Event.rightful_of_inert (inert event member)
  · rw [isLog] at member
    rcases List.mem_append.mp member with old | new
    · exact idle.seen value (owned.named event old value names)
    · exact absurd names (Event.not_names_of_inert (inert event new) value)
  · exact idle.seen installation (owned.rows installation (idle.rows installation present))
  · exact idle.onward.log _ (owned.started device claim (idle.claims device claim found))
  · rw [isLog] at member
    rcases List.mem_append.mp member with old | new
    · exact idle.seen installation (owned.targets device installation recovering old)
    · cases inert _ new

/-! ### One event -/

/-- An event that names something for the first time. -/
def Event.introduces (value : String) : Event → Prop
  | .codeCreated code _ => code = value
  | .started device _ _ => device = value
  | _ => False

/-- A change that is one event of the machine. -/
structure Moves (event : Event) (db next : Database) : Prop where
  log : next.log = db.log ++ [event]
  seen : ∀ value ∈ db.seen, value ∈ next.seen
  named : ∀ value, event.names value → value ∈ next.seen
  new : ∀ value, event.introduces value → value ∉ db.seen
  rows : ∀ installation, (next.installations.lookup installation).isSome →
    (db.installations.lookup installation).isSome ∨ installation ∈ next.seen
  claims : ∀ device claim, next.deviceClaims.lookup device = some claim →
    .started device claim.installation claim.recovering = event ∨
      ∃ old, db.deviceClaims.lookup device = some old ∧ old.installation = claim.installation ∧
        old.recovering = claim.recovering
  targets : ∀ device installation recovering,
    event = .started device installation recovering → installation ∈ next.seen
  refines : ∀ state, Refines db state → ∃ state', state.step event = some state' ∧ Refines next state'

theorem Moves.onward (moves : Moves event db next) : Onward db next :=
  ⟨moves.seen, fun event member => by
    rw [moves.log]
    exact List.mem_append_left _ member⟩

theorem Owned.moves (owned : Owned db) (moves : Moves event db next) : Owned next := by
  obtain ⟨state, executed, refines⟩ := owned.history
  obtain ⟨state', stepped, refines'⟩ := moves.refines state refines
  have newNames : ∀ value, event.introduces value → ∀ earlier ∈ db.log, ¬ earlier.names value :=
    fun value introduces earlier member names =>
      moves.new value introduces (owned.named earlier member value names)
  refine ⟨⟨state', ?_, refines'⟩, ?_, fun other member value names => ?_,
    fun installation present => ?_, fun device claim found => ?_,
    fun device installation recovering member => ?_⟩
  · rw [moves.log]
    exact execute_concat.mpr ⟨state, executed, stepped⟩
  · rw [moves.log]
    refine legal_concat.mpr ⟨owned.legal, (Traced.of_execute executed).rightful stepped ?_⟩
    rintro value (⟨account, rfl⟩ | ⟨installation, recovering, rfl⟩)
    · exact newNames value rfl
    · exact newNames value rfl
  · rw [moves.log] at member
    rcases List.mem_append.mp member with old | new
    · exact moves.seen value (owned.named other old value names)
    · rw [List.mem_singleton.mp new] at names
      exact moves.named value names
  · exact (moves.rows installation present).elim
      (fun was => moves.seen installation (owned.rows installation was)) id
  · rcases moves.claims device claim found with isEvent | ⟨old, wasThere, installation, recovering⟩
    · rw [moves.log, isEvent]
      exact List.mem_append_right _ (List.mem_singleton_self event)
    · rw [← installation, ← recovering]
      exact moves.onward.log _ (owned.started device old wasThere)
  · rw [moves.log] at member
    rcases List.mem_append.mp member with old | new
    · exact moves.seen installation (owned.targets device installation recovering old)
    · exact moves.targets device installation recovering (List.mem_singleton.mp new).symm

/-! ### The changes that are events -/

/-- A claim code is created. -/
theorem moves_codeCreated {digest account : String} {row : ClaimCode} (new : digest ∉ db.seen)
    (isAccount : row.account = account) (seen : ∀ value ∈ db.seen, value ∈ next.seen)
    (named : digest ∈ next.seen) (installations : next.installations = db.installations)
    (codes : next.claimCodes = db.claimCodes.insert digest row)
    (claims : next.deviceClaims = db.deviceClaims)
    (log : next.log = db.log ++ [.codeCreated digest account]) :
    Moves (.codeCreated digest account) db next where
  log := log
  seen := seen
  named value names := by
    obtain rfl : digest = value := names
    exact named
  new value introduces := by
    obtain rfl : digest = value := introduces
    exact new
  rows installation present := .inl (by rwa [← installations])
  claims device claim found := .inr ⟨claim, by rwa [← claims], rfl, rfl⟩
  targets _ _ _ same := by cases same
  refines state refines := by
    refine ⟨_, rfl, fun installation => ?_, fun other code found => ?_, fun device claim found => ?_⟩
    · rw [Database.owner, installations]
      exact refines.owner installation
    · rw [codes, lookup_insert] at found
      simp only [Function.update_apply]
      split at found
      · rename_i same
        obtain rfl := Option.some.inj found
        rw [if_pos same, isAccount]
      · rename_i different
        rw [if_neg different]
        exact refines.codes other code found
    · exact refines.pending device claim (by rwa [← claims])

/-- A claim code becomes an installation. -/
theorem moves_claimed {digest installation : String} {code : ClaimCode} {row : Installation}
    (owned : Owned db) (found : db.claimCodes.lookup digest = some code)
    (new : installation ∉ db.seen) (isOwner : row.owner = some code.account)
    (seen : ∀ value ∈ db.seen, value ∈ next.seen) (named : installation ∈ next.seen)
    (installations : next.installations = db.installations.insert installation row)
    (codes : next.claimCodes = db.claimCodes.erase digest)
    (claims : next.deviceClaims = db.deviceClaims)
    (log : next.log = db.log ++ [.claimed digest installation code.account]) :
    Moves (.claimed digest installation code.account) db next where
  log := log
  seen := seen
  named value names := by
    obtain rfl : digest = value := names
    obtain ⟨state, executed, refines⟩ := owned.history
    obtain ⟨before, event, after, split, rfl, -⟩ :=
      (Traced.of_execute executed).codes digest code.account (refines.codes digest code found)
    refine seen digest (owned.named (.codeCreated digest code.account) ?_ digest rfl)
    rw [split]
    exact List.mem_append_right _ List.mem_cons_self
  new value introduces := introduces.elim
  rows other present := by
    rw [installations, lookup_insert] at present
    split at present
    · rename_i same
      exact .inr (by rwa [same])
    · exact .inl present
  claims device claim found := .inr ⟨claim, by rwa [← claims], rfl, rfl⟩
  targets _ _ _ same := by cases same
  refines state refines := by
    have free : state.owner installation = none := by
      rw [← refines.owner, Database.owner]
      cases present : db.installations.lookup installation with
      | none => rfl
      | some row => exact absurd (owned.rows installation (by rw [present]; rfl)) new
    refine ⟨_, Ownership.step_claimed.mpr ⟨⟨refines.codes digest code found, free⟩, rfl⟩,
      fun other => ?_, fun other kept isKept => ?_, fun device claim isClaim => ?_⟩
    · rw [Database.owner, installations, lookup_insert]
      simp only [Function.update_apply]
      split
      · exact isOwner
      · exact refines.owner other
    · rw [codes, lookup_erase] at isKept
      simp only [Function.update_apply]
      split at isKept
      · cases isKept
      · rename_i different
        rw [if_neg different]
        exact refines.codes other kept isKept
    · exact refines.pending device claim (by rwa [← claims])

/-- A device claims an installation, in place of its other claims. -/
theorem moves_started {device : String} {claim : DeviceClaim} {recovering : Bool}
    (new : device ∉ db.seen) (fresh : claim.reviewedBy = none ∧ claim.approvedBy = none)
    (isRecovering : claim.recovering = recovering)
    (seen : ∀ value ∈ db.seen, value ∈ next.seen) (named : device ∈ next.seen)
    (target : claim.installation ∈ next.seen)
    (owner : ∀ installation, next.owner installation = db.owner installation)
    (rows : ∀ installation, (next.installations.lookup installation).isSome →
      (db.installations.lookup installation).isSome)
    (codes : next.claimCodes = db.claimCodes)
    (claims : next.deviceClaims =
      (db.deleteClaimsOf claim.installation).deviceClaims.insert device claim)
    (log : next.log = db.log ++ [.started device claim.installation recovering]) :
    Moves (.started device claim.installation recovering) db next where
  log := log
  seen := seen
  named value names := by
    obtain rfl : device = value := names
    exact named
  new value introduces := by
    obtain rfl : device = value := introduces
    exact new
  rows installation present := .inl (rows installation present)
  claims other held found := by
    rw [claims, lookup_insert] at found
    split at found
    · rename_i same
      obtain rfl := Option.some.inj found
      exact .inl (by rw [same, isRecovering])
    · simp only [Database.deleteClaimsOf, Database.deleteDeviceClaims, lookup_retain,
        Option.filter_eq_some_iff] at found
      exact .inr ⟨held, found.1, rfl, rfl⟩
  targets _ _ _ same := by
    obtain ⟨-, rfl, -⟩ := Event.started.inj same
    exact target
  refines state refines := by
    refine ⟨_, rfl, fun installation => (owner installation).trans (refines.owner installation),
      fun digest code found => refines.codes digest code (by rwa [← codes]),
      fun other held found => ?_⟩
    rw [claims, lookup_insert] at found
    simp only [Function.update_apply]
    split at found
    · rename_i same
      obtain rfl := Option.some.inj found
      rw [if_pos same, DeviceClaim.pending, fresh.1, fresh.2]
      rfl
    · rename_i different
      simp only [Database.deleteClaimsOf, Database.deleteDeviceClaims, lookup_retain,
        Option.filter_eq_some_iff, Bool.not_eq_true', decide_eq_false_iff_not] at found
      rw [if_neg different]
      exact Ownership.clear_eq_some.mpr ⟨refines.pending other held found.1, found.2⟩

/-- A change of one claim that the machine makes as well. -/
theorem moves_changeClaim {device : String} {claim : DeviceClaim}
    {change : DeviceClaim → DeviceClaim} (known : device ∈ db.seen)
    (found : db.deviceClaims.lookup device = some claim)
    (same : (change claim).installation = claim.installation ∧
      (change claim).recovering = claim.recovering)
    (names : ∀ value, event.names value → value = device) (introduces : ∀ value, ¬ event.introduces value)
    (continues : ∀ device installation recovering, event ≠ .started device installation recovering)
    (seen : ∀ value ∈ db.seen, value ∈ next.seen) (installations : next.installations = db.installations)
    (codes : next.claimCodes = db.claimCodes)
    (claims : next.deviceClaims = modify device change db.deviceClaims)
    (log : next.log = db.log ++ [event])
    (stepped : ∀ state : Ownership, state.pending device = some claim.pending →
      state.step event = some { state with
        pending := Function.update state.pending device (some (change claim).pending) }) :
    Moves event db next where
  log := log
  seen := seen
  named value isNamed := by
    rw [names value isNamed]
    exact seen device known
  new value isNew := absurd isNew (introduces value)
  rows installation present := .inl (by rwa [← installations])
  claims other held isHeld := by
    rw [claims, lookup_modify] at isHeld
    split at isHeld
    · rename_i isDevice
      rw [found] at isHeld
      obtain rfl := Option.some.inj isHeld
      exact .inr ⟨claim, by rw [isDevice, found], same.1.symm, same.2.symm⟩
    · exact .inr ⟨held, isHeld, rfl, rfl⟩
  targets device installation recovering same :=
    absurd same (continues device installation recovering)
  refines state refines := by
    refine ⟨_, stepped state (refines.pending device claim found), fun installation => ?_,
      fun digest code isCode => refines.codes digest code (by rwa [← codes]),
      fun other held isHeld => ?_⟩
    · rw [Database.owner, installations]
      exact refines.owner installation
    · rw [claims, lookup_modify] at isHeld
      simp only [Function.update_apply]
      split at isHeld
      · rename_i isDevice
        rw [found] at isHeld
        obtain rfl := Option.some.inj isHeld
        rw [if_pos isDevice]
      · rename_i different
        rw [if_neg different]
        exact refines.pending other held isHeld

/-- An approved claim makes its account the owner. -/
theorem moves_delivered {device owner : String} {claim : DeviceClaim} {now : Nat}
    (known : device ∈ db.seen) (found : db.deviceClaims.lookup device = some claim)
    (approved : claim.approvedBy = some owner) (free : db.owner claim.installation = none)
    (seen : ∀ value ∈ db.seen, value ∈ next.seen)
    (owners : ∀ installation, next.owner installation =
      if installation = claim.installation then some owner else db.owner installation)
    (rows : ∀ installation, (next.installations.lookup installation).isSome →
      (db.installations.lookup installation).isSome ∨ installation ∈ next.seen)
    (codes : next.claimCodes = db.claimCodes)
    (claims : next.deviceClaims = db.deviceClaims.erase device)
    (log : next.log = db.log ++ [.delivered device claim.installation owner now]) :
    Moves (.delivered device claim.installation owner now) db next where
  log := log
  seen := seen
  named value names := by
    obtain rfl : device = value := names
    exact seen device known
  new value introduces := introduces.elim
  rows := rows
  claims other held isHeld := by
    rw [claims, lookup_erase] at isHeld
    split at isHeld
    · cases isHeld
    · exact .inr ⟨held, isHeld, rfl, rfl⟩
  targets _ _ _ same := by cases same
  refines state refines := by
    refine ⟨_, Ownership.step_delivered.mpr ⟨claim.pending, refines.pending device claim found,
      ⟨rfl, approved, (refines.owner _).symm.trans free⟩, rfl⟩, fun installation => ?_,
      fun digest code isCode => refines.codes digest code (by rwa [← codes]),
      fun other held isHeld => ?_⟩
    · rw [owners]
      simp only [Function.update_apply]
      split
      · rfl
      · exact refines.owner installation
    · rw [claims, lookup_erase] at isHeld
      simp only [Function.update_apply]
      split at isHeld
      · cases isHeld
      · rename_i different
        rw [if_neg different]
        exact refines.pending other held isHeld

/-- The claims of an installation end with its release or the rotation of its token. -/
theorem moves_cleared {installation : String}
    (isEvent : event = .rotated installation ∧
        (∀ other, next.owner other = db.owner other) ∨
      ∃ owner, event = .released installation owner ∧ db.owner installation = some owner ∧
        ∀ other, next.owner other = if other = installation then none else db.owner other)
    (seen : ∀ value ∈ db.seen, value ∈ next.seen)
    (rows : ∀ other, (next.installations.lookup other).isSome →
      (db.installations.lookup other).isSome)
    (codes : next.claimCodes = db.claimCodes)
    (claims : next.deviceClaims = (db.deleteClaimsOf installation).deviceClaims)
    (log : next.log = db.log ++ [event]) : Moves event db next := by
  have pending : ∀ state : Ownership, Refines db state → ∀ device claim,
      next.deviceClaims.lookup device = some claim →
        Ownership.clear installation state.pending device = some claim.pending := by
    intro state refines device claim found
    simp only [claims, Database.deleteClaimsOf, Database.deleteDeviceClaims, lookup_retain,
      Option.filter_eq_some_iff, Bool.not_eq_true', decide_eq_false_iff_not] at found
    exact Ownership.clear_eq_some.mpr ⟨refines.pending device claim found.1, found.2⟩
  have kept : ∀ state : Ownership, Refines db state → ∀ digest code,
      next.claimCodes.lookup digest = some code → state.codes digest = some code.account :=
    fun state refines digest code found => refines.codes digest code (by rwa [← codes])
  have unnamed : ∀ value, ¬ event.names value ∧ ¬ event.introduces value := by
    rcases isEvent with ⟨rfl, -⟩ | ⟨owner, rfl, -⟩ <;> exact fun _ => ⟨id, id⟩
  refine ⟨log, seen, fun value names => absurd names (unnamed value).1,
    fun value introduces => absurd introduces (unnamed value).2,
    fun other present => .inl (rows other present), fun device claim found => ?_,
    fun device other recovering same => ?_, fun state refines => ?_⟩
  · simp only [claims, Database.deleteClaimsOf, Database.deleteDeviceClaims, lookup_retain,
      Option.filter_eq_some_iff] at found
    exact .inr ⟨claim, found.1, rfl, rfl⟩
  · rcases isEvent with ⟨rfl, -⟩ | ⟨owner, rfl, -⟩ <;> cases same
  · rcases isEvent with ⟨rfl, owners⟩ | ⟨owner, rfl, owned, owners⟩
    · exact ⟨_, rfl, fun other => (owners other).trans (refines.owner other), kept state refines,
        pending state refines⟩
    · refine ⟨_, Ownership.step_released.mpr ⟨(refines.owner _).symm.trans owned, rfl⟩,
        fun other => ?_, kept state refines, pending state refines⟩
      rw [owners]
      simp only [Function.update_apply]
      split
      · rfl
      · exact refines.owner other

/-- A device starts one claim only. -/
theorem Owned.not_restarted (owned : Owned db) {before after : List Event}
    (split : db.log = before ++ after) {device installation : String} {recovering : Bool}
    (isStarted : .started device installation recovering ∈ before) (other : String) (another : Bool) :
    .started device other another ∉ after := by
  intro later
  obtain ⟨between, last, isAfter⟩ := List.append_of_mem later
  have new : ∀ earlier ∈ before ++ between, ¬ earlier.names device := by
    refine owned.legal _ (.started device other another) last ?_
    rw [split, isAfter, List.append_assoc]
  exact new _ (List.mem_append_left _ isStarted) rfl

theorem Owned.started_once (owned : Owned db) {device installation other : String}
    {recovering another : Bool} (first : .started device installation recovering ∈ db.log)
    (second : .started device other another ∈ db.log) :
    installation = other ∧ recovering = another := by
  obtain ⟨before, after, split⟩ := List.append_of_mem first
  have shorter : db.log = (before ++ [.started device installation recovering]) ++ after := by
    rw [split, List.append_assoc, List.singleton_append]
  rw [split] at second
  rcases List.mem_append.mp second with earlier | rest
  · exact absurd List.mem_cons_self (owned.not_restarted split earlier installation recovering)
  · rcases List.mem_cons.mp rest with same | later
    · obtain ⟨-, rfl, rfl⟩ := Event.started.inj same
      exact ⟨rfl, rfl⟩
    · exact absurd later (owned.not_restarted shorter
        (List.mem_append_right _ (List.mem_singleton_self _)) other another)

end Cairn.Beacon

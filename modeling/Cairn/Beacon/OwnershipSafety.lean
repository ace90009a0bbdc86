import Cairn.Beacon.AccessRuns
import Cairn.Beacon.OwnershipHistory

/-!
Owns the safety of ownership over every interleaving of the beacon's transactions: each program
keeps the tables a state of the machine of ownership, under the locks it takes, and so every history
is one in which owners change only by right.

Does not own what one change does to the tables.
-/

set_option autoImplicit false

namespace Cairn.Beacon

open Cairn.Library.HashMaps Cairn.Library.Histories Cairn.Library.RowLocks Cairn.Library.Steps

variable {db next : Database} {functions : Functions} {values : List String}
  {held : List (Lock Row)} {known : Database → Prop} {program : Program}

/-! ### Rows that are locked -/

theorem owned_same {row : Row} {mode : Mode}
    (allowed : Allowed (beacon functions) ownershipLogic held db next)
    (locked : ⟨row, mode⟩ ∈ held) : row.same db next = true :=
  allowed.same _ locked

theorem stable_known (value : String) :
    Stable (beacon functions) ownershipLogic held fun db => value ∈ db.seen :=
  fun _ _ _ allowed seen => allowed.evolves.seen value seen

theorem stable_logged (event : Event) :
    Stable (beacon functions) ownershipLogic held fun db => event ∈ db.log :=
  fun _ _ _ allowed member => allowed.evolves.log event member

/-- What a locked row looks like does not change. -/
theorem stable_claim {device : String} {mode : Mode} (Meets : Option DeviceClaim → Prop)
    (locked : ⟨.deviceClaim device, mode⟩ ∈ held) :
    Stable (beacon functions) ownershipLogic held fun db => Meets (db.deviceClaims.lookup device) := by
  intro db next _ allowed meets
  have same : db.deviceClaims.lookup device = next.deviceClaims.lookup device :=
    of_decide_eq_true (owned_same allowed locked)
  rwa [← same]

theorem stable_installation {installation : String} {mode : Mode}
    (Meets : Option Installation → Prop) (locked : ⟨.installation installation, mode⟩ ∈ held) :
    Stable (beacon functions) ownershipLogic held fun db =>
      Meets (db.installations.lookup installation) := by
  intro db next _ allowed meets
  have same : db.installations.lookup installation = next.installations.lookup installation :=
    of_decide_eq_true (owned_same allowed locked)
  rwa [← same]

/-! ### Programs that need no lock -/

/-- Every effect of a program keeps the invariant of any tables. -/
abbrev Unconditional (program : Program) : Prop :=
  Everywhere (fun effect => ∀ db, Owned db → Owned (effect db) ∧ Onward db (effect db)) program

theorem note_idle (values : List String) : Idle db ((beacon functions).note values db) :=
  .of_same rfl rfl rfl (fun _ member => List.mem_append_right _ member) (List.append_nil _).symm
    fun _ member => absurd member List.not_mem_nil

theorem Unconditional.guarded (unconditional : Unconditional program) {drawn : List String} :
    Guarded (beacon functions) ownershipLogic program held drawn fun _ => True :=
  guarded_everywhere unconditional fun effect keeps db values owned _ => by
    have noted : Idle db ((beacon functions).note values db) := note_idle values
    obtain ⟨ownedNext, onward⟩ := keeps _ (Owned.idle owned noted)
    exact ⟨ownedNext, noted.onward.trans onward⟩

theorem keeps_idle (idle : Idle db next) (owned : Owned db) : Owned next ∧ Onward db next :=
  ⟨owned.idle idle, idle.onward⟩

theorem unconditional_refuse : Unconditional Program.refuse := fun db => keeps_idle (Idle.refl db)

theorem unconditional_answer (request : TokenRequest) :
    Unconditional (Program.invalidGrant request) := fun _ => keeps_idle (Idle.record rfl)

theorem unconditional_lockConfirmedOwner {installation owner : String}
    (only : Unconditional program) :
    Unconditional (Program.lockConfirmedOwner installation owner program) := by
  intro db
  dsimp only
  split
  · exact only
  · exact unconditional_refuse

/-- One inert event, with changes of the tables of MCP access. -/
theorem idle_event {event : Event} (inert : event.isInert = true)
    (installations : next.installations = db.installations)
    (codes : next.claimCodes = db.claimCodes) (claims : next.deviceClaims = db.deviceClaims)
    (seen : next.seen = db.seen) (log : next.log = db.log ++ [event]) : Idle db next :=
  .of_same installations codes claims (fun _ member => seen ▸ member) log fun other member => by
    rwa [List.mem_singleton.mp member]

theorem idle_revoke (grant : String) (meets : Grant → Bool) : Idle db (db.revoke grant meets) := by
  unfold Database.revoke
  split
  · have inert : (Event.revoked grant).isInert = true := rfl
    exact idle_event inert rfl rfl rfl rfl rfl
  · exact Idle.refl db

/-- An exchange changes tokens, grants and codes, and answers. -/
theorem idle_exchange {request : TokenRequest} {event : Event} (inert : event.isInert = true)
    (installations : next.installations = db.installations)
    (codes : next.claimCodes = db.claimCodes) (claims : next.deviceClaims = db.deviceClaims)
    (seen : next.seen = db.seen)
    (log : next.log = db.log ++ [.answered request db.clock] ++ [event]) : Idle db next := by
  rw [List.append_assoc] at log
  refine .of_same installations codes claims (fun _ member => seen ▸ member) log
    fun other member => ?_
  rcases List.mem_cons.mp member with rfl | last
  · rfl
  · rwa [List.mem_singleton.mp last]

theorem unconditional_redeem (now : Nat) (request : TokenRequest) (code : Code) (label : String) :
    Unconditional (Program.redeem functions now request code label) := by
  unfold Program.redeem
  split
  · exact unconditional_answer request
  split
  · exact fun _ => keeps_idle (idle_event rfl rfl rfl rfl rfl rfl)
  · exact fun _ _ _ _ => keeps_idle (idle_exchange rfl rfl rfl rfl rfl rfl)

theorem unconditional_exchange (now : Nat) (request : TokenRequest) :
    Unconditional (Program.exchangeTokens functions now request) := by
  unfold Program.exchangeTokens
  split
  · intro db
    dsimp only
    split
    · exact unconditional_redeem now request _ _
    · intro db
      dsimp only
      split
      · exact unconditional_answer request
      · exact unconditional_redeem now request _ _
  split
  · intro db
    dsimp only
    split
    · exact unconditional_answer request
    split
    · exact unconditional_answer request
    split
    · exact fun _ => keeps_idle (idle_event rfl rfl rfl rfl rfl rfl)
    split
    · exact unconditional_answer request
    · exact fun _ _ _ => keeps_idle (idle_exchange rfl rfl rfl rfl rfl rfl)
  · exact unconditional_answer request

theorem unconditional_personal (now : Nat) (installation account label : String)
    (scopes : List String) :
    Unconditional (Program.personal functions now installation account label scopes) := by
  unfold Program.personal
  dsimp only
  split
  · exact unconditional_refuse
  · refine unconditional_lockConfirmedOwner ?_
    exact fun _ _ _ => keeps_idle (idle_event rfl rfl rfl rfl rfl rfl)

theorem unconditional_consent (now : Nat) (installation account : String)
    (request : AuthorizationRequest) :
    Unconditional (Program.consent functions now installation account request) := by
  intro db
  dsimp only
  split
  · exact unconditional_refuse
  · refine unconditional_lockConfirmedOwner fun db => ?_
    dsimp only
    split
    · exact unconditional_refuse
    · exact fun _ _ => keeps_idle (idle_event rfl rfl rfl rfl rfl rfl)

theorem unconditional_revoke (installation grant account : String) :
    Unconditional (Program.revoke installation grant account) := by
  intro db
  dsimp only
  split
  · exact fun _ => keeps_idle (idle_revoke _ _)
  · exact unconditional_refuse

theorem unconditional_revokeToken (token clientId : String) :
    Unconditional (Program.revokeToken functions token clientId) := by
  intro db
  dsimp only
  split
  · exact keeps_idle (Idle.refl db)
  · exact keeps_idle (idle_revoke _ _)

/-- Claims and codes that are removed, and nothing else. -/
theorem idle_retain (keepCode : String → ClaimCode → Bool) (keepClaim : String → DeviceClaim → Bool)
    (installations : next.installations = db.installations)
    (codes : next.claimCodes = retain keepCode db.claimCodes)
    (claims : next.deviceClaims = retain keepClaim db.deviceClaims)
    (seen : next.seen = db.seen) (log : next.log = db.log) : Idle db next where
  owner installation := by rw [Database.owner, Database.owner, installations]
  rows installation present := by rwa [← installations]
  codes digest code found := by
    rw [codes, lookup_retain, Option.filter_eq_some_iff] at found
    exact found.1
  claims device claim found := by
    rw [claims, lookup_retain, Option.filter_eq_some_iff] at found
    exact found.1
  seen value member := by rwa [seen]
  log := ⟨[], by rw [log, List.append_nil], fun _ member => absurd member List.not_mem_nil⟩

theorem unconditional_cleanup (now : Nat) : Unconditional (Program.cleanup now) := fun _ =>
  keeps_idle (idle_retain (fun _ code => now < code.expiresAt) (fun _ claim => now < claim.expiresAt)
    rfl rfl rfl rfl rfl)

/-! ### Releases -/

/-- A change of a row makes no new one. -/
theorem present_of_modify {Value : Type} {key other : String} {change : Value → Value}
    {table : HashMap String Value} (present : ((modify key change table).lookup other).isSome) :
    (table.lookup other).isSome := by
  rw [lookup_modify] at present
  split at present
  · rename_i same
    rw [same]
    simpa using present
  · exact present

theorem keeps_moves {event : Event} (moves : Moves event db next) (owned : Owned db) :
    Owned next ∧ Onward db next :=
  ⟨owned.moves moves, moves.onward⟩

theorem keeps_detachOn (installation owner : String) (owned : Owned db) :
    Owned (db.detachOn installation owner) ∧ Onward db (db.detachOn installation owner) := by
  unfold Database.detachOn
  split
  · rename_i isOwner
    refine keeps_moves (moves_cleared (.inr ⟨owner, rfl, isOwner, fun other => ?_⟩)
      (fun _ member => member) (fun other present => ?_) rfl rfl rfl) owned
    · refine (owner_changeInstallation _ installation other).trans ?_
      split
      · cases db.installations.lookup installation <;> rfl
      · rfl
    · exact present_of_modify present
  · exact keeps_idle (Idle.refl db) owned

theorem keeps_forget (installation owner : String) (owned : Owned db) :
    Owned (db.forget installation owner) ∧ Onward db (db.forget installation owner) := by
  unfold Database.forget
  split
  · rename_i isOwner
    refine keeps_moves (moves_cleared (.inr ⟨owner, rfl, isOwner, fun other => ?_⟩)
      (fun _ member => member) (fun other present => ?_) rfl rfl rfl) owned
    · show Option.bind (AList.lookup other (AList.erase installation _)) _ = _
      rw [lookup_erase]
      split <;> rfl
    · replace present : ((db.installations.erase installation).lookup other).isSome := present
      rw [lookup_erase] at present
      split at present
      · cases present
      · exact present
  · exact keeps_idle (Idle.refl db) owned

theorem keeps_deleteAccount (account : String) (owned : Owned db) :
    Owned (db.deleteAccount account) ∧ Onward db (db.deleteAccount account) := by
  have detached : ∀ (installations : List String) (db : Database), Owned db →
      Owned (installations.foldl (fun db installation => db.detachOn installation account) db) ∧
        Onward db (installations.foldl (fun db installation => db.detachOn installation account) db) := by
    intro installations
    induction installations with
    | nil => exact fun db => keeps_idle (Idle.refl db)
    | cons installation rest inductionHypothesis =>
        intro db owned
        obtain ⟨ownedNext, onward⟩ := keeps_detachOn installation account owned
        obtain ⟨ownedLast, onwardRest⟩ := inductionHypothesis _ ownedNext
        exact ⟨ownedLast, onward.trans onwardRest⟩
  obtain ⟨ownedNext, onward⟩ := detached (db.ownedBy account) db owned
  have cleared : Idle ((db.ownedBy account).foldl (fun db installation =>
      db.detachOn installation account) db) (db.deleteAccount account) :=
    idle_retain (fun _ code => code.account ≠ account)
      (fun _ claim => !(claim.reviewedBy = some account || claim.approvedBy = some account))
      rfl rfl rfl rfl rfl
  obtain ⟨ownedLast, onwardRest⟩ := keeps_idle cleared ownedNext
  exact ⟨ownedLast, onward.trans onwardRest⟩

theorem unconditional_rotateToken (installation previous token : String) :
    Unconditional (Program.rotateToken functions installation previous token) := by
  unfold Program.rotateToken
  split
  · exact unconditional_refuse
  · intro db
    dsimp only
    split
    · exact unconditional_refuse
    split
    · exact unconditional_refuse
    intro db owned
    refine keeps_moves (moves_cleared (.inl ⟨rfl, fun other => ?_⟩) (fun _ member => member)
      (fun other present => ?_) rfl rfl rfl) owned
    · refine owner_kept (fun row => ?_) installation other
      rfl
    · exact present_of_modify present

/-! ### Claims -/

theorem guarded_claimCode (now : Nat) (account : String) :
    Guarded (beacon functions) ownershipLogic (Program.claimCode functions now account) held []
      fun _ => True := by
  intro code db owned _ fresh
  have new := (new_of_fresh fresh (List.mem_singleton_self code)).2
  have inside := (mem_withDigests functions (List.mem_singleton_self code)).2
  exact keeps_moves (moves_codeCreated new rfl (fun _ member => List.mem_append_right _ member)
    (List.mem_append_left _ inside) rfl rfl rfl rfl) owned

theorem guarded_ownClaim (now : Nat) (code name : String) (protocol : Nat) :
    Guarded (beacon functions) ownershipLogic (Program.claim functions now code name protocol) held []
      fun _ => True := by
  unfold Program.claim
  cases claimName name protocol with
  | none => exact Unconditional.guarded unconditional_refuse
  | some chosen =>
      intro db _ _
      refine ⟨fun next => ∀ row, (db.claimCodes.lookup (functions.digest code)).filter (fun row =>
        decide (now < row.expiresAt)) = some row → next.claimCodes.lookup (functions.digest code) =
          some row, fun row found => (Option.filter_eq_some_iff.mp found).1, ?_, ?_⟩
      · intro before after _ allowed known row found
        have locked : ⟨.claimCode (functions.digest code), .exclusive⟩ ∈
            (if ((db.claimCodes.lookup (functions.digest code)).filter fun row =>
              decide (now < row.expiresAt)).isSome
            then [(⟨.claimCode (functions.digest code), .exclusive⟩ : Lock Row)] else []) ++ held := by
          rw [found]
          exact List.mem_append_left _ List.mem_cons_self
        have same : before.claimCodes.lookup (functions.digest code) =
            after.claimCodes.lookup (functions.digest code) :=
          of_decide_eq_true (owned_same allowed locked)
        rw [← same]
        exact known row found
      · dsimp only
        split
        · exact (Unconditional.guarded unconditional_refuse).weaken fun _ _ => trivial
        · rename_i row found
          intro installation token db owned known fresh
          have new := (new_of_fresh fresh
            (List.mem_cons_self : installation ∈ [installation, token])).1
          have inside := (mem_withDigests functions
            (List.mem_cons_self : installation ∈ [installation, token])).1
          exact keeps_moves (moves_claimed owned (known row found) new rfl
            (fun _ member => List.mem_append_right _ member) (List.mem_append_left _ inside)
            rfl rfl rfl rfl) owned

/-! ### Device claims -/

/-- A known claim is that of its device's start. -/
theorem Owned.claim_known {device : String} {claim : DeviceClaim} (owned : Owned db)
    (found : db.deviceClaims.lookup device = some claim) : device ∈ db.seen :=
  owned.named _ (owned.started device claim found) device rfl

/-- The machine has the review and the approval of a row. -/
theorem insertClaim_eq {device : String} {claim : DeviceClaim} {result : Database}
    (inserted : db.insertClaim device claim = some result) :
    result = { db.deleteClaimsOf claim.installation with
      deviceClaims := (db.deleteClaimsOf claim.installation).deviceClaims.insert device claim }.record
        (.started device claim.installation claim.recovering) := by
  unfold Database.insertClaim at inserted
  dsimp only at inserted
  split at inserted
  · cases inserted
  · exact (Option.some.inj inserted).symm

/-- A new claim of a device that was never seen, or none where its user code is in use. -/
theorem keeps_insertClaim {device : String} {claim : DeviceClaim} {base other : Database}
    (owned : Owned db) (idle : Idle db other) (new : device ∉ db.seen)
    (fresh : claim.reviewedBy = none ∧ claim.approvedBy = none)
    (named : device ∈ base.seen) (target : claim.installation ∈ base.seen)
    (seen : ∀ value ∈ db.seen, value ∈ base.seen)
    (owner : ∀ installation, base.owner installation = db.owner installation)
    (rows : ∀ installation, (base.installations.lookup installation).isSome →
      (db.installations.lookup installation).isSome)
    (codes : base.claimCodes = db.claimCodes) (claims : base.deviceClaims = db.deviceClaims)
    (log : base.log = db.log) :
    Owned ((base.insertClaim device claim).getD other) ∧
      Onward db ((base.insertClaim device claim).getD other) := by
  cases inserted : base.insertClaim device claim with
  | none => exact keeps_idle idle owned
  | some result =>
      rw [Option.getD_some, insertClaim_eq inserted]
      refine keeps_moves (moves_started new fresh rfl seen named target owner rows codes ?_ ?_) owned
      · show ((base.deleteClaimsOf claim.installation).deviceClaims.insert device claim) = _
        simp only [Database.deleteClaimsOf, Database.deleteDeviceClaims, claims]
      · show base.log ++ _ = _
        rw [log]

theorem guarded_startDevice (now : Nat) (name : String) (protocol : Nat)
    (identity : Option MachineIdentity) (code : String) :
    Guarded (beacon functions) ownershipLogic
      (Program.startDevice functions now name protocol identity code) [] [] fun db =>
        ∀ proof, identity = some proof → proof.installationId ∈ db.seen := by
  have refused : ∀ {held : List (Lock Row)} {known : Database → Prop}, Guarded (beacon functions)
      ownershipLogic Program.refuse held [] known :=
    (Unconditional.guarded unconditional_refuse).weaken fun _ _ => trivial
  unfold Program.startDevice
  split
  · exact refused
  split
  · intro installation device db owned _ fresh
    have insideInstallation := (mem_withDigests functions
      (List.mem_cons_self : installation ∈ [installation, device])).1
    have isDevice : device ∈ [installation, device] :=
      List.mem_cons_of_mem _ (List.mem_singleton_self device)
    have new := (new_of_fresh fresh isDevice).2
    have inside := (mem_withDigests functions isDevice).2
    exact keeps_insertClaim owned (note_idle _) new ⟨rfl, rfl⟩ (List.mem_append_left _ inside)
      (List.mem_append_left _ insideInstallation) (fun _ member => List.mem_append_right _ member)
      (fun _ => rfl) (fun _ present => present) rfl rfl rfl
  · rename_i proof
    intro db _ presented
    refine ⟨fun db => proof.installationId ∈ db.seen, presented proof rfl, stable_known _, ?_⟩
    dsimp only
    split
    · exact refused
    split
    · exact refused
    rename_i row _ _
    intro device db owned seen fresh
    have new := (new_of_fresh fresh (List.mem_singleton_self device)).2
    have inside := (mem_withDigests functions (List.mem_singleton_self device)).2
    refine keeps_insertClaim owned (note_idle _) new ⟨rfl, rfl⟩ (List.mem_append_left _ inside)
      (List.mem_append_right _ seen) (fun _ member => List.mem_append_right _ member)
      (fun installation => ?_) (fun installation present => ?_) rfl rfl rfl
    · refine owner_kept (fun row => ?_) proof.installationId installation
      rfl
    · exact present_of_modify present

theorem claimOf_lookup {digest device : String} {claim : DeviceClaim}
    (found : db.claimOf digest = some (device, claim)) :
    db.deviceClaims.lookup device = some claim := by
  obtain ⟨entry, isEntry, same⟩ := Option.map_eq_some_iff.mp found
  obtain ⟨rfl, rfl⟩ := Prod.mk.inj same
  exact AList.mem_lookup_iff.mpr (List.mem_of_find?_eq_some isEntry)

theorem guarded_previewDevice (now : Nat) (account code : String) :
    Guarded (beacon functions) ownershipLogic (Program.previewDevice functions now account code)
      held [] fun _ => True := by
  have refused : ∀ {held : List (Lock Row)} {known : Database → Prop}, Guarded (beacon functions)
      ownershipLogic Program.refuse held [] known :=
    (Unconditional.guarded unconditional_refuse).weaken fun _ _ => trivial
  intro db _ _
  refine ⟨fun _ => True, trivial, stable_true, ?_⟩
  dsimp only
  split
  · exact refused
  rename_i device _ _
  split
  · intro db _ _
    refine ⟨fun next => next.deviceClaims.lookup device = db.deviceClaims.lookup device, rfl, ?_, ?_⟩
    · exact stable_claim (· = db.deviceClaims.lookup device)
        (List.mem_append_left _ List.mem_cons_self)
    dsimp only
    split
    · rename_i reviewable
      obtain ⟨claim, found⟩ := Option.isSome_iff_exists.mp (Option.isSome_of_any reviewable)
      rw [found] at reviewable
      have unapproved : claim.approvedBy = none := by
        simp only [Option.any_some, Program.reviewable, Bool.and_eq_true] at reviewable
        exact Option.isNone_iff_eq_none.mp reviewable.1
      intro confirmation db owned same fresh
      rw [found] at same
      refine keeps_moves (moves_changeClaim (owned.claim_known same) same ⟨rfl, rfl⟩
        ?_ (fun _ => id) (fun _ _ _ same => by cases same)
        (fun _ member => List.mem_append_right _ member) rfl rfl rfl rfl ?_) owned
      · exact fun value (names : device = value) => names.symm
      exact fun state pending => Ownership.step_reviewed.mpr ⟨claim.pending, pending, unapproved, rfl⟩
    · exact refused
  · exact refused

theorem guarded_approveDevice (now : Nat) (account code : String) (confirmation : Option String) :
    Guarded (beacon functions) ownershipLogic
      (Program.approveDevice functions now account code confirmation) held [] fun _ => True := by
  have refused : ∀ {held : List (Lock Row)} {known : Database → Prop}, Guarded (beacon functions)
      ownershipLogic Program.refuse held [] known :=
    (Unconditional.guarded unconditional_refuse).weaken fun _ _ => trivial
  unfold Program.approveDevice
  split
  · exact refused
  rename_i proof
  intro db _ _
  refine ⟨fun next => ∀ device, Program.approvable functions now account code proof db = some device →
    next.deviceClaims.lookup device = db.deviceClaims.lookup device, fun _ _ => rfl, ?_, ?_⟩
  · intro before after _ allowed known device found
    have locked : ⟨.deviceClaim device, .exclusive⟩ ∈
        ((Program.approvable functions now account code proof db).map fun device =>
          (⟨.deviceClaim device, .exclusive⟩ : Lock Row)).toList ++ held := by
      rw [found]
      exact List.mem_append_left _ List.mem_cons_self
    have same : before.deviceClaims.lookup device = after.deviceClaims.lookup device :=
      of_decide_eq_true (owned_same allowed locked)
    rw [← same]
    exact known device found
  dsimp only
  split
  · exact refused
  rename_i device found
  obtain ⟨⟨other, claim⟩, isFound, isDevice⟩ := Option.map_eq_some_iff.mp found
  obtain rfl : other = device := isDevice
  obtain ⟨isClaim, meets⟩ := Option.filter_eq_some_iff.mp isFound
  simp only [Program.reviewable, Bool.and_eq_true, decide_eq_true_eq] at meets
  obtain ⟨⟨reviewedBy, confirmed⟩, unapproved, -⟩ := meets
  intro db' owned known _
  have same := (known other found).trans (claimOf_lookup isClaim)
  refine keeps_moves (moves_changeClaim (owned.claim_known same) same ⟨rfl, rfl⟩
    ?_ (fun _ => id) (fun _ _ _ same => by cases same) (fun _ member => member) rfl rfl rfl rfl ?_)
    owned
  · exact fun value (names : other = value) => names.symm
  intro state pending
  refine Ownership.step_approved.mpr ⟨claim.pending, pending, ⟨?_, ?_⟩, rfl⟩
  · rw [DeviceClaim.pending, reviewedBy, confirmed]
    rfl
  · exact Option.isNone_iff_eq_none.mp unapproved

/-- What is collected for a device is the claim that it started. -/
theorem guarded_ownCollect (now : Nat) (device installation : String) (recovering : Bool)
    (locked : recovering = true → ⟨.installation installation, .exclusive⟩ ∈ held) :
    Guarded (beacon functions) ownershipLogic
      (Program.collect functions now device installation recovering) held [] fun db =>
        .started device installation recovering ∈ db.log ∧ (recovering = true →
          (db.installations.lookup installation).any (fun row => row.owner.isNone) = true) := by
  have refused : ∀ {held : List (Lock Row)} {known : Database → Prop}, Guarded (beacon functions)
      ownershipLogic Program.refuse held [] known :=
    (Unconditional.guarded unconditional_refuse).weaken fun _ _ => trivial
  intro db _ both
  refine ⟨fun next => (.started device installation recovering ∈ next.log ∧ (recovering = true →
      (next.installations.lookup installation).any (fun row => row.owner.isNone) = true)) ∧
    ∀ claim, Program.liveClaim now device db = some claim →
      next.deviceClaims.lookup device = some claim,
    ⟨both, fun claim live => (Option.filter_eq_some_iff.mp live).1⟩, ?_, ?_⟩
  · refine ((stable_logged _).and ?_).and ?_
    · intro before after _ allowed free recovers
      have same : before.installations.lookup installation = after.installations.lookup installation :=
        of_decide_eq_true (owned_same allowed (List.mem_append_right _ (locked recovers)))
      rw [← same]
      exact free recovers
    · intro before after _ allowed known claim live
      have isLocked : ⟨.deviceClaim device, .exclusive⟩ ∈
          (if (Program.liveClaim now device db).isSome
          then [(⟨.deviceClaim device, .exclusive⟩ : Lock Row)] else []) ++ held := by
        rw [live]
        exact List.mem_append_left _ List.mem_cons_self
      have same : before.deviceClaims.lookup device = after.deviceClaims.lookup device :=
        of_decide_eq_true (owned_same allowed isLocked)
      rw [← same]
      exact known claim live
  dsimp only
  split
  · exact refused
  rename_i claim live
  split
  · exact refused
  rename_i owner approved
  intro token db' owned known fresh
  obtain ⟨⟨isStarted, free⟩, isClaim⟩ := known
  have found := isClaim claim live
  obtain ⟨rfl, rfl⟩ := owned.started_once isStarted (owned.started device claim found)
  have seen : ∀ value ∈ db'.seen, value ∈ withDigests functions [token] ++ db'.seen :=
    fun value member => List.mem_append_right _ member
  show Owned (Program.deliver functions now device claim owner token
      ((beacon functions).note [token] db')) ∧ Onward db' (Program.deliver functions now device claim
        owner token ((beacon functions).note [token] db'))
  unfold Program.deliver
  dsimp only
  split
  · rename_i recovers
    obtain ⟨row, isRow⟩ := Option.isSome_iff_exists.mp (Option.isSome_of_any (free recovers))
    have unowned : db'.owner claim.installation = none := by
      have isNone := free recovers
      rw [isRow] at isNone
      rw [Database.owner, isRow]
      exact Option.isNone_iff_eq_none.mp isNone
    refine keeps_moves (moves_delivered (owned.claim_known found) found approved unowned seen
      (fun other => ?_) (fun other present => .inl (present_of_modify present)) rfl rfl rfl) owned
    refine (owner_changeInstallation _ claim.installation other).trans ?_
    split
    · show ((db'.installations.lookup claim.installation).map _).bind _ = _
      rw [isRow]
      rfl
    · rfl
  split
  · exact keeps_idle (note_idle _) owned
  · rename_i absent
    have gone : db'.installations.lookup claim.installation = none :=
      Option.not_isSome_iff_eq_none.mp absent
    have unowned : db'.owner claim.installation = none := by
      rw [Database.owner, gone]
      rfl
    refine keeps_moves (moves_delivered (owned.claim_known found) found approved unowned seen
      (fun other => ?_) (fun other present => ?_) rfl rfl rfl) owned
    · show Option.bind (AList.lookup other (AList.insert claim.installation _ _)) _ = _
      rw [lookup_insert]
      split <;> rfl
    · replace present : ((db'.installations.insert claim.installation _).lookup other).isSome :=
        present
      rw [lookup_insert] at present
      split at present
      · rename_i same
        rw [same]
        exact .inr (seen _ (owned.targets device claim.installation claim.recovering isStarted))
      · exact .inl present

theorem guarded_ownPoll (now : Nat) (deviceCode : String) :
    Guarded (beacon functions) ownershipLogic (Program.pollDevice functions now deviceCode) [] []
      fun _ => True := by
  have refused : ∀ {held : List (Lock Row)} {known : Database → Prop}, Guarded (beacon functions)
      ownershipLogic Program.refuse held [] known :=
    (Unconditional.guarded unconditional_refuse).weaken fun _ _ => trivial
  intro db owned _
  cases live : Program.liveClaim now (functions.digest deviceCode) db with
  | none =>
      refine ⟨fun _ => True, trivial, stable_true, ?_⟩
      dsimp only
      rw [live]
      exact refused
  | some claim =>
      have found := (Option.filter_eq_some_iff.mp live).1
      refine ⟨fun next => .started (functions.digest deviceCode) claim.installation
        claim.recovering ∈ next.log, owned.started _ claim found, stable_logged _, ?_⟩
      dsimp only
      rw [live]
      dsimp only
      split
      · rename_i recovers
        intro db _ isStarted
        by_cases present : db.installations.lookup claim.installation = none
        · refine ⟨fun _ => True, trivial, stable_true, ?_⟩
          dsimp only
          rw [present]
          exact refused
        · dsimp only
          rw [if_neg present]
          refine ⟨fun next => .started (functions.digest deviceCode) claim.installation
              claim.recovering ∈ next.log ∧
            next.installations.lookup claim.installation =
              db.installations.lookup claim.installation, ⟨isStarted, rfl⟩, ?_, ?_⟩
          · exact (stable_logged _).and (stable_installation
              (· = db.installations.lookup claim.installation)
              (List.mem_append_left _ List.mem_cons_self))
          · split
            · rename_i free
              refine (guarded_ownCollect now _ _ true fun _ => ?_).weaken fun next known => ?_
              · exact List.mem_append_left _ List.mem_cons_self
              · refine ⟨?_, fun _ => ?_⟩
                · rw [← recovers]
                  exact known.1
                · rw [known.2]
                  exact free
            · exact refused
      · rename_i fresh
        refine (guarded_ownCollect now _ _ false fun impossible => by cases impossible).weaken
          fun next known => ⟨?_, fun impossible => by cases impossible⟩
        rwa [Bool.eq_false_iff.mpr fresh] at known

/-! ### Every interleaving -/

theorem guarded_ownOperation (operation : Operation) (now : Nat) :
    Guarded (beacon functions) ownershipLogic (operation.program functions now) [] []
      fun db => ∀ value ∈ operation.presents, value ∈ db.seen := by
  have only : ∀ {program : Program}, Unconditional program → Guarded (beacon functions)
      ownershipLogic program [] [] fun db => ∀ value ∈ operation.presents, value ∈ db.seen :=
    fun unconditional => (Unconditional.guarded unconditional).weaken fun _ _ => trivial
  cases operation with
  | claimCode account => exact (guarded_claimCode now account).weaken fun _ _ => trivial
  | claim code name protocol =>
      exact (guarded_ownClaim now code name protocol).weaken fun _ _ => trivial
  | forget installation account =>
      exact only (unconditional_lockConfirmedOwner fun _ => keeps_forget installation account)
  | detach installation account =>
      exact only (unconditional_lockConfirmedOwner fun _ => keeps_detachOn installation account)
  | deleteAccount account => exact only fun _ _ => keeps_deleteAccount account
  | rotateToken installation previous token =>
      exact only (unconditional_rotateToken installation previous token)
  | startDevice name protocol identity code =>
      refine (guarded_startDevice now name protocol identity code).weaken fun db presented => ?_
      rintro proof rfl
      exact presented proof.installationId List.mem_cons_self
  | previewDevice account code =>
      exact (guarded_previewDevice now account code).weaken fun _ _ => trivial
  | approveDevice account code confirmation =>
      exact (guarded_approveDevice now account code confirmation).weaken fun _ _ => trivial
  | pollDevice deviceCode => exact (guarded_ownPoll now deviceCode).weaken fun _ _ => trivial
  | register name redirectUris =>
      exact only fun _ _ => keeps_idle (.of_same rfl rfl rfl (fun _ member => member)
        (List.append_nil _).symm fun _ member => absurd member List.not_mem_nil)
  | personal installation account label scopes =>
      exact only (unconditional_personal now installation account label scopes)
  | consent installation account request =>
      exact only (unconditional_consent now installation account request)
  | exchange request => exact only (unconditional_exchange now request)
  | revoke installation grant account => exact only (unconditional_revoke installation grant account)
  | revokeToken token clientId => exact only (unconditional_revokeToken token clientId)
  | cleanup => exact only (unconditional_cleanup now)

/-- Every request keeps the history a run of the machine. -/
theorem ownership_verified (functions : Functions) : Verified (beacon functions) ownershipLogic where
  refl db _ := Onward.refl db
  receive operation db owned := by
    have presented : Idle db ((beacon functions).receive operation db) :=
      .of_same rfl rfl rfl (fun _ member => List.mem_append_right _ member) (List.append_nil _).symm
        fun _ member => absurd member List.not_mem_nil
    exact ⟨Owned.idle owned presented, presented.onward, fun row => by
      cases row <;> simp [beacon, Row.same]⟩
  tick db owned := by
    have ticked : Idle db ((beacon functions).tick db) :=
      .of_same rfl rfl rfl (fun _ member => member) (List.append_nil _).symm
        fun _ member => absurd member List.not_mem_nil
    exact ⟨Owned.idle owned ticked, ticked.onward, fun row => by
      cases row <;> simp [beacon, Row.same]⟩
  program operation db _ := by
    refine ⟨fun db => ∀ value ∈ operation.presents, value ∈ db.seen, fun value member => ?_, ?_,
      guarded_ownOperation operation db.clock⟩
    · exact List.mem_append_left _ (mem_withDigests functions member).1
    · exact fun db next _ allowed presented value member =>
        allowed.evolves.seen value (presented value member)

theorem owned_empty : Owned .empty where
  history := by
    refine ⟨.initial, rfl, fun installation => rfl, fun digest code found => ?_,
      fun device claim found => ?_⟩
    · cases found
    · cases found
  legal := legal_nil
  named event member := absurd member List.not_mem_nil
  rows installation present := by cases present
  started device claim found := by cases found
  targets device installation recovering member := absurd member List.not_mem_nil

/-! ### What holds after every run -/

theorem Reached.owned {world : World Database Row String} (reached : Reached functions world) :
    Owned world.db := by
  obtain ⟨steps, executed⟩ := reached
  exact (run_holds (ownership_verified functions) (holds_idle owned_empty) executed).inv

/-- Owners change only by right: by a claim code that its account created, by a claim that the new
owner approved with the confirmation of its own latest review, and by a release of the owner; and
the owner in the table is the one of the history. -/
theorem owners_by_right {world : World Database Row String} (reached : Reached functions world) :
    Legal (fun before event => event.Rightful before) world.db.log ∧
      ∀ installation account, world.db.owner installation = some account ↔
        HeldBy world.db.log installation account := by
  have owned := reached.owned
  obtain ⟨state, executed, refines⟩ := owned.history
  refine ⟨owned.legal, fun installation account => ?_⟩
  rw [refines.owner]
  exact (Traced.of_execute executed).owner installation account

/-- A machine starts a claim, which an account reviews and approves, and the machine collects. -/
def collecting : List (Step String Operation) :=
  [.begin 0 (.startDevice "m" 4 none "U"), .finish 0 ["i", "d"],
    .begin 0 (.previewDevice "a" "U"), .select 0, .select 0, .finish 0 ["p"],
    .begin 0 (.approveDevice "a" "U" (some "p")), .select 0, .finish 0 [],
    .begin 0 (.pollDevice "d"), .select 0, .select 0, .finish 0 ["t"]]

theorem owners_by_right_collecting :
    (plainWorld collecting).db.owner "i" = some "a" ∧
      Legal (fun before event => event.Rightful before) (plainWorld collecting).db.log ∧
        ∀ installation account, (plainWorld collecting).db.owner installation = some account ↔
          HeldBy (plainWorld collecting).db.log installation account :=
  ⟨by decide +kernel, owners_by_right (reached_plainWorld (by decide +kernel))⟩

/-- A claim code is used at most once, and a device claim that was delivered, replaced, or ended by
a release or a rotation of its installation, is never delivered afterwards. -/
theorem ended_claims_stay_ended {world : World Database Row String}
    (reached : Reached functions world) :
    (world.db.log.Pairwise fun earlier later => ∀ code installation owner other account,
      later = .claimed code installation owner → earlier ≠ .claimed code other account) ∧
      ∀ before event after device installation recovering,
        world.db.log = before ++ event :: after →
          .started device installation recovering ∈ before → event.closes device installation →
            ∀ other owner now, .delivered device other owner now ∉ after := by
  have owned := reached.owned
  constructor
  · refine owned.legal.past.pairwise fun before event justified earlier member => ?_
    rintro code installation owner other account rfl rfl
    obtain ⟨legal, ⟨past, first, since, isBefore, rfl, unused⟩, -⟩ := justified
    rw [isBefore] at member
    rcases List.mem_append.mp member with early | late
    · have new : ∀ earlier ∈ past, ¬ earlier.names code := legal past _ since isBefore
      exact new _ early rfl
    · rcases List.mem_cons.mp late with same | late
      · cases same
      · exact unused _ late ⟨other, account, rfl⟩
  · intro before event after device installation recovering split isStarted closes other owner now
      member
    obtain ⟨between, rest, isAfter⟩ := List.append_of_mem member
    have longer : world.db.log =
        (before ++ event :: between) ++ .delivered device other owner now :: rest := by
      rw [split, isAfter, List.append_assoc, List.cons_append]
    obtain ⟨opened, -⟩ := owned.legal _ _ _ longer
    have shorter : world.db.log =
        before ++ (event :: between ++ .delivered device other owner now :: rest) := by
      rw [longer, List.append_assoc]
    obtain ⟨past, start, since, isPast, ⟨again, rfl⟩, -⟩ := id opened
    have first : .started device other again ∈ world.db.log := by
      rw [longer, isPast]
      simp
    have second : .started device installation recovering ∈ world.db.log := by
      rw [split]
      exact List.mem_append_left _ isStarted
    obtain rfl := (owned.started_once first second).1
    have startedOnce : ∀ target again, .started device target again ∉ event :: between :=
      fun target again isLater => owned.not_restarted shorter isStarted target again
        (List.mem_append_left _ isLater)
    have closed : ¬ Opened (before ++ [event]) device other := by
      refine fun goesOn => (since_concat.mp goesOn).elim ?_ fun both => both.2 closes
      rintro ⟨again, same⟩
      exact startedOnce other again (by rw [← same]; exact List.mem_cons_self)
    have still : ¬ Opened ((before ++ [event]) ++ between) device other := by
      refine not_since_append closed ?_
      rintro later isLater - ⟨again, rfl⟩
      exact startedOnce other again (List.mem_cons_of_mem _ isLater)
    rw [List.append_assoc, List.singleton_append] at still
    exact still opened

theorem ended_claims_stay_ended_collecting :
    ((plainWorld collecting).db.log.Pairwise fun earlier later => ∀ code installation owner other
      account, later = .claimed code installation owner → earlier ≠ .claimed code other account) ∧
      ∀ before event after device installation recovering,
        (plainWorld collecting).db.log = before ++ event :: after →
          .started device installation recovering ∈ before → event.closes device installation →
            ∀ other owner now, .delivered device other owner now ∉ after :=
  ended_claims_stay_ended (reached_plainWorld (by decide +kernel))

end Cairn.Beacon

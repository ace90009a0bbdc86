import Cairn.Beacon.Operations

/-!
Owns the changes of the tables that add no MCP access: what they remove goes with its codes and
tokens, and what they leave still belongs to the owner of its installation.

Does not own the exchanges and consents that do add access.
-/

set_option autoImplicit false

namespace Cairn.Beacon

open Cairn.Library.HashMaps Cairn.Library.RowLocks

variable {db next middle : Database} {functions : Functions}

/-- An event that adds MCP access. -/
def Event.isAccess : Event → Bool
  | .consented _ _ => true
  | .granted _ _ _ => true
  | .issued _ _ _ _ _ _ => true
  | _ => false

/-- An event that says nothing about MCP access. -/
def Event.isOther : Event → Bool
  | .consented _ _ => false
  | .granted _ _ _ => false
  | .issued _ _ _ _ _ _ => false
  | .released _ _ => false
  | .revoked _ => false
  | _ => true

/-- An event that adds no access, and whose removals were made. -/
structure Event.Removes (db next : Database) (event : Event) : Prop where
  quiet : event.isAccess = false
  released : ∀ installation owner, event = .released installation owner →
    ∀ id row, next.grants.lookup id = some row → row.installation ≠ installation
  revoked : ∀ grant, event = .revoked grant →
    next.grants.lookup grant = none ∧ (db.grants.lookup grant).isSome

theorem Event.Removes.of_other {event : Event} (other : event.isOther = true) :
    event.Removes db next := by
  cases event with
  | consented code row => cases other
  | granted grant access row => cases other
  | issued source grant access refresh scopes request => cases other
  | released installation owner => cases other
  | revoked grant => cases other
  | _ => exact ⟨rfl, fun _ _ same => (by cases same), fun _ same => by cases same⟩

/-- A change that only removes codes, grants and tokens. -/
structure Shrinks (db next : Database) : Prop where
  codes : ∀ digest row, next.codes.lookup digest = some row → db.codes.lookup digest = some row
  grants : ∀ id row, next.grants.lookup id = some row → db.grants.lookup id = some row
  tokens : ∀ digest row, next.tokens.lookup digest = some row → db.tokens.lookup digest = some row
  codeGrants : ∀ digest row grant, next.codes.lookup digest = some row → row.grant = some grant →
    (db.grants.lookup grant).isSome → (next.grants.lookup grant).isSome
  tokenGrants : ∀ digest row, next.tokens.lookup digest = some row →
    (db.grants.lookup row.grant).isSome → (next.grants.lookup row.grant).isSome
  codeOwners : ∀ digest row, next.codes.lookup digest = some row →
    db.owner row.installation = some row.account → next.owner row.installation = some row.account
  grantOwners : ∀ id row, next.grants.lookup id = some row →
    db.owner row.installation = some row.account → next.owner row.installation = some row.account
  seen : ∀ value ∈ db.seen, value ∈ next.seen
  log : ∃ extra, next.log = db.log ++ extra ∧ ∀ event ∈ extra, event.Removes db next

namespace Shrinks

theorem trans (first : Shrinks db middle) (second : Shrinks middle next) : Shrinks db next where
  codes digest row found := first.codes digest row (second.codes digest row found)
  grants id row found := first.grants id row (second.grants id row found)
  tokens digest row found := first.tokens digest row (second.tokens digest row found)
  codeGrants digest row grant found named present :=
    second.codeGrants digest row grant found named
      (first.codeGrants digest row grant (second.codes digest row found) named present)
  tokenGrants digest row found present :=
    second.tokenGrants digest row found
      (first.tokenGrants digest row (second.tokens digest row found) present)
  codeOwners digest row found owned :=
    second.codeOwners digest row found
      (first.codeOwners digest row (second.codes digest row found) owned)
  grantOwners id row found owned :=
    second.grantOwners id row found (first.grantOwners id row (second.grants id row found) owned)
  seen value member := second.seen value (first.seen value member)
  log := by
    obtain ⟨earlier, isMiddle, quiet⟩ := first.log
    obtain ⟨later, isNext, still⟩ := second.log
    refine ⟨earlier ++ later, by rw [isNext, isMiddle, List.append_assoc], fun event member => ?_⟩
    rcases List.mem_append.mp member with old | new
    · have removes := quiet event old
      refine ⟨removes.quiet, fun installation owner released id row found => ?_, fun grant revoked => ?_⟩
      · exact removes.released installation owner released id row (second.grants id row found)
      · refine ⟨?_, (removes.revoked grant revoked).2⟩
        cases found : next.grants.lookup grant with
        | none => rfl
        | some row =>
            have gone := (removes.revoked grant revoked).1
            rw [second.grants grant row found] at gone
            cases gone
    · have removes := still event new
      refine ⟨removes.quiet, removes.released, fun grant revoked => ?_⟩
      obtain ⟨gone, present⟩ := removes.revoked grant revoked
      obtain ⟨row, found⟩ := Option.isSome_iff_exists.mp present
      exact ⟨gone, by rw [first.grants grant row found]; rfl⟩

/-- A change of other tables, in which nobody loses an installation. -/
theorem of_same (codes : next.codes = db.codes) (grants : next.grants = db.grants)
    (tokens : next.tokens = db.tokens)
    (owners : ∀ installation account, db.owner installation = some account →
      next.owner installation = some account)
    (seen : ∀ value ∈ db.seen, value ∈ next.seen) {extra : List Event}
    (log : next.log = db.log ++ extra)
    (quiet : ∀ event ∈ extra, event.isOther = true) : Shrinks db next where
  codes _ _ found := codes ▸ found
  grants _ _ found := grants ▸ found
  tokens _ _ found := tokens ▸ found
  codeGrants _ _ _ _ _ present := grants ▸ present
  tokenGrants _ _ _ present := grants ▸ present
  codeOwners _ _ _ owned := owners _ _ owned
  grantOwners _ _ _ owned := owners _ _ owned
  seen := seen
  log := ⟨extra, log, fun event member => .of_other (quiet event member)⟩

theorem refl (db : Database) : Shrinks db db :=
  of_same rfl rfl rfl (fun _ _ owned => owned) (fun _ member => member) (List.append_nil _).symm
    fun _ member => absurd member List.not_mem_nil

/-- An event that changes nothing. -/
theorem record {event : Event} (quiet : event.isOther = true) : Shrinks db (db.record event) :=
  of_same rfl rfl rfl (fun _ _ owned => owned) (fun _ member => member) rfl fun other member => by
    rwa [List.mem_singleton.mp member]

theorem deleteCodes (meets : Code → Bool) : Shrinks db (db.deleteCodes meets) where
  codes digest row found := by
    rw [Database.deleteCodes, lookup_retain] at found
    exact (Option.filter_eq_some_iff.mp found).1
  grants id row found := found
  tokens digest row found := found
  codeGrants digest row grant found named present := present
  tokenGrants digest row found present := present
  codeOwners digest row found owned := owned
  grantOwners id row found owned := owned
  seen value member := member
  log := ⟨[], (List.append_nil _).symm, fun _ member => absurd member List.not_mem_nil⟩

/-- A grant that stays keeps what names it. -/
theorem deleteGrants (meets : String → Grant → Bool) : Shrinks db (db.deleteGrants meets) := by
  have kept : ∀ id, (db.grants.lookup id).isSome → db.grantMeets meets id = false →
      ((db.deleteGrants meets).grants.lookup id).isSome := by
    intro id present spared
    obtain ⟨row, found⟩ := Option.isSome_iff_exists.mp present
    have stays : (db.deleteGrants meets).grants.lookup id = some row := by
      rw [Database.deleteGrants, lookup_retain, found]
      rw [Database.grantMeets, found, Option.any_some] at spared
      simp [spared]
    rw [stays]
    rfl
  refine ⟨fun digest row found => ?_, fun id row found => ?_, fun digest row found => ?_,
    fun digest row grant found named present => kept grant present ?_,
    fun digest row found present => kept row.grant present ?_, fun digest row found owned => owned,
    fun id row found owned => owned, fun value member => member,
    ⟨[], (List.append_nil _).symm, fun _ member => absurd member List.not_mem_nil⟩⟩
  · rw [Database.deleteGrants, lookup_retain] at found
    exact (Option.filter_eq_some_iff.mp found).1
  · rw [Database.deleteGrants, lookup_retain] at found
    exact (Option.filter_eq_some_iff.mp found).1
  · rw [Database.deleteGrants, lookup_retain] at found
    exact (Option.filter_eq_some_iff.mp found).1
  · rw [Database.deleteGrants, lookup_retain] at found
    have spared := (Option.filter_eq_some_iff.mp found).2
    simpa [named] using spared
  · rw [Database.deleteGrants, lookup_retain] at found
    simpa using (Option.filter_eq_some_iff.mp found).2

theorem deleteDeviceClaims (meets : DeviceClaim → Bool) :
    Shrinks db (db.deleteDeviceClaims meets) :=
  of_same rfl rfl rfl (fun _ _ owned => owned) (fun _ member => member) (List.append_nil _).symm
    fun _ member => absurd member List.not_mem_nil

end Shrinks

/-! ### Owners -/

theorem owner_changeInstallation (change : Installation → Installation) (installation other : String) :
    (db.changeInstallation installation change).owner other =
      if other = installation
      then ((db.installations.lookup installation).map change).bind Installation.owner
      else db.owner other := by
  rw [Database.owner, Database.changeInstallation, lookup_modify]
  split <;> rfl

/-- A change of an installation that keeps its owner. -/
theorem owner_kept {change : Installation → Installation} (same : ∀ row, (change row).owner = row.owner)
    (installation other : String) :
    (db.changeInstallation installation change).owner other = db.owner other := by
  rw [owner_changeInstallation]
  split
  · rename_i isSame
    rw [isSame, Database.owner]
    cases db.installations.lookup installation with
    | none => rfl
    | some row => exact same row
  · rfl

namespace Shrinks

/-- What the release of an installation removes, whatever becomes of its row. -/
theorem release {base : Database} {installation owner : String} (codes : base.codes = db.codes)
    (grants : base.grants = db.grants) (tokens : base.tokens = db.tokens) (seen : base.seen = db.seen)
    (log : base.log = db.log)
    (owners : ∀ other, other ≠ installation → base.owner other = db.owner other) :
    Shrinks db (((base.deleteAccess (· = installation)).deleteClaimsOf installation).record
      (.released installation owner)) := by
  have fewer : Shrinks base (base.deleteAccess (· = installation)) :=
    (deleteGrants _).trans (deleteCodes _)
  have noGrant : ∀ id row, (base.deleteAccess (· = installation)).grants.lookup id = some row →
      row.installation ≠ installation := by
    intro id row found
    have isKept : (retain (fun _ grant => !decide (grant.installation = installation))
      base.grants).lookup id = some row := found
    rw [lookup_retain] at isKept
    simpa using (Option.filter_eq_some_iff.mp isKept).2
  have noCode : ∀ digest row, (base.deleteAccess (· = installation)).codes.lookup digest = some row →
      row.installation ≠ installation := by
    intro digest row found
    rw [Database.deleteAccess, Database.deleteCodes, lookup_retain] at found
    simpa using (Option.filter_eq_some_iff.mp found).2
  refine ⟨fun digest row found => codes ▸ fewer.codes digest row found,
    fun id row found => grants ▸ fewer.grants id row found,
    fun digest row found => tokens ▸ fewer.tokens digest row found,
    fun digest row grant found named present =>
      fewer.codeGrants digest row grant found named (grants ▸ present),
    fun digest row found present => fewer.tokenGrants digest row found (grants ▸ present),
    fun digest row found owned => ?_, fun id row found owned => ?_,
    fun value member => fewer.seen value (seen ▸ member), ?_⟩
  · exact (owners _ (noCode digest row found)).trans owned
  · exact (owners _ (noGrant id row found)).trans owned
  · refine ⟨[.released installation owner], by
      rw [← log]
      rfl, fun event member => ?_⟩
    obtain rfl := List.mem_singleton.mp member
    refine ⟨rfl, fun other account released id row found => ?_, fun _ same => by cases same⟩
    obtain ⟨rfl, -⟩ := Event.released.inj released
    exact noGrant id row found

theorem detachOn (installation owner : String) : Shrinks db (db.detachOn installation owner) := by
  unfold Database.detachOn
  split
  · refine release rfl rfl rfl rfl rfl fun other different => ?_
    rw [owner_changeInstallation, if_neg different]
  · exact refl db

theorem forget (installation owner : String) : Shrinks db (db.forget installation owner) := by
  unfold Database.forget
  split
  · refine release rfl rfl rfl rfl rfl fun other different => ?_
    rw [Database.owner, lookup_erase, if_neg different]
    rfl
  · exact refl db

theorem deleteAccount (account : String) : Shrinks db (db.deleteAccount account) := by
  have detached : ∀ (owned : List String) (db : Database),
      Shrinks db (owned.foldl (fun db installation => db.detachOn installation account) db) := by
    intro owned
    induction owned with
    | nil => exact refl
    | cons installation owned inductionHypothesis =>
        intro db
        exact (detachOn installation account).trans (inductionHypothesis _)
  have fewer := ((((detached (db.ownedBy account) db).trans
    (deleteGrants fun _ grant => grant.account = account)).trans
    (deleteCodes fun code => code.account = account)).trans
    (deleteDeviceClaims fun claim =>
      claim.reviewedBy = some account || claim.approvedBy = some account))
  exact fewer.trans (of_same rfl rfl rfl (fun _ _ owned => owned) (fun _ member => member)
    (List.append_nil _).symm fun _ member => absurd member List.not_mem_nil)

theorem revoke (grant : String) (meets : Grant → Bool) : Shrinks db (db.revoke grant meets) := by
  unfold Database.revoke
  split
  · rename_i present
    obtain ⟨row, found⟩ := Option.isSome_iff_exists.mp (Option.isSome_of_any present)
    have fewer : Shrinks db (db.deleteGrants fun id _ => id = grant) := deleteGrants _
    have gone : (db.deleteGrants fun id _ => decide (id = grant)).grants.lookup grant = none := by
      rw [Database.deleteGrants, lookup_retain, found]
      simp
    refine { fewer with log := ⟨[.revoked grant], rfl, fun event member => ?_⟩ }
    obtain rfl := List.mem_singleton.mp member
    refine ⟨rfl, fun _ _ same => (by cases same), fun other same => ?_⟩
    obtain rfl := Event.revoked.inj same
    exact ⟨gone, by rw [found]; rfl⟩
  · exact refl db

theorem answer (request : TokenRequest) : Shrinks db (db.answer request) :=
  record rfl

theorem replay (request : TokenRequest) (grant : String) : Shrinks db (db.replay request grant) :=
  (deleteGrants _).trans (answer request)

/-- Tokens that are deleted alone. -/
theorem retainTokens (keep : String → Token → Bool) :
    Shrinks db { db with tokens := retain keep db.tokens } where
  codes digest row found := found
  grants id row found := found
  tokens digest row found := by
    rw [lookup_retain] at found
    exact (Option.filter_eq_some_iff.mp found).1
  codeGrants digest row grant found named present := present
  tokenGrants digest row found present := present
  codeOwners digest row found owned := owned
  grantOwners id row found owned := owned
  seen value member := member
  log := ⟨[], (List.append_nil _).symm, fun _ member => absurd member List.not_mem_nil⟩

theorem cleanup (now : Nat) : Shrinks db (db.cleanup now) := by
  have others : ∀ {db next : Database}, next.codes = db.codes → next.grants = db.grants →
      next.tokens = db.tokens → next.installations = db.installations → next.seen = db.seen →
      next.log = db.log → Shrinks db next := by
    intro db next codes grants tokens installations seen log
    refine of_same codes grants tokens (fun installation account owned => ?_)
      (fun _ member => seen ▸ member) (log.trans (List.append_nil _).symm)
      fun _ member => absurd member List.not_mem_nil
    rwa [Database.owner, installations]
  have first : Shrinks db { db with
      claimCodes := retain (fun _ code => now < code.expiresAt) db.claimCodes
      deviceClaims := retain (fun _ claim => now < claim.expiresAt) db.deviceClaims } :=
    others rfl rfl rfl rfl rfl rfl
  have fewer := ((first.trans (deleteGrants fun _ grant => grant.expiresAt ≤ now)).trans (retainTokens fun _ token => now < token.expiresAt)).trans
    (deleteCodes fun code => code.grant.isNone && code.expiresAt ≤ now)
  exact fewer.trans (others rfl rfl rfl rfl rfl rfl)

/-- A new owner of an installation without codes and grants. -/
theorem acquire {installation : String} {event : Event} (codes : next.codes = db.codes)
    (grants : next.grants = db.grants) (tokens : next.tokens = db.tokens)
    (seen : next.seen = db.seen) (log : next.log = db.log ++ [event]) (quiet : event.isOther = true)
    (codesApart : ∀ digest row, db.codes.lookup digest = some row → row.installation ≠ installation)
    (grantsApart : ∀ id row, db.grants.lookup id = some row → row.installation ≠ installation)
    (owners : ∀ other, other ≠ installation → next.owner other = db.owner other) :
    Shrinks db next where
  codes digest row found := codes ▸ found
  grants id row found := grants ▸ found
  tokens digest row found := tokens ▸ found
  codeGrants digest row grant found named present := grants ▸ present
  tokenGrants digest row found present := grants ▸ present
  codeOwners digest row found owned := by
    rw [owners _ (codesApart digest row (codes ▸ found)), owned]
  grantOwners id row found owned := by
    rw [owners _ (grantsApart id row (grants ▸ found)), owned]
  seen value member := seen ▸ member
  log := ⟨[event], log, fun other member => by
    rw [List.mem_singleton.mp member]
    exact .of_other quiet⟩

end Shrinks

end Cairn.Beacon

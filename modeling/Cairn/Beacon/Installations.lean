import Cairn.Beacon.Database
import Cairn.Library.Text

/-!
Owns the transactions of `beacon/src/installations.rs` that create, release and hand
over installations, and the deletion of an account (`beacon/src/account.rs`), as
programs over the tables. The account of a request is the one its session or bearer
proves; a check that is repeated under the locks can only refuse.

Does not own MCP access, members and invitations, names after the first, or the audit.
-/

set_option autoImplicit false

namespace Cairn.Beacon

open Cairn.Library.HashMaps Cairn.Library.RowLocks Cairn.Library.Text

/-- `SUPPORTED_VERSIONS`. -/
def supportedVersions : List Nat := [4, 3, 2, 1]

/-- `claim_name`, with `installation_name`. -/
def claimName (name : String) (protocol : Nat) : Option String :=
  let trimmed := trim name
  if protocol ∉ supportedVersions then none
  else if trimmed.isEmpty || trimmed.length > 100 || trimmed.toList.any isControl then none
  else some trimmed

/-- A credential a machine may choose: 64 hexadecimal digits. -/
def isCredential (token : String) : Bool :=
  token.length == 64 && token.toList.all fun char =>
    char.isDigit || ('a' ≤ char && char ≤ 'f') || ('A' ≤ char && char ≤ 'F')

/-- What the beacon computes of strings: `digest`, the challenge of a PKCE verifier,
`to_uppercase`, and whether a registered redirect admits another (`redirect_matches`). -/
structure Functions where
  digest : String → String
  challenge : String → String
  uppercase : String → String
  redirectMatches : String → String → Bool
  origin : String

/-- `MachineIdentity`. -/
structure MachineIdentity where
  installationId : String
  token : String
deriving DecidableEq

namespace Database

/-- The change of one installation. -/
def changeInstallation (installation : String) (change : Installation → Installation)
    (db : Database) : Database :=
  { db with installations := modify installation change db.installations }

/-- The change of one device claim. -/
def changeClaim (device : String) (change : DeviceClaim → DeviceClaim) (db : Database) :
    Database :=
  { db with deviceClaims := modify device change db.deviceClaims }

/-- The device claims of an installation are deleted. -/
def deleteClaimsOf (installation : String) (db : Database) : Database :=
  db.deleteDeviceClaims fun claim => claim.installation = installation

/-- `detach_on`. -/
def detachOn (installation owner : String) (db : Database) : Database :=
  if db.owner installation = some owner then
    (((db.changeInstallation installation fun row => { row with owner := none }).deleteAccess
      (· = installation)).deleteClaimsOf installation).record (.released installation owner)
  else db

/-- The end of `forget`. -/
def forget (installation owner : String) (db : Database) : Database :=
  if db.owner installation = some owner then
    (({ db with installations := db.installations.erase installation }.deleteAccess
      (· = installation)).deleteClaimsOf installation).record (.released installation owner)
  else db

/-- The installations of an owner. -/
def ownedBy (account : String) (db : Database) : List String :=
  (db.installations.entries.filter fun entry => entry.2.owner = some account).map Sigma.fst

/-- What is deleted with a row of `cairn_accounts`; an installation loses its owner. -/
def deleteAccount (account : String) (db : Database) : Database :=
  let db := (db.ownedBy account).foldl (fun db installation => db.detachOn installation account) db
  let db := db.deleteGrants fun _ grant => grant.account = account
  let db := db.deleteCodes fun code => code.account = account
  let db := db.deleteDeviceClaims fun claim =>
    claim.reviewedBy = some account || claim.approvedBy = some account
  { db with claimCodes := retain (fun _ code => code.account ≠ account) db.claimCodes }

/-- The device claim a user code names. -/
def claimOf (userDigest : String) (db : Database) : Option (String × DeviceClaim) :=
  (db.deviceClaims.entries.find? fun entry => entry.2.userDigest = userDigest).map fun entry =>
    (entry.1, entry.2)

/-- A device claim takes the place of the others of its installation; `none` if its user
code is in use. -/
def insertClaim (device : String) (claim : DeviceClaim) (db : Database) : Option Database :=
  let cleared := db.deleteClaimsOf claim.installation
  if (cleared.claimOf claim.userDigest).isSome then none
  else some ({ cleared with deviceClaims := cleared.deviceClaims.insert device claim }.record
    (.started device claim.installation claim.recovering))

end Database

/-! ### Programs -/

namespace Program

/-- An error, or an answer to which nothing is written. -/
def refuse : Program := .finish id

/-- `lock_confirmed_owner`. -/
def lockConfirmedOwner (installation owner : String) (next : Program) : Program :=
  .select
    (fun db => if db.owner installation = some owner
      then [⟨.installation installation, .exclusive⟩] else [])
    fun db => if db.owner installation = some owner then next else refuse

/-- `forget`. -/
def forget (installation owner : String) : Program :=
  lockConfirmedOwner installation owner (.finish (Database.forget installation owner))

/-- `detach`. -/
def detach (installation owner : String) : Program :=
  lockConfirmedOwner installation owner (.finish (Database.detachOn installation owner))

/-- `delete_access`. -/
def deleteAccount (account : String) : Program :=
  .select
    (fun db => (db.ownedBy account).map fun installation =>
      ⟨.installation installation, .exclusive⟩)
    fun _ => .finish (Database.deleteAccount account)

section Digests

variable (functions : Functions)

/-- `claim_code`. -/
def claimCode (now : Nat) (account : String) : Program :=
  .draw fun code => .finish fun db =>
    { db with claimCodes :=
        db.claimCodes.insert (functions.digest code) ⟨account, now + minutes 10⟩ }.record
      (.codeCreated (functions.digest code) account)

/-- `claim`, past the rate limit. -/
def claim (now : Nat) (code name : String) (protocol : Nat) : Program :=
  match claimName name protocol with
  | none => refuse
  | some name =>
      let found (db : Database) : Option ClaimCode :=
        (db.claimCodes.lookup (functions.digest code)).filter fun row => now < row.expiresAt
      .select
        (fun db => if (found db).isSome
          then [⟨.claimCode (functions.digest code), .exclusive⟩] else [])
        fun db =>
          match found db with
          | none => refuse
          | some row =>
              .draw fun installation => .draw fun token => .finish fun db =>
                { db with
                  claimCodes := db.claimCodes.erase (functions.digest code)
                  installations := db.installations.insert installation
                    ⟨some row.account, name, functions.digest token, none⟩ }.record
                  (.claimed (functions.digest code) installation row.account)

/-- The query of `rotate_token`. -/
def rotating (installation previous replacement : String) (db : Database) :
    Option Installation :=
  (db.installations.lookup installation).filter fun row =>
    row.owner.isSome && (row.tokenDigest = previous || row.tokenDigest = replacement)

/-- `rotate_token`. -/
def rotateToken (installation previous token : String) : Program :=
  if !isCredential token || previous = token then refuse
  else
    let replacement := functions.digest token
    .select
      (fun db => if (rotating installation (functions.digest previous) replacement db).isSome
        then [⟨.installation installation, .exclusive⟩] else [])
      fun db =>
        match rotating installation (functions.digest previous) replacement db with
        | none => refuse
        | some row =>
            if row.tokenDigest = replacement then refuse
            else .finish fun db =>
              ((db.changeInstallation installation fun row => { row with
                tokenDigest := replacement
                recoveryDigest := none }).deleteClaimsOf installation).record
                (.rotated installation)

/-- A new device claim; `code` is its user code. -/
def newClaim (now : Nat) (installation name code : String) (recovering : Bool) : DeviceClaim :=
  ⟨functions.digest code, installation, name, recovering, none, none, none, now + minutes 10⟩

/-- The query of `start_device` for an identity. -/
def provenBy (identity : MachineIdentity) (db : Database) : Option Installation :=
  (db.installations.lookup identity.installationId).filter fun row =>
    row.tokenDigest = functions.digest identity.token ||
      row.recoveryDigest = some (functions.digest identity.token)

/-- The end of `start_device` for an identity. -/
def recover (now : Nat) (identity : MachineIdentity) (name code device : String)
    (db : Database) : Database :=
  let recovered := db.changeInstallation identity.installationId fun row =>
    { row with recoveryDigest := some (functions.digest identity.token) }
  (recovered.insertClaim (functions.digest device)
    (newClaim functions now identity.installationId name code true)).getD db

/-- The end of `start_device` for a new installation. -/
def introduce (now : Nat) (installation name code device : String) (db : Database) : Database :=
  (db.insertClaim (functions.digest device)
    (newClaim functions now installation name code false)).getD db

/-- `start_device`. -/
def startDevice (now : Nat) (name : String) (protocol : Nat)
    (identity : Option MachineIdentity) (code : String) : Program :=
  match claimName name protocol with
  | none => refuse
  | some requestedName =>
      match identity with
      | none =>
          .draw fun installation => .draw fun device => .finish
            (introduce functions now installation requestedName code device)
      | some identity =>
          .select
            (fun db => if (provenBy functions identity db).isSome
              then [⟨.installation identity.installationId, .exclusive⟩] else [])
            fun db =>
              match provenBy functions identity db with
              | none => refuse
              | some row =>
                  if row.owner.isSome then refuse
                  else .draw fun device => .finish
                    (recover functions now identity row.name code device)

/-- `code.trim().replace('-', "").to_uppercase()`. -/
def normalized (code : String) : String :=
  functions.uppercase (String.ofList ((trim code).toList.filter fun char => char ≠ '-'))

/-- What the update of `preview_device` asks of the row itself. -/
def reviewable (now : Nat) (claim : DeviceClaim) : Bool :=
  claim.approvedBy.isNone && now < claim.expiresAt

/-- `preview_device`: the subquery on the installation is read before the row is locked. -/
def previewDevice (now : Nat) (account code : String) : Program :=
  .select (fun _ => []) fun db =>
    match db.claimOf (functions.digest (normalized functions code)) with
    | none => refuse
    | some (device, claim) =>
        if reviewable now claim && (!claim.recovering ||
            (db.installations.lookup claim.installation).any fun row => row.owner.isNone) then
          .select (fun _ => [⟨.deviceClaim device, .exclusive⟩]) fun db =>
            if (db.deviceClaims.lookup device).any (reviewable now) then
              .draw fun confirmation => .finish fun db =>
                (db.changeClaim device fun claim => { claim with
                  reviewedBy := some account
                  confirmationDigest := some (functions.digest confirmation) }).record
                  (.reviewed device account (functions.digest confirmation))
            else refuse
        else refuse

/-- The query of `approve_device`. -/
def approvable (now : Nat) (account code confirmation : String) (db : Database) :
    Option String :=
  ((db.claimOf (functions.digest (normalized functions code))).filter fun found =>
    found.2.reviewedBy = some account &&
      found.2.confirmationDigest = some (functions.digest confirmation) &&
        reviewable now found.2).map Prod.fst

/-- `approve_device`. -/
def approveDevice (now : Nat) (account code : String) (confirmation : Option String) : Program :=
  match confirmation with
  | none => refuse
  | some confirmation =>
      .select
        (fun db => ((approvable functions now account code confirmation db).map fun device =>
          ⟨.deviceClaim device, .exclusive⟩).toList)
        fun db =>
          match approvable functions now account code confirmation db with
          | none => refuse
          | some device => .finish fun db =>
              (db.changeClaim device fun claim => { claim with approvedBy := some account }).record
                (.approved device account (functions.digest confirmation))

/-- A device claim that has not expired. -/
def liveClaim (now : Nat) (device : String) (db : Database) : Option DeviceClaim :=
  (db.deviceClaims.lookup device).filter fun claim => now < claim.expiresAt

/-- The end of `poll_device`. -/
def deliver (now : Nat) (device : String) (claim : DeviceClaim) (owner token : String)
    (db : Database) : Database :=
  let row : Installation := ⟨some owner, claim.installationName, functions.digest token, none⟩
  let delivered (db : Database) : Database :=
    { db with deviceClaims := db.deviceClaims.erase device }.record
      (.delivered device claim.installation owner now)
  if claim.recovering then
    delivered (db.changeInstallation claim.installation fun row =>
      { row with owner := some owner, tokenDigest := functions.digest token })
  else if (db.installations.lookup claim.installation).isSome then db
  else delivered { db with installations := db.installations.insert claim.installation row }

/-- The last statements of `poll_device`. -/
def collect (now : Nat) (device installation : String) (recovering : Bool) : Program :=
  .select
    (fun db => if (liveClaim now device db).isSome then [⟨.deviceClaim device, .exclusive⟩] else [])
    fun db =>
      match liveClaim now device db with
      | none => refuse
      | some claim =>
          match claim.approvedBy with
          | none => refuse
          | some owner => .draw fun token => .finish
              (deliver functions now device { claim with
                installation := installation, recovering := recovering } owner token)

/-- `poll_device`. -/
def pollDevice (now : Nat) (deviceCode : String) : Program :=
  let device := functions.digest deviceCode
  .select (fun _ => []) fun db =>
    match liveClaim now device db with
    | none => refuse
    | some claim =>
        if claim.recovering then
          .select
            (fun db => if db.installations.lookup claim.installation = none then []
              else [⟨.installation claim.installation, .exclusive⟩])
            fun db =>
              if (db.installations.lookup claim.installation).any fun row => row.owner.isNone then
                collect functions now device claim.installation true
              else refuse
        else collect functions now device claim.installation false

end Digests

end Program

end Cairn.Beacon

import Cairn.Library.RowLocks

/-!
Owns the tables of the beacon that ownership and MCP access rest on, their rows, and
what deleting an installation, a grant or an account removes with it. Times are
milliseconds; `clock` is the database's, and `now` of a transaction is its reading at
the beginning, as PostgreSQL's `now()`.

`seen` is every value a request has presented or `random_token` has drawn, with its
digest, and `log` what the transactions have done; no query reads them. Not modelled:
foreign keys that only refuse a row, the account and session rows, and rate limits,
which only refuse a request.
-/

set_option autoImplicit false

namespace Cairn.Beacon

open Cairn.Library.HashMaps Cairn.Library.RowLocks

/-- An interval of minutes. -/
def minutes (count : Nat) : Nat := count * 60000

/-- An interval of days. -/
def days (count : Nat) : Nat := minutes (count * 1440)

/-! ### Rows -/

/-- A row of `installations`. -/
structure Installation where
  owner : Option String
  name : String
  tokenDigest : String
  recoveryDigest : Option String
deriving DecidableEq

/-- A row of `installation_claim_codes`. -/
structure ClaimCode where
  account : String
  expiresAt : Nat
deriving DecidableEq

/-- A row of `installation_device_claims`. -/
structure DeviceClaim where
  userDigest : String
  installation : String
  installationName : String
  recovering : Bool
  reviewedBy : Option String
  confirmationDigest : Option String
  approvedBy : Option String
  expiresAt : Nat
deriving DecidableEq

/-- A row of `mcp_clients`. -/
structure Client where
  name : String
  redirectUris : List String
  createdAt : Nat
deriving DecidableEq

/-- A row of `mcp_codes`. -/
structure Code where
  account : String
  installation : String
  client : String
  redirectUri : String
  challenge : String
  scopes : List String
  expiresAt : Nat
  grant : Option String
deriving DecidableEq

/-- A row of `mcp_grants`. -/
structure Grant where
  account : String
  installation : String
  client : Option String
  label : String
  scopes : List String
  expiresAt : Nat
deriving DecidableEq

/-- `kind` of a token. -/
inductive TokenKind where
  | access
  | refresh
deriving DecidableEq

/-- A row of `mcp_tokens`. -/
structure Token where
  grant : String
  kind : TokenKind
  scopes : List String
  used : Bool
  expiresAt : Nat
deriving DecidableEq

/-! ### What has happened -/

/-- What tokens were issued for. -/
inductive Source where
  | code (digest : String)
  | refresh (digest : String)
deriving DecidableEq

/-- The parameters of a token request; a missing one is empty. -/
structure TokenRequest where
  grantType : String
  code : String
  clientId : String
  redirectUri : String
  codeVerifier : String
  resource : String
  refreshToken : String
  scope : String
deriving DecidableEq

/-- What a transaction has done, by digests. -/
inductive Event where
  | codeCreated (code account : String)
  | claimed (code installation owner : String)
  | started (device installation : String) (recovering : Bool)
  | reviewed (device account confirmation : String)
  | approved (device account confirmation : String)
  | delivered (device installation owner : String) (now : Nat)
  | rotated (installation : String)
  | released (installation owner : String)
  | consented (code : String) (row : Code)
  | granted (grant access : String) (row : Grant)
  | issued (source : Source) (grant access refresh : String) (scopes : List String)
      (request : TokenRequest)
  | answered (request : TokenRequest) (clock : Nat)
  | revoked (grant : String)
deriving DecidableEq

/-- The tables. -/
structure Database where
  installations : HashMap String Installation
  claimCodes : HashMap String ClaimCode
  deviceClaims : HashMap String DeviceClaim
  clients : HashMap String Client
  codes : HashMap String Code
  grants : HashMap String Grant
  tokens : HashMap String Token
  clock : Nat
  seen : List String
  log : List Event

/-- The names of rows. -/
inductive Row where
  | installation (id : String)
  | claimCode (digest : String)
  | deviceClaim (digest : String)
  | client (id : String)
  | code (digest : String)
  | grant (id : String)
  | token (digest : String)
deriving DecidableEq

/-- A row is as in another state of the tables. -/
def Row.same (db next : Database) : Row → Bool
  | .installation id => db.installations.lookup id = next.installations.lookup id
  | .claimCode digest => db.claimCodes.lookup digest = next.claimCodes.lookup digest
  | .deviceClaim digest => db.deviceClaims.lookup digest = next.deviceClaims.lookup digest
  | .client id => db.clients.lookup id = next.clients.lookup id
  | .code digest => db.codes.lookup digest = next.codes.lookup digest
  | .grant id => db.grants.lookup id = next.grants.lookup id
  | .token digest => db.tokens.lookup digest = next.tokens.lookup digest

/-- A transaction of the beacon. -/
abbrev Program := Transaction Database Row String

namespace Database

/-- Empty tables. -/
def empty : Database := ⟨∅, ∅, ∅, ∅, ∅, ∅, ∅, 0, [], []⟩

/-- Something has happened. -/
def record (event : Event) (db : Database) : Database := { db with log := db.log ++ [event] }

/-- The owner of an installation, if it has one. -/
def owner (installation : String) (db : Database) : Option String :=
  (db.installations.lookup installation).bind Installation.owner

/-! ### Deletions -/

/-- Whether a grant is among those that meet a condition. -/
def grantMeets (meets : String → Grant → Bool) (db : Database) (grant : String) : Bool :=
  (db.grants.lookup grant).any (meets grant)

/-- `DELETE FROM mcp_grants`: tokens and consumed codes go with their grant. -/
def deleteGrants (meets : String → Grant → Bool) (db : Database) : Database :=
  { db with
    grants := retain (fun id grant => !meets id grant) db.grants
    tokens := retain (fun _ token => !db.grantMeets meets token.grant) db.tokens
    codes := retain (fun _ code => !code.grant.any (db.grantMeets meets)) db.codes }

/-- `DELETE FROM mcp_codes`. -/
def deleteCodes (meets : Code → Bool) (db : Database) : Database :=
  { db with codes := retain (fun _ code => !meets code) db.codes }

/-- `DELETE FROM installation_device_claims`. -/
def deleteDeviceClaims (meets : DeviceClaim → Bool) (db : Database) : Database :=
  { db with deviceClaims := retain (fun _ claim => !meets claim) db.deviceClaims }

/-- The grants of installations that meet a condition, and their codes. -/
def deleteAccess (meets : String → Bool) (db : Database) : Database :=
  (db.deleteGrants fun _ grant => meets grant.installation).deleteCodes
    fun code => meets code.installation

end Database

end Cairn.Beacon

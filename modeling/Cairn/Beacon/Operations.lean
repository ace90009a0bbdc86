import Cairn.Beacon.McpTokens

/-!
Owns the requests of the beacon that change ownership or MCP access, and the service
that runs them side by side.
-/

set_option autoImplicit false

namespace Cairn.Beacon

open Cairn.Library.RowLocks

/-- A request, with the account that makes it where it has to be signed in. -/
inductive Operation where
  | claimCode (account : String)
  | claim (code name : String) (protocol : Nat)
  | forget (installation account : String)
  | detach (installation account : String)
  | deleteAccount (account : String)
  | rotateToken (installation previous token : String)
  | startDevice (name : String) (protocol : Nat) (identity : Option MachineIdentity)
      (code : String)
  | previewDevice (account code : String)
  | approveDevice (account code : String) (confirmation : Option String)
  | pollDevice (deviceCode : String)
  | register (name : String) (redirectUris : List String)
  | personal (installation account label : String) (scopes : List String)
  | consent (installation account : String) (request : AuthorizationRequest)
  | exchange (request : TokenRequest)
  | revoke (installation grant account : String)
  | revokeToken (token clientId : String)
  | cleanup

namespace Operation

/-- The program of a request that begins at a reading of the clock. -/
def program (functions : Functions) (now : Nat) : Operation → Program
  | .claimCode account => Program.claimCode functions now account
  | .claim code name protocol => Program.claim functions now code name protocol
  | .forget installation account => Program.forget installation account
  | .detach installation account => Program.detach installation account
  | .deleteAccount account => Program.deleteAccount account
  | .rotateToken installation previous token =>
      Program.rotateToken functions installation previous token
  | .startDevice name protocol identity code =>
      Program.startDevice functions now name protocol identity code
  | .previewDevice account code => Program.previewDevice functions now account code
  | .approveDevice account code confirmation =>
      Program.approveDevice functions now account code confirmation
  | .pollDevice deviceCode => Program.pollDevice functions now deviceCode
  | .register name redirectUris => Program.register now name redirectUris
  | .personal installation account label scopes =>
      Program.personal functions now installation account label scopes
  | .consent installation account request =>
      Program.consent functions now installation account request
  | .exchange request => Program.exchangeTokens functions now request
  | .revoke installation grant account => Program.revoke installation grant account
  | .revokeToken token clientId => Program.revokeToken functions token clientId
  | .cleanup => Program.cleanup now

/-- The values a request presents that may have been drawn. -/
def presents : Operation → List String
  | .claim code _ _ => [code]
  | .forget installation _ | .detach installation _ => [installation]
  | .rotateToken installation previous token => [installation, previous, token]
  | .startDevice _ _ (some identity) _ => [identity.installationId, identity.token]
  | .approveDevice _ _ (some confirmation) => [confirmation]
  | .pollDevice deviceCode => [deviceCode]
  | .personal installation _ _ _ => [installation]
  | .consent installation _ request => [installation, request.clientId]
  | .exchange request => [request.code, request.refreshToken, request.clientId]
  | .revoke installation grant _ => [installation, grant]
  | .revokeToken token clientId => [token, clientId]
  | _ => []

end Operation

/-- Values with their digests. -/
def withDigests (functions : Functions) (values : List String) : List String :=
  values.flatMap fun value => [value, functions.digest value]

/-- The beacon: a value that is drawn was never seen before. -/
def beacon (functions : Functions) : Service Database Row String Operation where
  receive operation db :=
    { db with seen := withDigests functions operation.presents ++ db.seen }
  program operation db := operation.program functions db.clock
  fresh values db := decide ((withDigests functions values).Nodup ∧
    ∀ value ∈ withDigests functions values, value ∉ db.seen)
  note values db := { db with seen := withDigests functions values ++ db.seen }
  tick db := { db with clock := db.clock + 1 }
  same row db next := row.same db next

end Cairn.Beacon

import Cairn.Beacon.Installations

/-!
Owns the transactions of `beacon/src/mcp.rs` that make, exchange and revoke MCP access,
the query that admits a token, and `cleanup_expired` of `beacon/src/lib.rs`, as programs
over the tables. A statement of one query takes its locks together.

Does not own the relay behind an admitted token, or the parsing of URLs.
-/

set_option autoImplicit false

namespace Cairn.Beacon

open Cairn.Library.HashMaps Cairn.Library.RowLocks Cairn.Library.Text

/-- `SCOPES`. -/
def scopeNames : List String := ["read", "run", "manage"]

/-- `valid_scopes`. -/
def validScopes (scopes : List String) : Bool :=
  !scopes.isEmpty && scopes.all fun scope => scope ∈ scopeNames

/-- The parameters of an authorization request; a missing one is empty. -/
structure AuthorizationRequest where
  clientId : String
  redirectUri : String
  responseType : String
  codeChallengeMethod : String
  codeChallenge : String
  resource : String
  state : String
  scope : String
deriving DecidableEq

/-- A character of a base64url text. -/
def isUrlSafe (char : Char) : Bool := char.isAlphanum || char == '_' || char == '-'

/-- A character of a PKCE verifier. -/
def isVerifierChar (char : Char) : Bool := char.isAlphanum || char ∈ ['-', '.', '_', '~']

/-- `resource_matches`. -/
def resourceMatches (functions : Functions) (resource : String) : Bool :=
  resource.isEmpty || resource == functions.origin ++ "/mcp"

/-- The scopes an authorization request asks for. -/
def requestedScopes (scope : String) : List String :=
  if scope.isEmpty then ["read"] else splitWhitespace scope

/-- `authorization`. -/
def authorization (functions : Functions) (request : AuthorizationRequest) (db : Database) :
    Option (List String) :=
  match db.clients.lookup request.clientId with
  | none => none
  | some client =>
      let validPkce := request.codeChallengeMethod == "S256" &&
        request.codeChallenge.length == 43 && request.codeChallenge.toList.all isUrlSafe
      let validRedirect :=
        client.redirectUris.any fun uri => functions.redirectMatches uri request.redirectUri
      if !validRedirect || request.responseType != "code" || !validPkce ||
          !resourceMatches functions request.resource || request.state.utf8ByteSize > 2048 then none
      else some (requestedScopes request.scope) |>.filter validScopes

/-- `McpAccess`. -/
structure McpAccess where
  id : String
  account : String
  installation : String
  scopes : List String
deriving DecidableEq

/-- The rows that a grant joins: one that has not expired, of the owner of its
installation. -/
def liveGrant (now : Nat) (grant : String) (db : Database) : Option Grant :=
  (db.grants.lookup grant).filter fun row =>
    now < row.expiresAt && db.owner row.installation = some row.account

/-- `access`. -/
def access (now : Nat) (digest : String) (db : Database) : Option McpAccess :=
  match (db.tokens.lookup digest).filter fun token =>
    token.kind = .access && !token.used && now < token.expiresAt with
  | none => none
  | some token => (liveGrant now token.grant db).map fun grant =>
      ⟨token.grant, grant.account, grant.installation, token.scopes⟩

/-- The query of a refresh. -/
def refreshable (now : Nat) (digest : String) (db : Database) : Option (Token × Grant) :=
  match (db.tokens.lookup digest).filter fun token =>
    token.kind = .refresh && now < token.expiresAt with
  | none => none
  | some token => (liveGrant now token.grant db).map fun grant => (token, grant)

/-- The query of an exchange for a code that was not used. -/
def unusedCode (now : Nat) (digest : String) (db : Database) : Option (Code × Client) :=
  match (db.codes.lookup digest).filter fun code =>
    code.grant.isNone && now < code.expiresAt &&
      db.owner code.installation = some code.account with
  | none => none
  | some code => (db.clients.lookup code.client).map fun client => (code, client)

/-- The query of an exchange for a code that was used. -/
def usedCode (digest : String) (db : Database) : Option (Code × String) :=
  match (db.codes.lookup digest).filter fun code =>
    db.owner code.installation = some code.account && (db.clients.lookup code.client).isSome with
  | none => none
  | some code => (code.grant.filter fun grant => (db.grants.lookup grant).isSome).map fun grant =>
      (code, grant)

/-- What an exchange checks of its code. -/
def codeMatches (functions : Functions) (request : TokenRequest) (code : Code) : Bool :=
  request.clientId == code.client && request.redirectUri == code.redirectUri &&
    (43 ≤ request.codeVerifier.length && request.codeVerifier.length ≤ 128) &&
      request.codeVerifier.toList.all isVerifierChar &&
        functions.challenge request.codeVerifier == code.challenge &&
          resourceMatches functions request.resource

/-- The scopes of a refresh. -/
def narrowed (scope : String) (scopes : List String) : Option (List String) :=
  if scope.isEmpty then some scopes
  else (some (splitWhitespace scope)).filter fun words =>
    !words.isEmpty && words.all fun word => word ∈ scopes

namespace Database

/-- A request for tokens has been answered. -/
def answer (request : TokenRequest) (db : Database) : Database :=
  db.record (.answered request db.clock)

/-- The tokens of one exchange. -/
def insertTokens (now : Nat) (grant access refresh : String) (scopes : List String)
    (db : Database) : Database :=
  let accessRow : Token := ⟨grant, .access, scopes, false, now + minutes 60⟩
  let refreshRow : Token := ⟨grant, .refresh, scopes, false, now + days 30⟩
  { db with tokens := (db.tokens.insert access accessRow).insert refresh refreshRow }

/-- The end of an exchange of a code. -/
def redeem (now : Nat) (request : TokenRequest) (digest : String) (code : Code) (label : String)
    (grant access refresh : String) (db : Database) : Database :=
  let row : Grant :=
    ⟨code.account, code.installation, some code.client, label, code.scopes, now + days 30⟩
  let db := { db with
    grants := db.grants.insert grant row
    codes := modify digest (fun code => { code with grant := some grant }) db.codes }
  ((db.insertTokens now grant access refresh code.scopes).answer request).record
    (.issued (.code digest) grant access refresh code.scopes request)

/-- The end of a refresh. -/
def refresh (now : Nat) (request : TokenRequest) (digest grant : String) (scopes : List String)
    (access refresh : String) (db : Database) : Database :=
  let db := { db with
    tokens := modify digest (fun token => { token with used := true }) db.tokens
    grants := modify grant (fun row => { row with scopes := scopes, expiresAt := now + days 30 })
      db.grants }
  ((db.insertTokens now grant access refresh scopes).answer request).record
    (.issued (.refresh digest) grant access refresh scopes request)

/-- A replay removes its grant. -/
def replay (request : TokenRequest) (grant : String) (db : Database) : Database :=
  (db.deleteGrants fun id _ => id = grant).answer request

/-- The deletion of a grant on request. -/
def revoke (grant : String) (meets : Grant → Bool) (db : Database) : Database :=
  if (db.grants.lookup grant).any meets then
    (db.deleteGrants fun id _ => id = grant).record (.revoked grant)
  else db

/-- `cleanup_expired`, of these tables. -/
def cleanup (now : Nat) (db : Database) : Database :=
  let db := { db with
    claimCodes := retain (fun _ code => now < code.expiresAt) db.claimCodes
    deviceClaims := retain (fun _ claim => now < claim.expiresAt) db.deviceClaims }
  let db := db.deleteGrants fun _ grant => grant.expiresAt ≤ now
  let db := { db with tokens := retain (fun _ token => now < token.expiresAt) db.tokens }
  let db := db.deleteCodes fun code => code.grant.isNone && code.expiresAt ≤ now
  { db with clients := retain (fun id client => now < client.createdAt + days 30 ||
      db.grants.entries.any (fun entry => entry.2.client = some id) ||
        db.codes.entries.any (fun entry => entry.2.client = id)) db.clients }

end Database

namespace Program

/-- `cleanup_expired`. -/
def cleanup (now : Nat) : Program := .finish (Database.cleanup now)

/-- `revoke`. -/
def revoke (installation grant account : String) : Program :=
  .select (fun _ => []) fun db =>
    if db.owner installation = some account then
      .finish (Database.revoke grant fun row =>
        row.account = account && row.installation = installation)
    else refuse

/-- The error of an exchange. -/
def invalidGrant (request : TokenRequest) : Program := .finish (Database.answer request)

section Digests

variable (functions : Functions)

/-- `register`, past its checks. -/
def register (now : Nat) (name : String) (redirectUris : List String) : Program :=
  .draw fun id => .finish fun db =>
    { db with clients := db.clients.insert id ⟨name, redirectUris, now⟩ }

/-- `personal`. -/
def personal (now : Nat) (installation account label : String) (scopes : List String) : Program :=
  let label := trim label
  if !validScopes scopes || label.isEmpty || label.length > 100 || label.toList.any isControl
  then refuse
  else lockConfirmedOwner installation account
    (.draw fun id => .draw fun token => .finish fun db =>
      let row : Grant := ⟨account, installation, none, label, scopes, now + days 30⟩
      let token := functions.digest token
      let tokenRow : Token := ⟨id, .access, scopes, false, now + days 30⟩
      { db with
        grants := db.grants.insert id row
        tokens := db.tokens.insert token tokenRow }.record (.granted id token row))

/-- `consent`, approved. -/
def consent (now : Nat) (installation account : String) (request : AuthorizationRequest) :
    Program :=
  .select (fun _ => []) fun db =>
    match authorization functions request db with
    | none => refuse
    | some scopes => lockConfirmedOwner installation account
        (.select
          (fun db => if (db.clients.lookup request.clientId).isSome
            then [⟨.client request.clientId, .shared⟩] else [])
          fun db =>
            if (db.clients.lookup request.clientId).isNone then refuse
            else .draw fun code => .finish fun db =>
              let row : Code := ⟨account, installation, request.clientId, request.redirectUri,
                request.codeChallenge, scopes, now + minutes 5, none⟩
              let db := db.deleteCodes fun code => code.grant.isNone && code.expiresAt ≤ now
              { db with codes := db.codes.insert (functions.digest code) row }.record
                (.consented (functions.digest code) row))

/-- The rest of an exchange of a code that was found. -/
def redeem (now : Nat) (request : TokenRequest) (code : Code) (label : String) : Program :=
  if !codeMatches functions request code then invalidGrant request
  else
    match code.grant with
    | some grant => .finish (Database.replay request grant)
    | none => .draw fun grant => .draw fun access => .draw fun refresh => .finish
        (Database.redeem now request (functions.digest request.code) code label grant
          (functions.digest access) (functions.digest refresh))

/-- The locks of a code that was not used. -/
def unusedLocks (digest : String) (found : Option (Code × Client)) : List (Lock Row) :=
  match found with
  | none => []
  | some (code, _) => [⟨.code digest, .exclusive⟩, ⟨.installation code.installation, .shared⟩]

/-- The locks of a code that was used: its grant, for one order with a refresh. -/
def usedLocks (found : Option (Code × String)) : List (Lock Row) :=
  match found with
  | none => []
  | some (code, grant) => [⟨.grant grant, .exclusive⟩, ⟨.installation code.installation, .shared⟩]

/-- The exchange of a code. -/
def exchangeCode (now : Nat) (request : TokenRequest) : Program :=
  let digest := functions.digest request.code
  .select (fun db => unusedLocks digest (unusedCode now digest db)) fun db =>
    match unusedCode now digest db with
    | some (code, client) => redeem functions now request code client.name
    | none => .select (fun db => usedLocks (usedCode digest db)) fun db =>
        match usedCode digest db with
        | none => invalidGrant request
        | some (code, _) => redeem functions now request code ""

/-- The locks of a refresh. -/
def refreshLocks (digest : String) (found : Option (Token × Grant)) : List (Lock Row) :=
  match found with
  | none => []
  | some (token, grant) => [⟨.grant token.grant, .exclusive⟩, ⟨.token digest, .exclusive⟩,
      ⟨.installation grant.installation, .shared⟩]

/-- The exchange of a refresh token. -/
def exchangeRefresh (now : Nat) (request : TokenRequest) : Program :=
  let digest := functions.digest request.refreshToken
  .select (fun db => refreshLocks digest (refreshable now digest db)) fun db =>
    match refreshable now digest db with
    | none => invalidGrant request
    | some (token, grant) =>
        if grant.client ≠ some request.clientId || !resourceMatches functions request.resource
        then invalidGrant request
        else if token.used then .finish (Database.replay request token.grant)
        else
          match narrowed request.scope token.scopes with
          | none => invalidGrant request
          | some scopes => .draw fun access => .draw fun refresh => .finish
              (Database.refresh now request digest token.grant scopes (functions.digest access)
                (functions.digest refresh))

/-- `exchange_tokens`. -/
def exchangeTokens (now : Nat) (request : TokenRequest) : Program :=
  if request.grantType = "authorization_code" then exchangeCode functions now request
  else if request.grantType = "refresh_token" then exchangeRefresh functions now request
  else invalidGrant request

/-- `revoke_token`. -/
def revokeToken (token clientId : String) : Program :=
  .finish fun db =>
    match db.tokens.lookup (functions.digest token) with
    | none => db
    | some row => db.revoke row.grant fun grant => grant.client = some clientId

end Digests

end Program

end Cairn.Beacon

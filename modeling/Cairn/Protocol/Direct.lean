import Cairn.Library.HashMaps

/-!
Owns the model of the direct-connection policies of `protocol/src/direct.rs`:
the claims of an authorization, the signal budget, the connection capacity and
the verifier of an installation.

Times are seconds of the Unix clock for authorizations and nanoseconds of the
monotonic clock for the budget; each function takes the readings it makes. The
signature scheme and the serialisation of claims are parameters.

Does not own the sanitising of signals.
-/

set_option autoImplicit false

namespace Cairn.Protocol

open Cairn.Library.HashMaps

/-- `Role`. -/
inductive Role where
  | owner
  | member
deriving DecidableEq, Repr

/-- `DIRECT_TTL`, in seconds. -/
def directTtl : Nat := 180

/-- `DIRECT_CLOCK_SKEW`, in seconds. -/
def directClockSkew : Nat := 30

/-- `MAX_DIRECT_CONNECTIONS`. -/
def maxDirectConnections : Nat := 32

/-- `MAX_DIRECT_PER_ACCOUNT`. -/
def maxDirectPerAccount : Nat := 8

/-- `MAX_DIRECT_MEMBER_CONNECTIONS`. -/
def maxDirectMemberConnections : Nat := maxDirectConnections - maxDirectPerAccount

/-- `SIGNING_CONTEXT`. -/
def signingContext : List UInt8 := "cairn-direct-authorization-v4\x00".toUTF8.toList

/-- `MAX_SIGNALS_PER_ACCOUNT`. -/
def maxSignalsPerAccount : Nat := 120

/-- `MAX_SIGNALS_PER_TUNNEL`. -/
def maxSignalsPerTunnel : Nat := 960

/-- `DirectClaims`. -/
structure DirectClaims where
  connectionId : String
  installationId : String
  accountId : String
  role : Role
  sessionId : String
  generation : Nat
  fingerprint : String
  expiresAt : Nat
  nonce : String
deriving DecidableEq, Repr

/-- `DirectAuthorization`. -/
structure DirectAuthorization where
  claims : DirectClaims
  signature : String
deriving DecidableEq, Repr

/-! ### Budgets -/

/-- `SignalBudget`. -/
structure SignalBudget where
  started : Nat
  accounts : HashMap String Nat
  total : Nat
  members : Nat

namespace SignalBudget

/-- The time a budget lasts, in nanoseconds. -/
def span : Nat := 60 * 1000000000

/-- `SignalBudget::default`, at the reading of the clock it takes. -/
def fresh (started : Nat) : SignalBudget := ⟨started, ∅, 0, 0⟩

/-- The budget `consume` charges: a new one when the old one has lasted its span. -/
def current (now restarted : Nat) (budget : SignalBudget) : SignalBudget :=
  if now - budget.started ≥ span then fresh restarted else budget

/-- One signal of the account is counted. -/
def charge (claims : DirectClaims) (budget : SignalBudget) : SignalBudget where
  started := budget.started
  accounts := budget.accounts.insert claims.accountId (getD budget.accounts claims.accountId 0 + 1)
  total := budget.total + 1
  members := if claims.role = .member then budget.members + 1 else budget.members

/-- `SignalBudget::consume`; `now` is the reading that measures the window and
`restarted` the one a new window starts at. -/
def consume (now restarted : Nat) (claims : DirectClaims) (budget : SignalBudget) :
    SignalBudget × Bool :=
  let budget := budget.current now restarted
  let accountCount := getD budget.accounts claims.accountId 0
  let memberCapacityReached :=
    claims.role = .member ∧ budget.members ≥ maxSignalsPerTunnel - maxSignalsPerAccount
  if accountCount ≥ maxSignalsPerAccount ∨ budget.total ≥ maxSignalsPerTunnel ∨
      memberCapacityReached then
    (budget, false)
  else
    (budget.charge claims, true)

end SignalBudget

/-- `has_direct_capacity`. -/
def hasDirectCapacity (candidate : DirectClaims) (existing : List DirectClaims) : Bool :=
  let connectionCount := existing.length
  let memberCount := existing.countP fun claims => claims.role = .member
  let accountCount := existing.countP fun claims => claims.accountId = candidate.accountId
  connectionCount < maxDirectConnections ∧ accountCount < maxDirectPerAccount ∧
    (candidate.role = .owner ∨ memberCount < maxDirectMemberConnections)

/-! ### Verification -/

/-- What the verifier takes from its libraries: base64url decoding, Ed25519
verification (key, message, signature) and the serialisation of claims. -/
structure Signing where
  decode : String → Option (List UInt8)
  verify : List UInt8 → List UInt8 → List UInt8 → Bool
  serialize : DirectClaims → List UInt8

/-- `signing_bytes`. -/
def signingBytes (signing : Signing) (claims : DirectClaims) : List UInt8 :=
  signingContext ++ signing.serialize claims

/-- One octet of a fingerprint: two hexadecimal digits, none of them lowercase. -/
def validOctet (octet : List Char) : Bool :=
  octet.length = 2 ∧ octet.all fun digit =>
    digit.isDigit ∨ ('A' ≤ digit ∧ digit ≤ 'F')

/-- `valid_fingerprint`. -/
def validFingerprint (fingerprint : String) : Bool :=
  match fingerprint.toList.dropPrefix? "sha-256 ".toList with
  | none => false
  | some digest =>
      let octets := digest.splitOn ':'
      octets.length = 32 ∧ octets.all validOctet

/-- `DirectRevocation`. -/
inductive DirectRevocation where
  | account (accountId : String) (generation : Nat)
  | session (sessionId : String)
  | installation
deriving DecidableEq, Repr

/-- `DirectVerifier`. -/
structure DirectVerifier where
  installation : String
  publicKey : List UInt8
  generations : HashMap String Nat
  nonces : HashMap String Nat
  sessions : HashMap String Nat

namespace DirectVerifier

/-- The bound on remembered nonces. -/
def maxNonces : Nat := 4096

/-- `DirectVerifier::new`. -/
def new (signing : Signing) (installation publicKey : String) : Except String DirectVerifier :=
  match signing.decode publicKey with
  | none => .error "Invalid signing key"
  | some publicKey =>
      if publicKey.length ≠ 32 then .error "Invalid signing key"
      else .ok ⟨installation, publicKey, ∅, ∅, ∅⟩

/-- The memories without the entries whose deadline has passed. -/
def prune (now : Nat) (verifier : DirectVerifier) : DirectVerifier :=
  { verifier with
    nonces := retain (fun _ deadline => deadline > now) verifier.nonces
    sessions := retain (fun _ deadline => deadline > now) verifier.sessions }

/-- The signature check of `verify`. -/
def signed (signing : Signing) (authorization : DirectAuthorization) (verifier : DirectVerifier) :
    Bool :=
  match signing.decode authorization.signature with
  | none => false
  | some signature =>
      signing.verify verifier.publicKey (signingBytes signing authorization.claims) signature

/-- The condition `verify` rejects signed claims on. -/
def Refused (now : Nat) (claims : DirectClaims) (verifier : DirectVerifier) : Prop :=
  claims.installationId ≠ verifier.installation ∨
  claims.expiresAt ≤ now ∨
  claims.expiresAt > now + directTtl + directClockSkew ∨
  validFingerprint claims.fingerprint = false ∨
  claims.connectionId = "" ∨
  claims.accountId = "" ∨
  claims.sessionId = "" ∨
  claims.nonce = "" ∨
  claims.generation ≠ getD verifier.generations claims.accountId 0 ∨
  claims.sessionId ∈ verifier.sessions

instance (now : Nat) (claims : DirectClaims) (verifier : DirectVerifier) :
    Decidable (Refused now claims verifier) := by
  unfold Refused
  infer_instance

/-- `DirectVerifier::verify`. -/
def verify (signing : Signing) (now : Nat) (authorization : DirectAuthorization)
    (verifier : DirectVerifier) : DirectVerifier × Except String DirectClaims :=
  let verifier := verifier.prune now
  let claims := authorization.claims
  if verifier.signed signing authorization = false then
    (verifier, .error "Invalid signature")
  else if verifier.Refused now claims then
    (verifier, .error "Invalid direct authorization")
  else if claims.nonce ∈ verifier.nonces then
    (verifier, .error "Replayed authorization")
  else if size verifier.nonces ≥ maxNonces then
    (verifier, .error "Authorization verification busy")
  else
    ({ verifier with nonces := verifier.nonces.insert claims.nonce claims.expiresAt }, .ok claims)

/-- `DirectVerifier::revoke`. -/
def revoke (now : Nat) (scope : DirectRevocation) (verifier : DirectVerifier) : DirectVerifier :=
  match scope with
  | .account accountId generation =>
      { verifier with generations := verifier.generations.insert accountId generation }
  | .session sessionId =>
      { verifier with
        sessions := verifier.sessions.insert sessionId (now + directTtl + directClockSkew) }
  | .installation => { verifier with publicKey := [] }

end DirectVerifier

end Cairn.Protocol

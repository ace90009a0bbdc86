import Cairn.Protocol.Direct
import Mathlib.Data.List.Dedup

/-!
Owns the model of what the beacon keeps of direct access on one tunnel
(`beacon/src/relay.rs`, `beacon/src/relay/direct.rs`): the generations of the
accounts, the registered connections and the revocations waiting to be sent.
Each operation is one critical section of the tunnel's `access` lock.

Does not own streams, the signing key or the database behind `issue`.
-/

set_option autoImplicit false

namespace Cairn.Beacon

open Cairn.Library.HashMaps Cairn.Protocol

/-- `DIRECT_VERSION`. -/
def directVersion : Nat := 4

/-- What `issue` gathers before it builds the claims. -/
structure Request where
  connectionId : String
  installationId : String
  accountId : String
  role : Role
  sessionId : String
  /-- The expiry of the web session, in seconds. -/
  sessionExpiresAt : Nat
  fingerprint : String
  nonce : String

/-- The claims `issue` signs at a reading of the beacon's clock. -/
def issueClaims (request : Request) (generation now : Nat) : DirectClaims where
  connectionId := request.connectionId
  installationId := request.installationId
  accountId := request.accountId
  role := request.role
  sessionId := request.sessionId
  generation := generation
  fingerprint := request.fingerprint
  expiresAt := min request.sessionExpiresAt (now + directTtl)
  nonce := request.nonce

/-- `Connection`, without its channels. -/
structure Connection where
  claims : DirectClaims
  sessionDigest : String
  sessionDeadline : Nat
  accepted : Bool

/-- `Access`, without the streams. -/
structure Access where
  generations : HashMap String Nat
  direct : HashMap String Connection
  directRevocations : List DirectRevocation

namespace Access

/-- `Access::default`. -/
def initial : Access := ⟨∅, ∅, []⟩

/-- The generation of an account. -/
def generation (accountId : String) (access : Access) : Nat :=
  getD access.generations accountId 0

/-- The section of `issue` that registers a new connection. -/
def register (claims : DirectClaims) (sessionDigest : String) (sessionDeadline : Nat)
    (access : Access) : Except String Access :=
  if access.generation claims.accountId ≠ claims.generation then
    .error "Installation access revoked"
  else if hasDirectCapacity claims (access.direct.entries.map fun entry => entry.2.claims) = false
      then
    .error "Direct connection capacity reached"
  else
    .ok { access with
      direct := access.direct.insert claims.connectionId
        ⟨claims, sessionDigest, sessionDeadline, false⟩ }

theorem register_eq_ok {claims : DirectClaims} {sessionDigest : String} {sessionDeadline : Nat}
    {access next : Access}
    (registered : access.register claims sessionDigest sessionDeadline = .ok next) :
    next.generations = access.generations ∧ next.directRevocations = access.directRevocations := by
  unfold register at registered
  split at registered
  · simp at registered
  · split at registered
    · simp at registered
    · rw [← Except.ok.inj registered]
      exact ⟨rfl, rfl⟩

/-- `failed_authorization` of a new connection. -/
def failedAuthorization (connectionId : String) (access : Access) : Access :=
  { access with direct := access.direct.erase connectionId }

/-- The part of `revoke_session` on one tunnel. -/
def revokeSession (session : String) (access : Access) : Access :=
  let affected := access.direct.entries.filter fun entry => entry.2.sessionDigest = session
  { access with
    direct := retain (fun _ connection => connection.sessionDigest ≠ session) access.direct
    directRevocations := access.directRevocations ++
      (affected.head?.map fun entry => DirectRevocation.session entry.2.claims.sessionId).toList }

/-- The section of `serve_socket` that ends the sessions whose deadline has come. -/
def expireSessions (now : Nat) (access : Access) : Access :=
  let sessions := ((access.direct.entries.filter fun entry => entry.2.sessionDeadline ≤ now).map
    fun entry => entry.2.claims.sessionId).dedup
  { access with
    direct := retain (fun _ connection => connection.claims.sessionId ∉ sessions) access.direct
    directRevocations := access.directRevocations ++ sessions.map DirectRevocation.session }

/-- `revoke_access` of one account on a tunnel of a protocol version. -/
def revokeAccess (version : Nat) (accountId : String) (access : Access) : Access :=
  let generation := access.generation accountId + 1
  { generations := access.generations.insert accountId generation
    direct := retain (fun _ connection => connection.claims.accountId ≠ accountId) access.direct
    directRevocations := access.directRevocations ++
      if version ≥ directVersion then [DirectRevocation.account accountId generation] else [] }

/-- The critical sections that change `Access`. -/
inductive Operation where
  | register (claims : DirectClaims) (sessionDigest : String) (sessionDeadline : Nat)
  | failedAuthorization (connectionId : String)
  | revokeSession (session : String)
  | expireSessions (now : Nat)
  | revokeAccess (accountId : String)
  /-- `direct_revocations.drain(..)` before the frames are sent. -/
  | drain

/-- One operation on the access and on the revocations drained so far. -/
def step (version : Nat) (state : Access × List DirectRevocation) :
    Operation → Access × List DirectRevocation
  | .register claims sessionDigest sessionDeadline =>
      match state.1.register claims sessionDigest sessionDeadline with
      | .ok access => (access, state.2)
      | .error _ => state
  | .failedAuthorization connectionId => (state.1.failedAuthorization connectionId, state.2)
  | .revokeSession session => (state.1.revokeSession session, state.2)
  | .expireSessions now => (state.1.expireSessions now, state.2)
  | .revokeAccess accountId => (state.1.revokeAccess version accountId, state.2)
  | .drain => ({ state.1 with directRevocations := [] }, state.2 ++ state.1.directRevocations)

/-- A tunnel from its connection on. -/
def run (version : Nat) (operations : List Operation) : Access × List DirectRevocation :=
  operations.foldl (step version) (initial, [])

/-- Everything emitted: what was drained and what still waits. -/
def emitted (state : Access × List DirectRevocation) : List DirectRevocation :=
  state.2 ++ state.1.directRevocations

end Access

end Cairn.Beacon

import Cairn.Beacon.Shrinking
import Cairn.Library.Histories

/-!
Owns the history of MCP access: every code and every refresh token is exchanged at most once,
by what it was issued to; every token descends from one consent; and access that has ended does
not come back, whatever the transactions of the beacon interleave.

Does not own how an installation changes its owner.
-/

set_option autoImplicit false

namespace Cairn.Beacon

open Cairn.Library.HashMaps Cairn.Library.Histories Cairn.Library.RowLocks Cairn.Library.Steps

variable {db next : Database} {functions : Functions} {log before : List Event} {event : Event}

/-! ### The history -/

/-- An event that issues tokens for a code or a refresh token. -/
def Event.issues (source : Source) : Event → Prop
  | .issued other _ _ _ _ _ => other = source
  | _ => False

/-- An event that gives tokens to a grant. -/
def Event.serves (grant : String) : Event → Prop
  | .issued _ other _ _ _ _ => other = grant
  | .granted other _ _ => other = grant
  | _ => False

/-- The digests and ids that were new with an event. -/
def Event.draws : Event → List String
  | .consented code _ => [code]
  | .granted grant access _ => [grant, access]
  | .issued (.code _) grant access refresh _ _ => [grant, access, refresh]
  | .issued (.refresh _) _ access refresh _ _ => [access, refresh]
  | _ => []

/-- Why tokens may be issued: their source was given out before and never used. A code goes to
the client, redirect and verifier of its consent, a refresh token to its client, and no scope is
added. -/
def Event.Entitled (functions : Functions) (before : List Event) : Event → Prop
  | .issued (.code digest) _ _ _ scopes request =>
      (∃ row, .consented digest row ∈ before ∧ functions.digest request.code = digest ∧
        codeMatches functions request row = true ∧ scopes = row.scopes) ∧
      ∀ earlier ∈ before, ¬ earlier.issues (.code digest)
  | .issued (.refresh digest) grant _ _ scopes request =>
      (∃ source access earlierScopes earlierRequest,
        .issued source grant access digest earlierScopes earlierRequest ∈ before ∧
        functions.digest request.refreshToken = digest ∧
        request.clientId = earlierRequest.clientId ∧ scopes ⊆ earlierScopes) ∧
      ∀ earlier ∈ before, ¬ earlier.issues (.refresh digest)
  | _ => True

/-- An event that may follow a history. -/
structure Event.Justified (functions : Functions) (before : List Event) (event : Event) : Prop where
  entitled : event.Entitled functions before
  fresh : ∀ value ∈ event.draws, ∀ earlier ∈ before, value ∉ earlier.draws

/-- The digest of this kind, of an access and a refresh token. -/
def TokenKind.digestOf (access refresh : String) : TokenKind → String
  | .access => access
  | .refresh => refresh

/-- Where a token comes from: the account made it itself, or a consent of the account to the
client leads to it. -/
inductive Carried (log : List Event) (digest : String) (token : Token) (grant : Grant) : Prop where
  | personal (row : Grant) (kind : token.kind = .access)
      (created : .granted token.grant digest row ∈ log) (account : row.account = grant.account)
      (installation : row.installation = grant.installation) (scopes : token.scopes = row.scopes)
  | issued (source : Source) (access refresh : String) (request : TokenRequest) (code : String)
      (row : Code)
      (given : .issued source token.grant access refresh token.scopes request ∈ log)
      (own : digest = token.kind.digestOf access refresh)
      (consented : .consented code row ∈ log) (account : row.account = grant.account)
      (installation : row.installation = grant.installation)
      (client : grant.client = some row.client) (exchanged : request.clientId = row.client)
      (scopes : token.scopes ⊆ row.scopes)

/-! ### The invariant -/

/-- What the tables hold is what the history gave out and nobody took back. -/
structure Sound (functions : Functions) (db : Database) : Prop where
  legal : Legal (Event.Justified functions) db.log
  drawn : ∀ event ∈ db.log, ∀ value ∈ event.draws, value ∈ db.seen
  served : ∀ event ∈ db.log, ∀ grant, event.serves grant → grant ∈ db.seen
  codes : ∀ digest row, db.codes.lookup digest = some row →
    .consented digest { row with grant := none } ∈ db.log ∧ row.installation ∈ db.seen ∧
      db.owner row.installation = some row.account
  unused : ∀ digest row, db.codes.lookup digest = some row → row.grant = none →
    ∀ event ∈ db.log, ¬ event.issues (.code digest)
  codeGrants : ∀ digest row grant, db.codes.lookup digest = some row → row.grant = some grant →
    (db.grants.lookup grant).isSome
  grants : ∀ id row, db.grants.lookup id = some row →
    id ∈ db.seen ∧ row.installation ∈ db.seen ∧ db.owner row.installation = some row.account
  tokens : ∀ digest token, db.tokens.lookup digest = some token →
    digest ∈ db.seen ∧ ∃ grant, db.grants.lookup token.grant = some grant ∧
      Carried db.log digest token grant
  unspent : ∀ digest token, db.tokens.lookup digest = some token → token.used = false →
    ∀ event ∈ db.log, ¬ event.issues (.refresh digest)
  revoked : ∀ grant, .revoked grant ∈ db.log → grant ∈ db.seen ∧ db.grants.lookup grant = none
  released : ∀ before after installation owner,
    db.log = before ++ .released installation owner :: after →
      ∀ id row, db.grants.lookup id = some row → row.installation = installation →
        ∀ event ∈ before, ¬ event.serves id

/-- What a transaction may do: what is gone stays gone, and nothing is issued for it. -/
structure Forward (db next : Database) : Prop where
  seen : ∀ value ∈ db.seen, value ∈ next.seen
  log : ∃ extra, next.log = db.log ++ extra ∧ ∀ event ∈ extra, ∀ id ∈ db.seen,
    db.grants.lookup id = none → ¬ event.serves id
  grants : ∀ id ∈ db.seen, db.grants.lookup id = none → next.grants.lookup id = none
  tokens : ∀ digest ∈ db.seen, db.tokens.lookup digest = none → next.tokens.lookup digest = none

/-- The invariant of MCP access, and what a step may do to it. -/
def accessLogic (functions : Functions) : Logic Database := ⟨Sound functions, Forward⟩

theorem Forward.refl (db : Database) : Forward db db :=
  ⟨fun _ member => member, ⟨[], (List.append_nil _).symm, fun _ member => absurd member List.not_mem_nil⟩,
    fun _ _ gone => gone, fun _ _ gone => gone⟩

theorem Forward.trans {middle : Database} (first : Forward db middle) (second : Forward middle next) :
    Forward db next where
  seen value member := second.seen value (first.seen value member)
  log := by
    obtain ⟨extra, isMiddle, unserved⟩ := first.log
    obtain ⟨more, isNext, unservedMore⟩ := second.log
    refine ⟨extra ++ more, by rw [isNext, isMiddle, List.append_assoc], ?_⟩
    intro event member id known gone
    rcases List.mem_append.mp member with early | late
    · exact unserved event early id known gone
    · exact unservedMore event late id (first.seen id known) (first.grants id known gone)
  grants id member gone := second.grants id (first.seen id member) (first.grants id member gone)
  tokens digest member gone :=
    second.tokens digest (first.seen digest member) (first.tokens digest member gone)

/-- More history leaves the origin of a token as it is. -/
theorem Carried.mono {digest : String} {token : Token} {grant : Grant} {longer : List Event}
    (carried : Carried log digest token grant) (kept : ∀ event ∈ log, event ∈ longer) :
    Carried longer digest token grant := by
  cases carried with
  | personal row kind created account installation scopes =>
      exact .personal row kind (kept _ created) account installation scopes
  | issued source access refresh request code row given own consented account installation client
      exchanged scopes =>
      exact .issued source access refresh request code row (kept _ given) own (kept _ consented)
        account installation client exchanged scopes

theorem Event.Justified.of_other (quiet : event.isAccess = false) (before : List Event) :
    event.Justified functions before := by
  cases event with
  | consented code row => cases quiet
  | granted grant access row => cases quiet
  | issued source grant access refresh scopes request => cases quiet
  | _ => exact ⟨trivial, fun value drawn => absurd drawn List.not_mem_nil⟩

theorem Event.not_serves (quiet : event.isAccess = false) (grant : String) : ¬ event.serves grant := by
  cases event with
  | granted grant access row => cases quiet
  | issued source grant access refresh scopes request => cases quiet
  | _ => exact id

theorem Event.not_issues (quiet : event.isAccess = false) (source : Source) :
    ¬ event.issues source := by
  cases event with
  | issued source grant access refresh scopes request => cases quiet
  | _ => exact id

theorem Event.draws_nil (quiet : event.isAccess = false) : event.draws = [] := by
  cases event with
  | consented code row => cases quiet
  | granted grant access row => cases quiet
  | issued source grant access refresh scopes request => cases quiet
  | _ => rfl

/-! ### Changes that add nothing -/

theorem Shrinks.forward (shrinks : Shrinks db next) : Forward db next where
  seen := shrinks.seen
  log := by
    obtain ⟨extra, isNext, quiet⟩ := shrinks.log
    exact ⟨extra, isNext, fun event member id _ _ => Event.not_serves (quiet event member).quiet id⟩
  grants id _ gone := by
    cases found : next.grants.lookup id with
    | none => rfl
    | some row =>
        rw [shrinks.grants id row found] at gone
        cases gone
  tokens digest _ gone := by
    cases found : next.tokens.lookup digest with
    | none => rfl
    | some row =>
        rw [shrinks.tokens digest row found] at gone
        cases gone

theorem Sound.shrinks (sound : Sound functions db) (shrinks : Shrinks db next) :
    Sound functions next := by
  obtain ⟨extra, isLog, quiet⟩ := shrinks.log
  have kept : ∀ event ∈ db.log, event ∈ next.log := fun event member => by
    rw [isLog]
    exact List.mem_append_left _ member
  refine ⟨?_, fun event member value drawn => ?_, fun event member grant serves => ?_,
    fun digest row found => ?_, fun digest row found open' event member issues => ?_,
    fun digest row grant found named => ?_, fun id row found => ?_, fun digest token found => ?_,
    fun digest token found unspent event member issues => ?_, fun grant isRevoked => ?_,
    fun before after installation owner split id row found same event member serves => ?_⟩
  · rw [isLog]
    exact sound.legal.append fun event member => Event.Justified.of_other (quiet event member).quiet
  · rw [isLog] at member
    rcases List.mem_append.mp member with old | new
    · exact shrinks.seen value (sound.drawn event old value drawn)
    · rw [Event.draws_nil (quiet event new).quiet] at drawn
      exact absurd drawn List.not_mem_nil
  · rw [isLog] at member
    rcases List.mem_append.mp member with old | new
    · exact shrinks.seen grant (sound.served event old grant serves)
    · exact absurd serves (Event.not_serves (quiet event new).quiet grant)
  · obtain ⟨consented, seen, owned⟩ := sound.codes digest row (shrinks.codes digest row found)
    exact ⟨kept _ consented, shrinks.seen _ seen, shrinks.codeOwners digest row found owned⟩
  · rw [isLog] at member
    rcases List.mem_append.mp member with old | new
    · exact sound.unused digest row (shrinks.codes digest row found) open' event old issues
    · exact Event.not_issues (quiet event new).quiet _ issues
  · exact shrinks.codeGrants digest row grant found named
      (sound.codeGrants digest row grant (shrinks.codes digest row found) named)
  · obtain ⟨seen, installation, owned⟩ := sound.grants id row (shrinks.grants id row found)
    exact ⟨shrinks.seen _ seen, shrinks.seen _ installation, shrinks.grantOwners id row found owned⟩
  · obtain ⟨seen, grant, granted, carried⟩ := sound.tokens digest token (shrinks.tokens digest token found)
    have stays := shrinks.tokenGrants digest token found (by rw [granted]; rfl)
    obtain ⟨row, isRow⟩ := Option.isSome_iff_exists.mp stays
    have same := shrinks.grants token.grant row isRow
    rw [granted] at same
    obtain rfl := Option.some.inj same
    exact ⟨shrinks.seen _ seen, grant, isRow, carried.mono kept⟩
  · rw [isLog] at member
    rcases List.mem_append.mp member with old | new
    · exact sound.unspent digest token (shrinks.tokens digest token found) unspent event old issues
    · exact Event.not_issues (quiet event new).quiet _ issues
  · rw [isLog] at isRevoked
    rcases List.mem_append.mp isRevoked with old | new
    · obtain ⟨seen, gone⟩ := sound.revoked grant old
      exact ⟨shrinks.seen _ seen, shrinks.forward.grants grant seen gone⟩
    · obtain ⟨gone, present⟩ := (quiet _ new).revoked grant rfl
      obtain ⟨row, found⟩ := Option.isSome_iff_exists.mp present
      exact ⟨shrinks.seen _ (sound.grants grant row found).1, gone⟩
  · rw [isLog] at split
    rcases mem_of_append_eq split with ⟨rest, isBefore⟩ | new
    · exact sound.released before rest installation owner isBefore id row (shrinks.grants id row found)
        same event member serves
    · exact (quiet _ new).released installation owner rfl id row found same

end Cairn.Beacon

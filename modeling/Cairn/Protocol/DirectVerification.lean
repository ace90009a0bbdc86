import Cairn.Beacon.Access

/-!
Owns the safety of the verifier of direct authorizations over whole sequences
of authorizations and revocations, and the order in which the beacon emits the
generations the verifier relies on. `direct_authorization_safe` is the main
result.
-/

set_option autoImplicit false

namespace Cairn.Protocol

open Cairn.Library.HashMaps Cairn.Beacon

namespace DirectRevocation

/-- Two revocations of one account carry generations in order. -/
def Ordered : DirectRevocation → DirectRevocation → Prop
  | .account accountId generation, .account laterAccount later =>
      accountId = laterAccount → generation ≤ later
  | _, _ => True

end DirectRevocation

namespace DirectVerifier

/-! ### Runs -/

/-- What a verifier sees, with the reading of its clock. -/
inductive Event where
  | authorize (now : Nat) (authorization : DirectAuthorization)
  | revoke (now : Nat) (scope : DirectRevocation)

/-- The reading of the clock at an event. -/
def Event.time : Event → Nat
  | .authorize now _ => now
  | .revoke now _ => now

/-- The revocation an event delivers. -/
def Event.scope? : Event → Option DirectRevocation
  | .authorize _ _ => none
  | .revoke _ scope => some scope

/-- The clock does not run backwards. -/
def Chronological (events : List Event) : Prop :=
  events.Pairwise fun earlier later => earlier.time ≤ later.time

instance (events : List Event) : Decidable (Chronological events) := by
  unfold Chronological
  infer_instance

variable (signing : Signing)

/-- The verifier after one event. -/
def step (verifier : DirectVerifier) : Event → DirectVerifier
  | .authorize now authorization => (verifier.verify signing now authorization).1
  | .revoke now scope => verifier.revoke now scope

/-- The verifier after a sequence of events. -/
def run (verifier : DirectVerifier) (events : List Event) : DirectVerifier :=
  events.foldl (step signing) verifier

/-- The verifier accepts an authorization. -/
def Accepts (now : Nat) (authorization : DirectAuthorization) (verifier : DirectVerifier) : Prop :=
  (verifier.verify signing now authorization).2 = .ok authorization.claims

instance (now : Nat) (authorization : DirectAuthorization) (verifier : DirectVerifier) :
    Decidable (verifier.Accepts signing now authorization) := by
  unfold Accepts
  infer_instance

/-- What `verify` does: it prunes, and it either rejects or accepts unrefused
claims under a nonce it does not remember. -/
theorem verify_cases (now : Nat) (authorization : DirectAuthorization)
    (verifier : DirectVerifier) :
    (∃ message, verifier.verify signing now authorization = (verifier.prune now, .error message)) ∨
    (verifier.verify signing now authorization =
        ({ verifier.prune now with
            nonces := (verifier.prune now).nonces.insert authorization.claims.nonce
              authorization.claims.expiresAt }, .ok authorization.claims) ∧
      (verifier.prune now).signed signing authorization = true ∧
      ¬ (verifier.prune now).Refused now authorization.claims ∧
      authorization.claims.nonce ∉ (verifier.prune now).nonces) := by
  unfold verify
  dsimp only
  by_cases signed : (verifier.prune now).signed signing authorization = false
  · exact Or.inl ⟨_, if_pos signed⟩
  rw [if_neg signed]
  by_cases refused : (verifier.prune now).Refused now authorization.claims
  · exact Or.inl ⟨_, if_pos refused⟩
  rw [if_neg refused]
  by_cases replayed : authorization.claims.nonce ∈ (verifier.prune now).nonces
  · exact Or.inl ⟨_, if_pos replayed⟩
  rw [if_neg replayed]
  by_cases busy : size (verifier.prune now).nonces ≥ maxNonces
  · exact Or.inl ⟨_, if_pos busy⟩
  rw [if_neg busy]
  exact Or.inr ⟨rfl, by simpa using signed, refused, replayed⟩

variable {signing}

theorem Accepts.unrefused {now : Nat} {authorization : DirectAuthorization}
    {verifier : DirectVerifier} (accepts : verifier.Accepts signing now authorization) :
    ¬ (verifier.prune now).Refused now authorization.claims ∧
      authorization.claims.nonce ∉ (verifier.prune now).nonces := by
  obtain ⟨message, rejected⟩ | ⟨_, _, unrefused, unseen⟩ :=
    verify_cases signing now authorization verifier
  · simp [Accepts, rejected] at accepts
  · exact ⟨unrefused, unseen⟩

@[simp] theorem generations_prune (now : Nat) (verifier : DirectVerifier) :
    (verifier.prune now).generations = verifier.generations := rfl

theorem lookup_prune_nonces (now : Nat) (verifier : DirectVerifier) (nonce : String) :
    (verifier.prune now).nonces.lookup nonce =
      (verifier.nonces.lookup nonce).filter fun deadline => deadline > now :=
  lookup_retain _ _ _

theorem lookup_prune_sessions (now : Nat) (verifier : DirectVerifier) (session : String) :
    (verifier.prune now).sessions.lookup session =
      (verifier.sessions.lookup session).filter fun deadline => deadline > now :=
  lookup_retain _ _ _

/-- The run rule for facts that depend on the clock: kept by every event that
is not earlier, and by the passing of time. -/
theorem run_keeps {Holds : Nat → DirectVerifier → Prop} {Admissible : Event → Prop}
    (keeps : ∀ clock event verifier, clock ≤ event.time → Admissible event →
      Holds clock verifier → Holds event.time (step signing verifier event))
    (passes : ∀ clock later verifier, clock ≤ later → Holds clock verifier → Holds later verifier)
    {clock now : Nat} {verifier : DirectVerifier} {events : List Event}
    (admissible : ∀ event ∈ events, Admissible event)
    (sorted : Chronological events)
    (after : ∀ event ∈ events, clock ≤ event.time)
    (untilNow : ∀ event ∈ events, event.time ≤ now)
    (begun : clock ≤ now) (holds : Holds clock verifier) :
    Holds now (verifier.run signing events) := by
  induction events generalizing clock verifier with
  | nil => exact passes clock now verifier begun holds
  | cons head tail inductionHypothesis =>
      have headSorted := (List.pairwise_cons.mp sorted)
      exact inductionHypothesis (fun event member => admissible event (by simp [member]))
        headSorted.2 headSorted.1 (fun event member => untilNow event (by simp [member]))
        (untilNow head (by simp))
        (keeps clock head verifier (after head (by simp)) (admissible head (by simp)) holds)

/-! ### Single use -/

/-- An accepted nonce is remembered while the claims have not expired. -/
def Remembers (claims : DirectClaims) (now : Nat) (verifier : DirectVerifier) : Prop :=
  now < claims.expiresAt → verifier.nonces.lookup claims.nonce = some claims.expiresAt

theorem Accepts.remembers {now : Nat} {authorization : DirectAuthorization}
    {verifier : DirectVerifier} (accepts : verifier.Accepts signing now authorization) :
    Remembers authorization.claims now (verifier.step signing (.authorize now authorization)) := by
  intro _
  obtain ⟨message, rejected⟩ | ⟨accepted, _⟩ := verify_cases signing now authorization verifier
  · simp [Accepts, rejected] at accepts
  · simp [step, accepted]

theorem Remembers.step {claims : DirectClaims} {clock : Nat} {event : Event}
    {verifier : DirectVerifier} (later : clock ≤ event.time)
    (remembers : Remembers claims clock verifier) :
    Remembers claims event.time (verifier.step signing event) := by
  intro unexpired
  have stored := remembers (Nat.lt_of_le_of_lt later unexpired)
  cases event with
  | authorize now authorization =>
      have kept : (verifier.prune now).nonces.lookup claims.nonce = some claims.expiresAt := by
        rw [lookup_prune_nonces, stored]
        simpa [Event.time] using unexpired
      obtain ⟨message, rejected⟩ | ⟨accepted, _, _, unseen⟩ :=
        verify_cases signing now authorization verifier
      · simpa [DirectVerifier.step, rejected] using kept
      · have other : claims.nonce ≠ authorization.claims.nonce := fun same =>
          unseen (AList.lookup_isSome.mp (by rw [← same, kept]; rfl))
        simpa [DirectVerifier.step, accepted, lookup_insert, other] using kept
  | revoke now scope =>
      cases scope <;> exact stored

/-- Claims under a remembered nonce are not accepted. -/
theorem Remembers.rejects {claims : DirectClaims} {now : Nat} {verifier : DirectVerifier}
    (remembers : Remembers claims now verifier) {authorization : DirectAuthorization}
    (same : authorization.claims = claims) : ¬ verifier.Accepts signing now authorization := by
  intro accepts
  obtain ⟨unrefused, unseen⟩ := accepts.unrefused
  rw [same] at unrefused unseen
  have unexpired : now < claims.expiresAt := by
    by_contra expired
    exact unrefused (Or.inr (Or.inl (Nat.not_lt.mp expired)))
  refine unseen (AList.lookup_isSome.mp ?_)
  rw [lookup_prune_nonces, remembers unexpired]
  simp [unexpired]

/-! ### Revoked sessions -/

/-- A session stays barred until a deadline. -/
def Barred (sessionId : String) (deadline now : Nat) (verifier : DirectVerifier) : Prop :=
  now < deadline → ∃ stored, deadline ≤ stored ∧ verifier.sessions.lookup sessionId = some stored

theorem barred_revoke (sessionId : String) (now : Nat) (verifier : DirectVerifier) :
    Barred sessionId (now + directTtl + directClockSkew) now
      (verifier.revoke now (.session sessionId)) :=
  fun _ => ⟨_, Nat.le_refl _, by simp [revoke]⟩

theorem Barred.step {sessionId : String} {issued clock : Nat} {event : Event}
    {verifier : DirectVerifier} (begun : issued ≤ clock) (later : clock ≤ event.time)
    (barred : Barred sessionId (issued + directTtl + directClockSkew) clock verifier) :
    Barred sessionId (issued + directTtl + directClockSkew) event.time
      (verifier.step signing event) := by
  intro early
  obtain ⟨stored, bound, found⟩ := barred (Nat.lt_of_le_of_lt later early)
  cases event with
  | authorize now authorization =>
      have kept : (verifier.prune now).sessions.lookup sessionId = some stored := by
        rw [lookup_prune_sessions, found]
        simpa [Event.time] using Nat.lt_of_lt_of_le early bound
      obtain ⟨message, rejected⟩ | ⟨accepted, _⟩ := verify_cases signing now authorization verifier
      · exact ⟨stored, bound, by simpa [DirectVerifier.step, rejected] using kept⟩
      · exact ⟨stored, bound, by simpa [DirectVerifier.step, accepted] using kept⟩
  | revoke now scope =>
      cases scope with
      | account accountId generation => exact ⟨stored, bound, found⟩
      | session other =>
          by_cases same : sessionId = other
          · refine ⟨now + directTtl + directClockSkew, ?_, ?_⟩
            · have ordered : issued ≤ now := Nat.le_trans begun later
              omega
            · rw [same]
              simp [DirectVerifier.step, revoke]
          · refine ⟨stored, bound, ?_⟩
            simpa [DirectVerifier.step, revoke, lookup_insert, same] using found
      | installation => exact ⟨stored, bound, found⟩

/-- The claims the beacon could have built before a reading of the installation's
clock: its own clock was at most the tolerated skew ahead. -/
def IssuedBefore (time : Nat) (claims : DirectClaims) : Prop :=
  ∃ request generation now,
    now ≤ time + directClockSkew ∧ claims = issueClaims request generation now

theorem IssuedBefore.expires {time : Nat} {claims : DirectClaims}
    (issued : IssuedBefore time claims) : claims.expiresAt ≤ time + directTtl + directClockSkew := by
  obtain ⟨request, generation, now, early, rfl⟩ := issued
  have bounded : (issueClaims request generation now).expiresAt ≤ now + directTtl :=
    Nat.min_le_right _ _
  omega

/-- A barred session is not accepted with claims that expire by the deadline. -/
theorem Barred.rejects {deadline now : Nat} {verifier : DirectVerifier}
    {authorization : DirectAuthorization}
    (barred : Barred authorization.claims.sessionId deadline now verifier)
    (expires : authorization.claims.expiresAt ≤ deadline) :
    ¬ verifier.Accepts signing now authorization := by
  intro accepts
  obtain ⟨unrefused, _⟩ := accepts.unrefused
  simp only [Refused, not_or, not_not] at unrefused
  obtain ⟨_, unexpired, _, _, _, _, _, _, _, unbarred⟩ := unrefused
  have early : now < deadline := by omega
  obtain ⟨stored, bound, found⟩ := barred early
  refine unbarred (AList.lookup_isSome.mp ?_)
  rw [lookup_prune_sessions, found]
  simpa using Nat.lt_of_lt_of_le early bound

/-! ### Revoked accounts -/

/-- The verifier requires at least a generation of an account. -/
def Requires (accountId : String) (generation : Nat) (verifier : DirectVerifier) : Prop :=
  generation ≤ getD verifier.generations accountId 0

theorem Requires.step {accountId : String} {generation : Nat} {event : Event}
    {verifier : DirectVerifier} (requires : Requires accountId generation verifier)
    (ordered : ∀ scope, event.scope? = some scope →
      (DirectRevocation.account accountId generation).Ordered scope) :
    Requires accountId generation (verifier.step signing event) := by
  unfold Requires at *
  cases event with
  | authorize now authorization =>
      obtain ⟨message, rejected⟩ | ⟨accepted, _⟩ := verify_cases signing now authorization verifier
      · simpa [DirectVerifier.step, rejected] using requires
      · simpa [DirectVerifier.step, accepted] using requires
  | revoke now scope =>
      cases scope with
      | account other later =>
          simp only [DirectVerifier.step, revoke, getD_insert]
          split
          · rename_i same
            exact ordered _ rfl same
          · exact requires
      | session _ => exact requires
      | installation => exact requires

/-- Claims of a lower generation than required are not accepted. -/
theorem Requires.rejects {now generation : Nat} {verifier : DirectVerifier}
    {authorization : DirectAuthorization}
    (requires : Requires authorization.claims.accountId generation verifier)
    (lower : authorization.claims.generation < generation) :
    ¬ verifier.Accepts signing now authorization := by
  intro accepts
  obtain ⟨unrefused, _⟩ := accepts.unrefused
  simp only [Refused, not_or, not_not] at unrefused
  obtain ⟨_, _, _, _, _, _, _, _, current, _⟩ := unrefused
  unfold Requires at requires
  rw [generations_prune] at current
  omega

/-! ### Whole sequences -/

/-- What holds right after an event and is kept by time and by admissible events
still holds when the last authorization is judged. -/
theorem holds_at_last {Holds : Nat → DirectVerifier → Prop} {Admissible : Event → Prop}
    {before between : List Event} {event : Event} {now : Nat}
    {authorization : DirectAuthorization} {verifier : DirectVerifier}
    (keeps : ∀ clock next verifier, event.time ≤ clock → clock ≤ next.time → Admissible next →
      Holds clock verifier → Holds next.time (step signing verifier next))
    (passes : ∀ clock later verifier, clock ≤ later → Holds clock verifier → Holds later verifier)
    (clock : Chronological (before ++ event :: between ++ [.authorize now authorization]))
    (admissible : ∀ next ∈ between, Admissible next)
    (holds : Holds event.time (step signing (verifier.run signing before) event)) :
    Holds now (verifier.run signing (before ++ event :: between)) := by
  rw [Chronological, List.append_assoc, List.pairwise_append] at clock
  obtain ⟨_, clock, _⟩ := clock
  rw [List.cons_append, List.pairwise_cons, List.pairwise_append] at clock
  obtain ⟨afterEvent, sorted, _, untilNow⟩ := clock
  have begun : event.time ≤ now := afterEvent (.authorize now authorization) (by simp)
  have untilLast : ∀ next ∈ between, next.time ≤ now :=
    fun next member => untilNow next member (.authorize now authorization) (by simp)
  have keepsBoth : ∀ clock next verifier, clock ≤ next.time → Admissible next →
      (event.time ≤ clock ∧ Holds clock verifier) →
      event.time ≤ next.time ∧ Holds next.time (step signing verifier next) :=
    fun clock next verifier later admitted held =>
      ⟨Nat.le_trans held.1 later, keeps clock next verifier held.1 later admitted held.2⟩
  have passesBoth : ∀ clock later verifier, clock ≤ later →
      (event.time ≤ clock ∧ Holds clock verifier) → event.time ≤ later ∧ Holds later verifier :=
    fun clock later verifier passed held =>
      ⟨Nat.le_trans held.1 passed, passes clock later verifier passed held.2⟩
  unfold run
  rw [List.foldl_append, List.foldl_cons]
  exact (run_keeps keepsBoth passesBoth admissible sorted
    (fun next member => afterEvent next (by simp [member])) untilLast begun
    ⟨Nat.le_refl _, holds⟩).2

/-- An authorization is not accepted after claims equal to its own. -/
theorem accepted_once {before between : List Event} {first now : Nat}
    {earlier authorization : DirectAuthorization} {verifier : DirectVerifier}
    (clock : Chronological
      (before ++ .authorize first earlier :: between ++ [.authorize now authorization]))
    (accepted : (verifier.run signing before).Accepts signing first earlier)
    (same : authorization.claims = earlier.claims) :
    ¬ (verifier.run signing (before ++ .authorize first earlier :: between)).Accepts signing now
      authorization := by
  have remembers : Remembers earlier.claims now
      (verifier.run signing (before ++ .authorize first earlier :: between)) :=
    @holds_at_last signing (Remembers earlier.claims) (fun _ => True) _ _ _ _ _ _
      (fun _ _ _ _ later _ held => held.step later)
      (fun _ _ _ passed held unexpired => held (Nat.lt_of_le_of_lt passed unexpired))
      clock (fun _ _ => trivial) accepted.remembers
  exact remembers.rejects same

/-- After a session is revoked, no claims of it that the beacon could have built
before then are accepted. -/
theorem session_revoked {before between : List Event} {time now : Nat}
    {authorization : DirectAuthorization} {verifier : DirectVerifier}
    (clock : Chronological (before ++ .revoke time (.session authorization.claims.sessionId) ::
      between ++ [.authorize now authorization]))
    (issued : IssuedBefore time authorization.claims) :
    ¬ (verifier.run signing (before ++ .revoke time (.session authorization.claims.sessionId) ::
      between)).Accepts signing now authorization := by
  have barred : Barred authorization.claims.sessionId (time + directTtl + directClockSkew) now
      (verifier.run signing
        (before ++ .revoke time (.session authorization.claims.sessionId) :: between)) :=
    @holds_at_last signing
      (Barred authorization.claims.sessionId (time + directTtl + directClockSkew)) (fun _ => True)
      _ _ _ _ _ _
      (fun _ _ _ begun later _ held => Barred.step begun later held)
      (fun _ _ _ passed held early => held (Nat.lt_of_le_of_lt passed early))
      clock (fun _ _ => trivial) (barred_revoke _ _ _)
  exact barred.rejects issued.expires

/-- The revocations of a sequence. -/
def scopes (events : List Event) : List DirectRevocation := events.filterMap Event.scope?

theorem scopes_append (first second : List Event) :
    scopes (first ++ second) = scopes first ++ scopes second :=
  List.filterMap_append

theorem scopes_revoke (time : Nat) (scope : DirectRevocation) (rest : List Event) :
    scopes (.revoke time scope :: rest) = scope :: scopes rest := rfl

/-- After an account is revoked, no lower generation of it is accepted. -/
theorem account_revoked {before between : List Event} {time now generation : Nat}
    {authorization : DirectAuthorization} {verifier : DirectVerifier}
    (clock : Chronological
      (before ++ .revoke time (.account authorization.claims.accountId generation) ::
        between ++ [.authorize now authorization]))
    (ordered : (scopes (before ++
      .revoke time (.account authorization.claims.accountId generation) :: between)).Pairwise
        DirectRevocation.Ordered)
    (lower : authorization.claims.generation < generation) :
    ¬ (verifier.run signing (before ++
      .revoke time (.account authorization.claims.accountId generation) :: between)).Accepts
        signing now authorization := by
  have later : ∀ next ∈ between, ∀ scope, next.scope? = some scope →
      (DirectRevocation.account authorization.claims.accountId generation).Ordered scope := by
    rw [scopes_append, scopes_revoke, List.pairwise_append, List.pairwise_cons] at ordered
    obtain ⟨_, ordered, _⟩ := ordered
    exact fun next member scope isScope =>
      ordered.1 scope (List.mem_filterMap.mpr ⟨next, member, isScope⟩)
  have requires : Requires authorization.claims.accountId generation
      (verifier.run signing (before ++
        .revoke time (.account authorization.claims.accountId generation) :: between)) :=
    @holds_at_last signing
      (fun _ verifier => Requires authorization.claims.accountId generation verifier)
      (fun next => ∀ scope, next.scope? = some scope →
        (DirectRevocation.account authorization.claims.accountId generation).Ordered scope)
      _ _ _ _ _ _
      (fun _ _ _ _ _ ordered held => held.step ordered)
      (fun _ _ _ _ held => held)
      clock later (by simp [Requires, step, revoke, getD_insert])
  exact requires.rejects lower

end DirectVerifier

/-! ### The beacon's order -/

/-- The revocations of a tunnel are ordered and carry no generation above the
current one of their account. -/
structure EmittedInOrder (state : Access × List DirectRevocation) : Prop where
  ordered : (Access.emitted state).Pairwise DirectRevocation.Ordered
  bounded : ∀ accountId generation,
    DirectRevocation.account accountId generation ∈ Access.emitted state →
      generation ≤ state.1.generation accountId

/-- Emitting nothing about accounts keeps the order. -/
theorem EmittedInOrder.append {state next : Access × List DirectRevocation}
    (inOrder : EmittedInOrder state) {added : List DirectRevocation}
    (emits : Access.emitted next = Access.emitted state ++ added)
    (generations : next.1.generations = state.1.generations)
    (silent : ∀ accountId generation, DirectRevocation.account accountId generation ∉ added) :
    EmittedInOrder next where
  ordered := by
    rw [emits, List.pairwise_append]
    have follows : ∀ earlier, ∀ later ∈ added, DirectRevocation.Ordered earlier later := by
      intro earlier later member
      cases later with
      | account accountId generation => exact absurd member (silent accountId generation)
      | session _ => cases earlier <;> trivial
      | installation => cases earlier <;> trivial
    exact ⟨inOrder.ordered,
      List.pairwise_of_forall_mem_list fun earlier _ later member => follows earlier later member,
      fun earlier _ later member => follows earlier later member⟩
  bounded := fun accountId generation member => by
    rw [emits, List.mem_append] at member
    unfold Access.generation
    rw [generations]
    exact inOrder.bounded accountId generation (member.resolve_right (silent accountId generation))

theorem EmittedInOrder.revokeAccess {state : Access × List DirectRevocation}
    (inOrder : EmittedInOrder state) (version : Nat) (accountId : String) :
    EmittedInOrder (state.1.revokeAccess version accountId, state.2) := by
  have current : ∀ other, (state.1.revokeAccess version accountId).generation other =
      if other = accountId then state.1.generation accountId + 1 else state.1.generation other :=
    fun other => getD_insert _ _ _ _ _
  have emits : Access.emitted (state.1.revokeAccess version accountId, state.2) =
      Access.emitted state ++ if version ≥ directVersion then
        [DirectRevocation.account accountId (state.1.generation accountId + 1)] else [] := by
    simp [Access.emitted, Access.revokeAccess]
  refine ⟨?_, fun other generation member => ?_⟩
  · rw [emits, List.pairwise_append]
    refine ⟨inOrder.ordered, by split <;> simp, fun earlier before later member => ?_⟩
    split at member
    · rw [List.mem_singleton.mp member]
      cases earlier with
      | account other generation =>
          intro same
          have bound := inOrder.bounded other generation before
          rw [same] at bound
          omega
      | session _ => trivial
      | installation => trivial
    · simp at member
  · rw [emits, List.mem_append] at member
    rw [current]
    obtain before | new := member
    · have bound := inOrder.bounded other generation before
      split
      · rename_i same
        rw [same] at bound
        omega
      · exact bound
    · split at new
      · obtain ⟨sameAccount, sameGeneration⟩ :=
          DirectRevocation.account.inj (List.mem_singleton.mp new)
        rw [if_pos sameAccount, sameGeneration]
      · simp at new

/-- An operation that emits nothing and leaves the generations keeps the order. -/
theorem EmittedInOrder.quiet {state next : Access × List DirectRevocation}
    (inOrder : EmittedInOrder state) (emits : Access.emitted next = Access.emitted state)
    (generations : next.1.generations = state.1.generations) : EmittedInOrder next :=
  inOrder.append (by rw [emits, List.append_nil]) generations (by simp)

theorem EmittedInOrder.step {state : Access × List DirectRevocation}
    (inOrder : EmittedInOrder state) (version : Nat) (operation : Access.Operation) :
    EmittedInOrder (Access.step version state operation) := by
  cases operation with
  | register claims sessionDigest sessionDeadline =>
      cases registered : state.1.register claims sessionDigest sessionDeadline with
      | error _ => simpa [Access.step, registered] using inOrder
      | ok access =>
          obtain ⟨generations, revocations⟩ := Access.register_eq_ok registered
          exact inOrder.quiet (by simp [Access.step, registered, Access.emitted, revocations])
            (by simp [Access.step, registered, generations])
  | failedAuthorization connectionId => exact inOrder.quiet rfl rfl
  | revokeSession session =>
      exact inOrder.append (List.append_assoc _ _ _).symm rfl (by simp)
  | expireSessions now =>
      exact inOrder.append (List.append_assoc _ _ _).symm rfl (by simp)
  | revokeAccess accountId => exact inOrder.revokeAccess version accountId
  | drain => exact inOrder.quiet (by simp [Access.step, Access.emitted]) rfl

/-- The beacon emits the generations of an account in order. -/
theorem emissions_ordered (version : Nat) (operations : List Access.Operation) :
    (Access.emitted (Access.run version operations)).Pairwise DirectRevocation.Ordered := by
  have initial : EmittedInOrder (Access.initial, []) :=
    ⟨List.Pairwise.nil, by simp [Access.emitted, Access.initial]⟩
  exact (List.foldlRecOn operations (Access.step version) initial fun _ inOrder operation _ =>
    inOrder.step version operation).ordered

/-! ### Safety -/

namespace DirectVerifier

/-- An accepted authorization was not accepted before, also when the memory of
it has been pruned; it could not have been issued before a revocation of its
session; and its generation is at least that of every revocation of its account,
when those arrive in order, which is how the beacon emits them. -/
theorem direct_authorization_safe (signing : Signing) (verifier : DirectVerifier)
    (before between : List Event) (event : Event) (now : Nat)
    (authorization : DirectAuthorization)
    (clock : Chronological (before ++ event :: between ++ [.authorize now authorization]))
    (accepted : (verifier.run signing (before ++ event :: between)).Accepts signing now
      authorization) :
    (∀ first earlier, event = .authorize first earlier →
      earlier.claims = authorization.claims →
        ¬ (verifier.run signing before).Accepts signing first earlier) ∧
    (∀ time, event = .revoke time (.session authorization.claims.sessionId) →
      ¬ IssuedBefore time authorization.claims) ∧
    (∀ time generation, event = .revoke time (.account authorization.claims.accountId generation) →
      (scopes (before ++ event :: between)).Pairwise DirectRevocation.Ordered →
        generation ≤ authorization.claims.generation) ∧
    (∀ version operations,
      (Access.emitted (Access.run version operations)).Pairwise DirectRevocation.Ordered) := by
  refine ⟨?_, ?_, ?_, emissions_ordered⟩
  · rintro first earlier rfl same acceptedBefore
    exact accepted_once clock acceptedBefore same.symm accepted
  · rintro time rfl issued
    exact session_revoked clock issued accepted
  · rintro time generation rfl ordered
    by_contra lower
    exact account_revoked clock ordered (Nat.not_le.mp lower) accepted

/-- A signature scheme that signs with the key itself. -/
def plainSigning : Signing where
  decode := fun text => some text.toUTF8.toList
  verify := fun key message signature => signature = key ++ message
  serialize := fun claims => claims.nonce.toUTF8.toList

/-- A revoked session is accepted again with claims issued later. -/
theorem direct_authorization_safe_later :
    let octets := List.replicate 31 "00:" ++ ["00"]
    let claims : DirectClaims :=
      ⟨"c", "i", "a", .member, "s", 0, "sha-256 " ++ String.join octets, 1300, "n"⟩
    let authorization : DirectAuthorization := ⟨claims, "cairn-direct-authorization-v4\x00n"⟩
    let verifier : DirectVerifier := ⟨"i", [], ∅, ∅, ∅⟩
    (verifier.run plainSigning [.revoke 900 (.session "s")]).Accepts plainSigning 1200
        authorization ∧
      ¬ IssuedBefore 900 claims := by
  intro octets claims authorization verifier
  have accepted : (verifier.run plainSigning [.revoke 900 (.session "s")]).Accepts plainSigning 1200
      authorization := by decide +kernel
  exact ⟨accepted, (direct_authorization_safe plainSigning verifier [] []
    (.revoke 900 (.session "s")) 1200 authorization (by decide) accepted).2.1 900 rfl⟩

end DirectVerifier

end Cairn.Protocol

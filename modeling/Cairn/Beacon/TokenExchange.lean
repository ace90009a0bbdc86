import Cairn.Beacon.TokenHistory

/-!
Owns what a consent, a personal token, the exchange of a code and a refresh do to the history of
MCP access, and from it what every interleaving of the beacon's transactions keeps.

Does not own the invariant itself.
-/

set_option autoImplicit false

namespace Cairn.Beacon

open Cairn.Library.HashMaps Cairn.Library.Histories Cairn.Library.RowLocks Cairn.Library.Steps

variable {db next : Database} {functions : Functions} {event : Event} {values : List String}
  {digest id : String}

namespace Sound

variable (sound : Sound functions db)

include sound

/-! ### New names -/

/-- A name that was never seen is in no event. -/
theorem undrawn (new : digest ∉ db.seen) : ∀ event ∈ db.log, digest ∉ event.draws :=
  fun event member drawn => new (sound.drawn event member digest drawn)

theorem unserved (new : id ∉ db.seen) : ∀ event ∈ db.log, ¬ event.serves id :=
  fun event member serves => new (sound.served event member id serves)

theorem no_grant (new : id ∉ db.seen) : db.grants.lookup id = none := by
  cases found : db.grants.lookup id with
  | none => rfl
  | some row => exact absurd (sound.grants id row found).1 new

theorem no_token (new : digest ∉ db.seen) : db.tokens.lookup digest = none := by
  cases found : db.tokens.lookup digest with
  | none => rfl
  | some token => exact absurd (sound.tokens digest token found).1 new

/-- Nothing was issued for a name that was never seen. -/
theorem unissued (new : digest ∉ db.seen) :
    ∀ event ∈ db.log, ¬ event.issues (.code digest) ∧ ¬ event.issues (.refresh digest) := by
  intro event member
  obtain ⟨before, after, split, justified⟩ := sound.legal.justified member
  have entitled := justified.entitled
  have earlier : ∀ other ∈ before, other ∈ db.log := fun other isOther => by
    rw [split]
    exact List.mem_append_left _ isOther
  cases event with
  | issued source grant access refresh scopes request =>
      constructor
      · rintro rfl
        obtain ⟨⟨row, consented, -⟩, -⟩ := entitled
        exact sound.undrawn new _ (earlier _ consented) List.mem_cons_self
      · rintro rfl
        obtain ⟨⟨source, access, scopes, request, given, -⟩, -⟩ := entitled
        have drawn : digest ∈ (Event.issued source grant access digest scopes request).draws := by
          cases source <;> simp [Event.draws]
        exact sound.undrawn new _ (earlier _ given) drawn
  | _ => exact ⟨id, id⟩

/-- An event with new names may follow. -/
theorem justified (entitled : event.Entitled functions db.log)
    (new : ∀ value ∈ event.draws, value ∉ db.seen) : Legal (Event.Justified functions) (db.log ++ [event]) :=
  legal_concat.mpr ⟨sound.legal, entitled, fun value drawn earlier member inside =>
    new value drawn (sound.drawn earlier member value inside)⟩

theorem drawn_concat (noted : ∀ value ∈ event.draws, value ∈ values) :
    ∀ other ∈ db.log ++ [event], ∀ value ∈ other.draws, value ∈ values ++ db.seen := by
  intro other member value drawn
  rcases List.mem_append.mp member with old | new
  · exact List.mem_append_right _ (sound.drawn other old value drawn)
  · rw [List.mem_singleton.mp new] at drawn
    exact List.mem_append_left _ (noted value drawn)

theorem served_concat (noted : ∀ grant, event.serves grant → grant ∈ values ++ db.seen) :
    ∀ other ∈ db.log ++ [event], ∀ grant, other.serves grant → grant ∈ values ++ db.seen := by
  intro other member grant serves
  rcases List.mem_append.mp member with old | new
  · exact List.mem_append_right _ (sound.served other old grant serves)
  · rw [List.mem_singleton.mp new] at serves
    exact noted grant serves

/-- Grants that are new, or were there. -/
theorem revoked_concat {grants : HashMap String Grant} (event : Event)
    (other : ∀ grant, event ≠ .revoked grant)
    (kept : ∀ id ∈ db.seen, db.grants.lookup id = none → grants.lookup id = none) :
    ∀ grant, .revoked grant ∈ db.log ++ [event] →
      grant ∈ values ++ db.seen ∧ grants.lookup grant = none := by
  intro grant member
  rcases List.mem_append.mp member with old | new
  · obtain ⟨seen, gone⟩ := sound.revoked grant old
    exact ⟨List.mem_append_right _ seen, kept grant seen gone⟩
  · exact absurd (List.mem_singleton.mp new).symm (other grant)

theorem released_concat {grants : HashMap String Grant} (event : Event)
    (other : ∀ installation owner, event ≠ .released installation owner)
    (kept : ∀ id row, grants.lookup id = some row → id ∉ db.seen ∨
      ∃ old, db.grants.lookup id = some old ∧ old.installation = row.installation) :
    ∀ before after installation owner, db.log ++ [event] = before ++ .released installation owner :: after →
      ∀ id row, grants.lookup id = some row → row.installation = installation →
        ∀ event ∈ before, ¬ event.serves id := by
  intro before after installation owner split id row found same earlier member
  rcases mem_of_append_eq split with ⟨rest, isBefore⟩ | new
  · rcases kept id row found with isNew | ⟨old, wasThere, sameInstallation⟩
    · refine sound.unserved isNew earlier ?_
      rw [isBefore]
      exact List.mem_append_left _ member
    · exact sound.released before rest installation owner isBefore id old wasThere
        (sameInstallation.trans same) earlier member
  · exact absurd (List.mem_singleton.mp new).symm (other installation owner)

/-! ### Consents and personal tokens -/

/-- The account gives a client a code for its installation. -/
theorem consent {row : Code} (new : digest ∉ db.seen) (noted : digest ∈ values)
    (open' : row.grant = none) (installation : row.installation ∈ db.seen)
    (owned : db.owner row.installation = some row.account) :
    Sound functions { db with
      seen := values ++ db.seen
      codes := db.codes.insert digest row
      log := db.log ++ [.consented digest row] } where
  legal := sound.justified trivial fun value drawn => by
    rwa [List.mem_singleton.mp drawn]
  drawn := sound.drawn_concat fun value drawn => by
    rwa [List.mem_singleton.mp drawn]
  served := sound.served_concat fun _ serves => serves.elim
  codes other code found := by
    rw [lookup_insert] at found
    split at found
    · obtain rfl := Option.some.inj found
      rename_i same
      refine ⟨?_, List.mem_append_right _ installation, owned⟩
      rw [same, ← open']
      exact List.mem_append_right _ (List.mem_singleton_self _)
    · obtain ⟨consented, seen, owned⟩ := sound.codes other code found
      exact ⟨List.mem_append_left _ consented, List.mem_append_right _ seen, owned⟩
  unused other code found stillOpen event member issues := by
    rcases List.mem_append.mp member with old | isNew
    · rw [lookup_insert] at found
      split at found
      · rename_i same
        rw [same] at issues
        exact (sound.unissued new event old).1 issues
      · exact sound.unused other code found stillOpen event old issues
    · rw [List.mem_singleton.mp isNew] at issues
      exact issues
  codeGrants other code grant found named := by
    rw [lookup_insert] at found
    split at found
    · obtain rfl := Option.some.inj found
      rw [open'] at named
      cases named
    · exact sound.codeGrants other code grant found named
  grants id row found := by
    obtain ⟨seen, installation, owned⟩ := sound.grants id row found
    exact ⟨List.mem_append_right _ seen, List.mem_append_right _ installation, owned⟩
  tokens digest token found := by
    obtain ⟨seen, grant, granted, carried⟩ := sound.tokens digest token found
    exact ⟨List.mem_append_right _ seen, grant, granted,
      carried.mono fun _ member => List.mem_append_left _ member⟩
  unspent digest token found unused event member issues := by
    rcases List.mem_append.mp member with old | isNew
    · exact sound.unspent digest token found unused event old issues
    · rw [List.mem_singleton.mp isNew] at issues
      exact issues
  revoked := sound.revoked_concat _ (fun _ same => by cases same) fun _ _ gone => gone
  released := sound.released_concat _ (fun _ _ same => by cases same)
    fun id row found => .inr ⟨row, found, rfl⟩

/-- The account makes a token for its installation. -/
theorem personal {row : Grant} {token : Token} (newGrant : id ∉ db.seen) (newToken : digest ∉ db.seen)
    (noted : id ∈ values ∧ digest ∈ values) (isGrant : token.grant = id)
    (kind : token.kind = .access) (scopes : token.scopes = row.scopes)
    (installation : row.installation ∈ db.seen)
    (owned : db.owner row.installation = some row.account) :
    Sound functions { db with
      seen := values ++ db.seen
      grants := db.grants.insert id row
      tokens := db.tokens.insert digest token
      log := db.log ++ [.granted id digest row] } where
  legal := sound.justified trivial fun value drawn => by
    rcases List.mem_cons.mp drawn with rfl | rest
    · exact newGrant
    · rwa [List.mem_singleton.mp rest]
  drawn := sound.drawn_concat fun value drawn => by
    rcases List.mem_cons.mp drawn with rfl | rest
    · exact noted.1
    · rw [List.mem_singleton.mp rest]
      exact noted.2
  served := sound.served_concat fun grant serves => by
    obtain rfl : id = grant := serves
    exact List.mem_append_left _ noted.1
  codes other code found := by
    obtain ⟨consented, seen, owned⟩ := sound.codes other code found
    exact ⟨List.mem_append_left _ consented, List.mem_append_right _ seen, owned⟩
  unused other code found stillOpen event member issues := by
    rcases List.mem_append.mp member with old | isNew
    · exact sound.unused other code found stillOpen event old issues
    · rw [List.mem_singleton.mp isNew] at issues
      exact issues
  codeGrants other code grant found named := by
    show ((db.grants.insert id row).lookup grant).isSome
    rw [lookup_insert]
    split
    · rfl
    · exact sound.codeGrants other code grant found named
  grants other grant found := by
    rw [lookup_insert] at found
    split at found
    · obtain rfl := Option.some.inj found
      rename_i same
      rw [same]
      exact ⟨List.mem_append_left _ noted.1, List.mem_append_right _ installation, owned⟩
    · obtain ⟨seen, installation, owned⟩ := sound.grants other grant found
      exact ⟨List.mem_append_right _ seen, List.mem_append_right _ installation, owned⟩
  tokens other held found := by
    rw [lookup_insert] at found
    split at found
    · obtain rfl := Option.some.inj found
      rename_i same
      refine ⟨by rw [same]; exact List.mem_append_left _ noted.2, row, ?_, ?_⟩
      · rw [isGrant]
        exact AList.lookup_insert _
      · refine .personal row kind ?_ rfl rfl scopes
        rw [isGrant, same]
        exact List.mem_append_right _ (List.mem_singleton_self _)
    · obtain ⟨seen, grant, granted, carried⟩ := sound.tokens other held found
      refine ⟨List.mem_append_right _ seen, grant, ?_,
        carried.mono fun _ member => List.mem_append_left _ member⟩
      rw [lookup_insert, if_neg]
      · exact granted
      · intro same
        rw [same, sound.no_grant newGrant] at granted
        cases granted
  unspent other held found unused event member issues := by
    rcases List.mem_append.mp member with old | isNew
    · rw [lookup_insert] at found
      split at found
      · rename_i same
        rw [same] at issues
        exact (sound.unissued newToken event old).2 issues
      · exact sound.unspent other held found unused event old issues
    · rw [List.mem_singleton.mp isNew] at issues
      exact issues
  revoked := sound.revoked_concat _ (fun _ same => by cases same) fun other seen gone => by
    rw [lookup_insert, if_neg]
    · exact gone
    · rintro rfl
      exact newGrant seen
  released := sound.released_concat _ (fun _ _ same => by cases same) fun other grant found => by
    rw [lookup_insert] at found
    split at found
    · rename_i same
      rw [same]
      exact .inl newGrant
    · exact .inr ⟨grant, found, rfl⟩

/-! ### Exchanges -/

section Issue

variable {grant access refresh : String} {request : TokenRequest} {accessToken refreshToken : Token}
  {scopes : List String}

omit sound in
/-- The tokens after two were inserted. -/
theorem lookup_issued {tokens : HashMap String Token} {other : String} {held : Token}
    (found : ((tokens.insert access accessToken).insert refresh refreshToken).lookup other =
      some held) :
    (other = refresh ∧ held = refreshToken) ∨ (other = access ∧ held = accessToken) ∨
      (other ≠ refresh ∧ other ≠ access ∧ tokens.lookup other = some held) := by
  rw [lookup_insert] at found
  split at found
  · rename_i isRefresh
    exact .inl ⟨isRefresh, (Option.some.inj found).symm⟩
  · rename_i notRefresh
    rw [lookup_insert] at found
    split at found
    · rename_i isAccess
      exact .inr (.inl ⟨isAccess, (Option.some.inj found).symm⟩)
    · rename_i notAccess
      exact .inr (.inr ⟨notRefresh, notAccess, found⟩)

variable (newAccess : access ∉ db.seen) (newRefresh : refresh ∉ db.seen)
  (noted : access ∈ values ∧ refresh ∈ values)
  (isAccess : accessToken.grant = grant ∧ accessToken.kind = .access ∧ accessToken.scopes = scopes)
  (isRefresh : refreshToken.grant = grant ∧ refreshToken.kind = .refresh ∧
    refreshToken.scopes = scopes)

include newAccess newRefresh noted isAccess isRefresh

/-- A code becomes a grant with its first tokens. -/
theorem redeem {code : Code} {row : Grant} (found : db.codes.lookup digest = some code)
    (open' : code.grant = none) (isCode : functions.digest request.code = digest)
    (matches' : codeMatches functions request code = true) (isScopes : scopes = code.scopes)
    (newGrant : grant ∉ db.seen) (notedGrant : grant ∈ values)
    (isRow : row.account = code.account ∧ row.installation = code.installation ∧
      row.client = some code.client) :
    Sound functions { db with
      seen := values ++ db.seen
      grants := db.grants.insert grant row
      codes := modify digest (fun code => { code with grant := some grant }) db.codes
      tokens := (db.tokens.insert access accessToken).insert refresh refreshToken
      log := db.log ++ [.issued (.code digest) grant access refresh scopes request] } := by
  have same : { code with grant := none } = code := by rw [← open']
  obtain ⟨consented, installation, owned⟩ := sound.codes digest code found
  rw [same] at consented
  have client : request.clientId = code.client := by
    have parts := matches'
    simp only [codeMatches, Bool.and_eq_true, beq_iff_eq] at parts
    exact parts.1.1.1.1.1
  have newest : ∀ event ∈ db.log, event ∈ db.log ++
      [.issued (.code digest) grant access refresh scopes request] := fun event member =>
    List.mem_append_left _ member
  have known : (grant, access, refresh).1 ∈ values ++ db.seen := List.mem_append_left _ notedGrant
  refine ⟨?_, ?_, ?_, ?_, ?_, ?_, ?_, ?_, ?_, ?_, ?_⟩
  · refine sound.justified ⟨⟨code, consented, isCode, matches', isScopes⟩,
      sound.unused digest code found open'⟩ fun value drawn => ?_
    simp only [Event.draws, List.mem_cons, List.not_mem_nil, or_false] at drawn
    rcases drawn with rfl | rfl | rfl
    · exact newGrant
    · exact newAccess
    · exact newRefresh
  · refine sound.drawn_concat fun value drawn => ?_
    simp only [Event.draws, List.mem_cons, List.not_mem_nil, or_false] at drawn
    rcases drawn with rfl | rfl | rfl
    · exact notedGrant
    · exact noted.1
    · exact noted.2
  · refine sound.served_concat fun other serves => ?_
    obtain rfl : grant = other := serves
    exact known
  · intro other held isHeld
    rw [lookup_modify] at isHeld
    split at isHeld
    · rename_i isSame
      rw [found] at isHeld
      obtain rfl := Option.some.inj isHeld
      rw [isSame]
      refine ⟨newest _ ?_, List.mem_append_right _ installation, owned⟩
      show Event.consented digest { code with grant := none } ∈ db.log
      rw [same]
      exact consented
    · obtain ⟨consented, seen, owned⟩ := sound.codes other held isHeld
      exact ⟨newest _ consented, List.mem_append_right _ seen, owned⟩
  · intro other held isHeld stillOpen event member issues
    rw [lookup_modify] at isHeld
    split at isHeld
    · rw [found] at isHeld
      obtain rfl := Option.some.inj isHeld
      cases stillOpen
    · rename_i different
      rcases List.mem_append.mp member with old | isNew
      · exact sound.unused other held isHeld stillOpen event old issues
      · rw [List.mem_singleton.mp isNew] at issues
        exact different (Source.code.inj issues).symm
  · intro other held named isHeld isNamed
    show ((db.grants.insert grant row).lookup named).isSome
    rw [lookup_insert]
    split
    · rfl
    · rename_i different
      rw [lookup_modify] at isHeld
      split at isHeld
      · rw [found] at isHeld
        obtain rfl := Option.some.inj isHeld
        exact absurd (Option.some.inj isNamed).symm different
      · exact sound.codeGrants other held named isHeld isNamed
  · intro other held isHeld
    rw [lookup_insert] at isHeld
    split at isHeld
    · rename_i isSame
      obtain rfl := Option.some.inj isHeld
      rw [isSame, isRow.1, isRow.2.1]
      exact ⟨known, List.mem_append_right _ installation, owned⟩
    · obtain ⟨seen, installation, owned⟩ := sound.grants other held isHeld
      exact ⟨List.mem_append_right _ seen, List.mem_append_right _ installation, owned⟩
  · intro other held isHeld
    have own : (db.grants.insert grant row).lookup grant = some row := AList.lookup_insert _
    have isLast : Event.issued (.code digest) grant access refresh scopes request ∈
        db.log ++ [.issued (.code digest) grant access refresh scopes request] :=
      List.mem_append_right _ (List.mem_singleton_self _)
    rcases lookup_issued isHeld with ⟨rfl, rfl⟩ | ⟨rfl, rfl⟩ | ⟨-, -, wasHeld⟩
    · obtain ⟨isGrant, kind, sameScopes⟩ := isRefresh
      refine ⟨List.mem_append_left _ noted.2, row, by rw [isGrant]; exact own, ?_⟩
      refine .issued (.code digest) access other request digest code ?_ (by rw [kind]; rfl)
        (newest _ consented) isRow.1.symm isRow.2.1.symm isRow.2.2 client ?_
      · rw [isGrant, sameScopes]
        exact isLast
      · rw [sameScopes, isScopes]
        exact List.Subset.refl _
    · obtain ⟨isGrant, kind, sameScopes⟩ := isAccess
      refine ⟨List.mem_append_left _ noted.1, row, by rw [isGrant]; exact own, ?_⟩
      refine .issued (.code digest) other refresh request digest code ?_ (by rw [kind]; rfl)
        (newest _ consented) isRow.1.symm isRow.2.1.symm isRow.2.2 client ?_
      · rw [isGrant, sameScopes]
        exact isLast
      · rw [sameScopes, isScopes]
        exact List.Subset.refl _
    · obtain ⟨seen, held', granted, carried⟩ := sound.tokens other held wasHeld
      refine ⟨List.mem_append_right _ seen, held', ?_, carried.mono newest⟩
      rw [lookup_insert, if_neg]
      · exact granted
      · intro isSame
        rw [isSame, sound.no_grant newGrant] at granted
        cases granted
  · intro other held isHeld unspent event member issues
    rcases List.mem_append.mp member with old | isNew
    · rcases lookup_issued isHeld with ⟨rfl, -⟩ | ⟨rfl, -⟩ | ⟨-, -, wasHeld⟩
      · exact (sound.unissued newRefresh event old).2 issues
      · exact (sound.unissued newAccess event old).2 issues
      · exact sound.unspent other held wasHeld unspent event old issues
    · rw [List.mem_singleton.mp isNew] at issues
      cases issues
  · refine sound.revoked_concat _ (fun _ isSame => by cases isSame) fun other seen gone => ?_
    rw [lookup_insert, if_neg]
    · exact gone
    · rintro rfl
      exact newGrant seen
  · refine sound.released_concat _ (fun _ _ isSame => by cases isSame) fun other held isHeld => ?_
    rw [lookup_insert] at isHeld
    split at isHeld
    · rename_i isSame
      rw [isSame]
      exact .inl newGrant
    · exact .inr ⟨held, isHeld, rfl⟩

/-- A refresh token is replaced, with the same scopes or fewer. -/
theorem renew {token : Token} {row : Grant} {change : Grant → Grant}
    (found : db.tokens.lookup digest = some token) (kind : token.kind = .refresh)
    (unused : token.used = false) (granted : db.grants.lookup token.grant = some row)
    (isToken : functions.digest request.refreshToken = digest)
    (client : row.client = some request.clientId) (narrower : scopes ⊆ token.scopes)
    (isGrant : grant = token.grant)
    (changed : ∀ row, (change row).account = row.account ∧
      (change row).installation = row.installation ∧ (change row).client = row.client) :
    Sound functions { db with
      seen := values ++ db.seen
      tokens := ((modify digest (fun token => { token with used := true }) db.tokens).insert access
        accessToken).insert refresh refreshToken
      grants := modify grant change db.grants
      log := db.log ++ [.issued (.refresh digest) grant access refresh scopes request] } := by
  subst isGrant
  have newest : ∀ event ∈ db.log, event ∈ db.log ++
      [.issued (.refresh digest) token.grant access refresh scopes request] := fun event member =>
    List.mem_append_left _ member
  have isLast : Event.issued (.refresh digest) token.grant access refresh scopes request ∈
      db.log ++ [.issued (.refresh digest) token.grant access refresh scopes request] :=
    List.mem_append_right _ (List.mem_singleton_self _)
  obtain ⟨seenDigest, row', granted', carried⟩ := sound.tokens digest token found
  obtain rfl := Option.some.inj (granted'.symm.trans granted)
  -- grants keep their account, installation and client
  have kept : ∀ id held, (modify token.grant change db.grants).lookup id = some held →
      ∃ old, db.grants.lookup id = some old ∧ held.account = old.account ∧
        held.installation = old.installation ∧ held.client = old.client := by
    intro id held isHeld
    rw [lookup_modify] at isHeld
    split at isHeld
    · rename_i isSame
      rw [granted] at isHeld
      obtain rfl := Option.some.inj isHeld
      exact ⟨row', by rw [isSame, granted], changed row'⟩
    · exact ⟨held, isHeld, rfl, rfl, rfl⟩
  have stays : ∀ id old, db.grants.lookup id = some old →
      ∃ held, (modify token.grant change db.grants).lookup id = some held ∧
        held.account = old.account ∧ held.installation = old.installation ∧
        held.client = old.client := by
    intro id old isOld
    rw [lookup_modify]
    split
    · rename_i isSame
      rw [← isSame, isOld]
      exact ⟨change old, rfl, changed old⟩
    · exact ⟨old, isOld, rfl, rfl, rfl⟩
  cases carried with
  | personal _ isAccessKind =>
      rw [kind] at isAccessKind
      cases isAccessKind
  | issued source earlierAccess earlierRefresh earlierRequest code root given own consented account
      installation isClient exchanged rooted =>
  rw [kind] at own
  obtain rfl : digest = earlierRefresh := own
  have sameClient : request.clientId = root.client :=
    Option.some.inj (client.symm.trans isClient)
  obtain ⟨ownRow, isOwnRow, ownAccount, ownInstallation, ownClient⟩ := stays token.grant row' granted
  refine ⟨?_, ?_, ?_, ?_, ?_, ?_, ?_, ?_, ?_, ?_, ?_⟩
  · refine sound.justified ⟨⟨source, earlierAccess, token.scopes, earlierRequest, given, isToken,
      sameClient.trans exchanged.symm, narrower⟩, sound.unspent digest token found unused⟩
      fun value drawn => ?_
    simp only [Event.draws, List.mem_cons, List.not_mem_nil, or_false] at drawn
    rcases drawn with rfl | rfl
    · exact newAccess
    · exact newRefresh
  · refine sound.drawn_concat fun value drawn => ?_
    simp only [Event.draws, List.mem_cons, List.not_mem_nil, or_false] at drawn
    rcases drawn with rfl | rfl
    · exact noted.1
    · exact noted.2
  · refine sound.served_concat fun other serves => ?_
    obtain rfl : token.grant = other := serves
    exact List.mem_append_right _ (sound.grants token.grant row' granted).1
  · intro other held isHeld
    obtain ⟨consented, seen, owned⟩ := sound.codes other held isHeld
    exact ⟨newest _ consented, List.mem_append_right _ seen, owned⟩
  · intro other held isHeld stillOpen event member issues
    rcases List.mem_append.mp member with old | isNew
    · exact sound.unused other held isHeld stillOpen event old issues
    · rw [List.mem_singleton.mp isNew] at issues
      cases issues
  · intro other held named isHeld isNamed
    obtain ⟨old, isOld⟩ :=
      Option.isSome_iff_exists.mp (sound.codeGrants other held named isHeld isNamed)
    obtain ⟨held', isHeld', -⟩ := stays named old isOld
    exact Option.isSome_iff_exists.mpr ⟨held', isHeld'⟩
  · intro other held isHeld
    obtain ⟨old, isOld, sameAccount, sameInstallation, -⟩ := kept other held isHeld
    obtain ⟨seen, installation, owned⟩ := sound.grants other old isOld
    rw [sameAccount, sameInstallation]
    exact ⟨List.mem_append_right _ seen, List.mem_append_right _ installation, owned⟩
  · intro other held isHeld
    have issued : ∀ {value : String} {token' : Token}, token'.grant = token.grant →
        token'.scopes = scopes →
        value = token'.kind.digestOf access refresh →
        Carried (db.log ++ [.issued (.refresh digest) token.grant access refresh scopes request])
          value token' ownRow := by
      intro value token' isGrant sameScopes own
      refine .issued (.refresh digest) access refresh request code root ?_ own (newest _ consented)
        (account.trans ownAccount.symm) (installation.trans ownInstallation.symm)
        (ownClient.trans isClient) sameClient ?_
      · rw [isGrant, sameScopes]
        exact isLast
      · rw [sameScopes]
        exact List.Subset.trans narrower rooted
    rcases lookup_issued isHeld with ⟨rfl, rfl⟩ | ⟨rfl, rfl⟩ | ⟨-, -, wasHeld⟩
    · obtain ⟨isGrant, isKind, sameScopes⟩ := isRefresh
      exact ⟨List.mem_append_left _ noted.2, ownRow, by rw [isGrant]; exact isOwnRow,
        issued isGrant sameScopes (by rw [isKind]; rfl)⟩
    · obtain ⟨isGrant, isKind, sameScopes⟩ := isAccess
      exact ⟨List.mem_append_left _ noted.1, ownRow, by rw [isGrant]; exact isOwnRow,
        issued isGrant sameScopes (by rw [isKind]; rfl)⟩
    · -- an older token is where it was, used or not
      obtain ⟨old, isOld, sameGrant, sameKind, sameScopes⟩ : ∃ old, db.tokens.lookup other = some old ∧
          held.grant = old.grant ∧ held.kind = old.kind ∧ held.scopes = old.scopes := by
        rw [lookup_modify] at wasHeld
        split at wasHeld
        · rename_i isSame
          rw [found] at wasHeld
          obtain rfl := Option.some.inj wasHeld
          exact ⟨token, by rw [isSame, found], rfl, rfl, rfl⟩
        · exact ⟨held, wasHeld, rfl, rfl, rfl⟩
      obtain ⟨seen, oldRow, oldGranted, oldCarried⟩ := sound.tokens other old isOld
      obtain ⟨newRow, isNewRow, newAccount, newInstallation, newClient⟩ :=
        stays old.grant oldRow oldGranted
      refine ⟨List.mem_append_right _ seen, newRow, by rw [sameGrant]; exact isNewRow, ?_⟩
      cases oldCarried with
      | personal created isKind made oldAccount oldInstallation oldScopes =>
          refine .personal created (sameKind.trans isKind) ?_ (oldAccount.trans newAccount.symm)
            (oldInstallation.trans newInstallation.symm) (sameScopes.trans oldScopes)
          rw [sameGrant]
          exact newest _ made
      | issued oldSource oldAccess oldRefresh oldRequest oldCode oldRoot oldGiven oldOwn oldConsented
          oldAccount oldInstallation oldClient oldExchanged oldRooted =>
          refine .issued oldSource oldAccess oldRefresh oldRequest oldCode oldRoot ?_ ?_
            (newest _ oldConsented) (oldAccount.trans newAccount.symm)
            (oldInstallation.trans newInstallation.symm) (newClient.trans oldClient) oldExchanged ?_
          · rw [sameGrant, sameScopes]
            exact newest _ oldGiven
          · rw [sameKind]
            exact oldOwn
          · rw [sameScopes]
            exact oldRooted
  · intro other held isHeld unspent event member issues
    rcases List.mem_append.mp member with old | isNew
    · rcases lookup_issued isHeld with ⟨rfl, -⟩ | ⟨rfl, -⟩ | ⟨-, -, wasHeld⟩
      · exact (sound.unissued newRefresh event old).2 issues
      · exact (sound.unissued newAccess event old).2 issues
      · rw [lookup_modify] at wasHeld
        split at wasHeld
        · rw [found] at wasHeld
          obtain rfl := Option.some.inj wasHeld
          cases unspent
        · exact sound.unspent other held wasHeld unspent event old issues
    · rw [List.mem_singleton.mp isNew] at issues
      obtain rfl := Source.refresh.inj issues
      rcases lookup_issued isHeld with ⟨rfl, -⟩ | ⟨rfl, -⟩ | ⟨-, -, wasHeld⟩
      · exact newRefresh seenDigest
      · exact newAccess seenDigest
      · rw [lookup_modify, if_pos rfl, found] at wasHeld
        obtain rfl := Option.some.inj wasHeld
        cases unspent
  · refine sound.revoked_concat _ (fun _ isSame => by cases isSame) fun other _ gone => ?_
    cases isHeld : (modify token.grant change db.grants).lookup other with
    | none => rfl
    | some held =>
        obtain ⟨old, isOld, -⟩ := kept other held isHeld
        rw [gone] at isOld
        cases isOld
  · refine sound.released_concat _ (fun _ _ isSame => by cases isSame) fun other held isHeld => ?_
    obtain ⟨old, isOld, -, sameInstallation, -⟩ := kept other held isHeld
    exact .inr ⟨old, isOld, sameInstallation.symm⟩

end Issue

end Sound

end Cairn.Beacon

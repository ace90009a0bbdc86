import Cairn.Beacon.TokenExchange

/-!
Owns the safety of MCP access over every interleaving of the beacon's transactions: each program
keeps the history sound, under the locks it takes.

Does not own what one exchange does to the tables.
-/

set_option autoImplicit false

namespace Cairn.Beacon

open Cairn.Library.HashMaps Cairn.Library.Histories Cairn.Library.RowLocks Cairn.Library.Steps

variable {db next : Database} {functions : Functions} {values : List String}
  {held : List (Lock Row)} {known : Database → Prop} {program : Program}

/-! ### Drawn values -/

theorem fresh_iff : (beacon functions).fresh values db = true ↔
    (withDigests functions values).Nodup ∧ ∀ value ∈ withDigests functions values, value ∉ db.seen :=
  decide_eq_true_iff

theorem mem_withDigests (functions : Functions) {value : String} (member : value ∈ values) :
    value ∈ withDigests functions values ∧ functions.digest value ∈ withDigests functions values := by
  constructor <;> exact List.mem_flatMap.mpr ⟨value, member, by simp⟩

/-- A value that is drawn was never seen, and neither was its digest. -/
theorem new_of_fresh (fresh : (beacon functions).fresh values db = true) {value : String}
    (member : value ∈ values) : value ∉ db.seen ∧ functions.digest value ∉ db.seen := by
  obtain ⟨inside, insideDigest⟩ := mem_withDigests functions member
  exact ⟨(fresh_iff.mp fresh).2 _ inside, (fresh_iff.mp fresh).2 _ insideDigest⟩

theorem note_shrinks (values : List String) : Shrinks db ((beacon functions).note values db) :=
  .of_same rfl rfl rfl (fun _ _ owned => owned) (fun _ member => List.mem_append_right _ member)
    (List.append_nil _).symm fun _ member => absurd member List.not_mem_nil

/-! ### Rows that are locked -/

theorem installation_same {installation : String} {mode : Mode}
    (allowed : Allowed (beacon functions) (accessLogic functions) held db next)
    (locked : ⟨.installation installation, mode⟩ ∈ held) :
    next.installations.lookup installation = db.installations.lookup installation :=
  (of_decide_eq_true (allowed.same _ locked)).symm

theorem code_same {digest : String} {mode : Mode}
    (allowed : Allowed (beacon functions) (accessLogic functions) held db next)
    (locked : ⟨.code digest, mode⟩ ∈ held) : next.codes.lookup digest = db.codes.lookup digest :=
  (of_decide_eq_true (allowed.same _ locked)).symm

theorem grant_same {grant : String} {mode : Mode}
    (allowed : Allowed (beacon functions) (accessLogic functions) held db next)
    (locked : ⟨.grant grant, mode⟩ ∈ held) : next.grants.lookup grant = db.grants.lookup grant :=
  (of_decide_eq_true (allowed.same _ locked)).symm

theorem token_same {digest : String} {mode : Mode}
    (allowed : Allowed (beacon functions) (accessLogic functions) held db next)
    (locked : ⟨.token digest, mode⟩ ∈ held) : next.tokens.lookup digest = db.tokens.lookup digest :=
  (of_decide_eq_true (allowed.same _ locked)).symm

/-- What was presented stays known. -/
theorem stable_seen (value : String) :
    Stable (beacon functions) (accessLogic functions) held fun db => value ∈ db.seen :=
  fun _ _ _ allowed seen => allowed.evolves.seen value seen

theorem owner_same {installation : String} {mode : Mode}
    (allowed : Allowed (beacon functions) (accessLogic functions) held db next)
    (locked : ⟨.installation installation, mode⟩ ∈ held) :
    next.owner installation = db.owner installation := by
  rw [Database.owner, Database.owner, installation_same allowed locked]

/-! ### Programs that add nothing -/

/-- Every effect of a program only removes. -/
abbrev OnlyShrinks (program : Program) : Prop :=
  Everywhere (fun effect => ∀ db, Shrinks db (effect db)) program

theorem OnlyShrinks.guarded (only : OnlyShrinks program) {drawn : List String} :
    Guarded (beacon functions) (accessLogic functions) program held drawn fun _ => True :=
  guarded_everywhere only fun effect shrinks db values sound _ => by
    have removed := (note_shrinks values).trans (shrinks ((beacon functions).note values db))
    exact ⟨Sound.shrinks sound removed, removed.forward⟩

theorem onlyShrinks_refuse : OnlyShrinks Program.refuse := Shrinks.refl

theorem Shrinks.insertClaim {device : String} {claim : DeviceClaim}
    (inserted : db.insertClaim device claim = some next) : Shrinks db next := by
  unfold Database.insertClaim at inserted
  dsimp only at inserted
  split at inserted
  · cases inserted
  · obtain rfl := Option.some.inj inserted
    exact .of_same rfl rfl rfl (fun _ _ owned => owned) (fun _ member => member) rfl
      fun event member => by
        rw [List.mem_singleton.mp member]
        rfl

/-- An installation that keeps its owner. -/
theorem Shrinks.changeInstallation {change : Installation → Installation}
    (same : ∀ row, (change row).owner = row.owner) (installation : String) :
    Shrinks db (db.changeInstallation installation change) :=
  .of_same rfl rfl rfl (fun other _ owned => (owner_kept same installation other).trans owned)
    (fun _ member => member) (List.append_nil _).symm fun _ member => absurd member List.not_mem_nil

theorem Shrinks.changeClaim (device : String) (change : DeviceClaim → DeviceClaim) :
    Shrinks db (db.changeClaim device change) :=
  .of_same rfl rfl rfl (fun _ _ owned => owned) (fun _ member => member) (List.append_nil _).symm
    fun _ member => absurd member List.not_mem_nil

theorem onlyShrinks_lockConfirmedOwner {installation owner : String}
    (only : OnlyShrinks program) :
    OnlyShrinks (Program.lockConfirmedOwner installation owner program) := by
  intro db
  dsimp only
  split
  · exact only
  · exact onlyShrinks_refuse

theorem onlyShrinks_rotateToken (installation previous token : String) :
    OnlyShrinks (Program.rotateToken functions installation previous token) := by
  unfold Program.rotateToken
  split
  · exact onlyShrinks_refuse
  · intro db
    dsimp only
    split
    · exact onlyShrinks_refuse
    · split
      · exact onlyShrinks_refuse
      · intro db
        have changed : Shrinks db (db.changeInstallation installation fun row => { row with
            tokenDigest := functions.digest token
            recoveryDigest := none }) := by
          refine Shrinks.changeInstallation ?_ installation
          exact fun row => rfl
        exact (changed.trans (Shrinks.deleteDeviceClaims _)).trans (Shrinks.record rfl)

theorem onlyShrinks_startDevice (now : Nat) (name : String) (protocol : Nat)
    (identity : Option MachineIdentity) (code : String) :
    OnlyShrinks (Program.startDevice functions now name protocol identity code) := by
  have inserted : ∀ (db : Database) (device : String) (claim : DeviceClaim),
      Shrinks db ((db.insertClaim device claim).getD db) := by
    intro db device claim
    cases result : db.insertClaim device claim with
    | none => exact Shrinks.refl db
    | some next => exact Shrinks.insertClaim result
  unfold Program.startDevice
  split
  · exact onlyShrinks_refuse
  · split
    · exact fun installation device db => inserted db _ _
    · rename_i identity
      intro db
      dsimp only
      split
      · exact onlyShrinks_refuse
      · split
        · exact onlyShrinks_refuse
        · intro device db
          have changed : Shrinks db (db.changeInstallation identity.installationId fun row =>
              { row with recoveryDigest := some (functions.digest identity.token) }) := by
            refine Shrinks.changeInstallation ?_ identity.installationId
            exact fun row => rfl
          unfold Program.recover
          dsimp only
          generalize (db.changeInstallation identity.installationId fun row =>
            { row with recoveryDigest := some (functions.digest identity.token) }) = recovered at changed
          cases result : recovered.insertClaim (functions.digest device)
              (Program.newClaim functions now identity.installationId _ code true) with
          | none => exact Shrinks.refl db
          | some next => exact changed.trans (Shrinks.insertClaim result)

theorem onlyShrinks_previewDevice (now : Nat) (account code : String) :
    OnlyShrinks (Program.previewDevice functions now account code) := by
  intro db
  dsimp only
  split
  · exact onlyShrinks_refuse
  · split
    · intro db
      dsimp only
      split
      · exact fun confirmation db => (Shrinks.changeClaim _ _).trans (Shrinks.record rfl)
      · exact onlyShrinks_refuse
    · exact onlyShrinks_refuse

theorem onlyShrinks_approveDevice (now : Nat) (account code : String) (confirmation : Option String) :
    OnlyShrinks (Program.approveDevice functions now account code confirmation) := by
  unfold Program.approveDevice
  split
  · exact onlyShrinks_refuse
  · intro db
    dsimp only
    split
    · exact onlyShrinks_refuse
    · exact fun db => (Shrinks.changeClaim _ _).trans (Shrinks.record rfl)

theorem onlyShrinks_revokeToken (token clientId : String) :
    OnlyShrinks (Program.revokeToken functions token clientId) := by
  intro db
  dsimp only
  split
  · exact Shrinks.refl db
  · exact Shrinks.revoke _ _

theorem onlyShrinks_revoke (installation grant account : String) :
    OnlyShrinks (Program.revoke installation grant account) := by
  intro db
  dsimp only
  split
  · exact fun db => Shrinks.revoke _ _
  · exact onlyShrinks_refuse

/-! ### Claims -/

/-- Nothing belongs to an installation that nobody owns. -/
theorem Sound.apart {installation : String} (sound : Sound functions db)
    (unowned : db.owner installation = none) :
    (∀ digest row, db.codes.lookup digest = some row → row.installation ≠ installation) ∧
      ∀ id row, db.grants.lookup id = some row → row.installation ≠ installation := by
  constructor
  · intro digest row found same
    have owned := (sound.codes digest row found).2.2
    rw [same, unowned] at owned
    cases owned
  · intro id row found same
    have owned := (sound.grants id row found).2.2
    rw [same, unowned] at owned
    cases owned

theorem guarded_claim (now : Nat) (code name : String) (protocol : Nat) :
    Guarded (beacon functions) (accessLogic functions)
      (Program.claim functions now code name protocol) held [] fun _ => True := by
  unfold Program.claim
  cases claimName name protocol with
  | none => exact onlyShrinks_refuse.guarded
  | some chosen =>
      intro db _ _
      refine ⟨fun _ => True, trivial, stable_true, ?_⟩
      dsimp only
      split
      · exact onlyShrinks_refuse.guarded
      · rename_i row _
        intro installation token db sound _ fresh
        have new := (new_of_fresh fresh (List.mem_cons_self : installation ∈ [installation, token])).1
        have noted : Shrinks db ((beacon functions).note [installation, token] db) := note_shrinks [installation, token]
        have removed : Shrinks ((beacon functions).note [installation, token] db)
            ({ (beacon functions).note [installation, token] db with
              claimCodes := ((beacon functions).note [installation, token] db).claimCodes.erase
                (functions.digest code)
              installations := ((beacon functions).note [installation, token] db).installations.insert
                installation ⟨some row.account, chosen, functions.digest token, none⟩ }.record
              (.claimed (functions.digest code) installation row.account)) := by
          refine Shrinks.acquire rfl rfl rfl rfl rfl rfl
            (fun digest row found (same : row.installation = installation) =>
              new (same ▸ (sound.codes digest row found).2.1))
            (fun id row found (same : row.installation = installation) =>
              new (same ▸ (sound.grants id row found).2.1))
            fun other different => ?_
          show Option.bind (AList.lookup other (AList.insert installation _ _)) _ = _
          rw [lookup_insert, if_neg different]
          rfl
        exact ⟨Sound.shrinks sound (noted.trans removed), (noted.trans removed).forward⟩

/-- A claim that is collected gives an installation without an owner to the account that approved
it. -/
theorem guarded_collect (now : Nat) (device installation : String) (recovering : Bool)
    (locked : recovering = true → ⟨.installation installation, .exclusive⟩ ∈ held) :
    Guarded (beacon functions) (accessLogic functions)
      (Program.collect functions now device installation recovering) held [] fun db =>
        recovering = true → db.owner installation = none := by
  intro db _ unowned
  refine ⟨fun db => recovering = true → db.owner installation = none, unowned, ?_, ?_⟩
  · intro db next _ allowed unowned recovers
    rw [owner_same allowed (List.mem_append_right _ (locked recovers))]
    exact unowned recovers
  dsimp only
  split
  · exact onlyShrinks_refuse.guarded.weaken fun _ _ => trivial
  split
  · exact onlyShrinks_refuse.guarded.weaken fun _ _ => trivial
  rename_i claim _ _ owner _
  intro token db sound unowned fresh
  have noted : Shrinks db ((beacon functions).note [token] db) := note_shrinks [token]
  suffices Shrinks ((beacon functions).note [token] db) (Program.deliver functions now device
      { claim with installation, recovering } owner token ((beacon functions).note [token] db)) from
    ⟨Sound.shrinks sound (noted.trans this), (noted.trans this).forward⟩
  have apart : db.owner installation = none →
      (∀ digest row, db.codes.lookup digest = some row → row.installation ≠ installation) ∧
        ∀ id row, db.grants.lookup id = some row → row.installation ≠ installation :=
    Sound.apart sound
  unfold Program.deliver
  dsimp only
  split
  · rename_i recovers
    obtain ⟨codes, grants⟩ := apart (unowned recovers)
    refine Shrinks.acquire rfl rfl rfl rfl rfl rfl codes grants fun other different => ?_
    exact (owner_changeInstallation _ installation other).trans (if_neg different)
  · split
    · exact Shrinks.refl _
    · rename_i absent
      have none : db.owner installation = none := by
        have gone : db.installations.lookup installation = Option.none :=
          Option.not_isSome_iff_eq_none.mp absent
        rw [Database.owner, gone]
        rfl
      obtain ⟨codes, grants⟩ := apart none
      refine Shrinks.acquire rfl rfl rfl rfl rfl rfl codes grants fun other different => ?_
      show Option.bind (AList.lookup other (AList.insert installation _ _)) _ = _
      rw [lookup_insert, if_neg different]
      rfl

theorem guarded_pollDevice (now : Nat) (deviceCode : String) :
    Guarded (beacon functions) (accessLogic functions) (Program.pollDevice functions now deviceCode)
      [] [] fun _ => True := by
  intro db _ _
  refine ⟨fun _ => True, trivial, stable_true, ?_⟩
  dsimp only
  split
  · exact onlyShrinks_refuse.guarded
  rename_i claim _
  split
  · intro db _ _
    by_cases present : db.installations.lookup claim.installation = none
    · refine ⟨fun _ => True, trivial, stable_true, ?_⟩
      simp only [present, Option.any_none, Bool.false_eq_true, if_false]
      exact onlyShrinks_refuse.guarded
    · dsimp only
      rw [if_neg present]
      by_cases free : (db.installations.lookup claim.installation).any fun row => row.owner.isNone
      · refine ⟨fun db => db.owner claim.installation = none, ?_, ?_, ?_⟩
        · obtain ⟨row, found, unowned⟩ := Option.any_eq_true _ _ |>.mp free
          rw [Database.owner, found]
          exact Option.isNone_iff_eq_none.mp unowned
        · intro db next _ allowed unowned
          rwa [owner_same allowed (List.mem_append_left _ (List.mem_singleton_self _))]
        · rw [if_pos free]
          exact (guarded_collect now _ _ true fun _ =>
            List.mem_append_left _ (List.mem_singleton_self _)).weaken fun _ unowned _ => unowned
      · refine ⟨fun _ => True, trivial, stable_true, ?_⟩
        rw [if_neg free]
        exact onlyShrinks_refuse.guarded
  · exact (guarded_collect now _ _ false fun impossible => by cases impossible).weaken
      fun _ _ impossible => by cases impossible

/-! ### Consents -/

/-- What is done under the lock of the owner. -/
theorem guarded_lockConfirmedOwner {installation owner : String}
    (stable : ∀ held, Stable (beacon functions) (accessLogic functions) held known)
    (guarded : Guarded (beacon functions) (accessLogic functions) program
      [⟨.installation installation, .exclusive⟩] [] fun db =>
        known db ∧ db.owner installation = some owner) :
    Guarded (beacon functions) (accessLogic functions)
      (Program.lockConfirmedOwner installation owner program) [] [] known := by
  intro db _ knows
  dsimp only
  by_cases owned : db.owner installation = some owner
  · rw [if_pos owned, if_pos owned]
    refine ⟨fun db => known db ∧ db.owner installation = some owner, ⟨knows, owned⟩, ?_, guarded⟩
    refine (stable _).and fun db next _ allowed owned => ?_
    rwa [owner_same allowed (List.mem_append_left _ (List.mem_singleton_self _))]
  · rw [if_neg owned, if_neg owned]
    exact ⟨fun _ => True, trivial, stable_true, onlyShrinks_refuse.guarded⟩

theorem guarded_personal (now : Nat) (installation account label : String) (scopes : List String) :
    Guarded (beacon functions) (accessLogic functions)
      (Program.personal functions now installation account label scopes) [] []
      fun db => installation ∈ db.seen := by
  unfold Program.personal
  dsimp only
  split
  · exact onlyShrinks_refuse.guarded.weaken fun _ _ => trivial
  refine guarded_lockConfirmedOwner (fun _ => stable_seen _) ?_
  intro id token db sound both fresh
  obtain ⟨seen, owned⟩ := both
  have newId := (new_of_fresh fresh (List.mem_cons_self : id ∈ [id, token])).1
  have newToken := (new_of_fresh fresh
    (List.mem_cons_of_mem _ (List.mem_singleton_self token) : token ∈ [id, token])).2
  have inside := (mem_withDigests functions
    (List.mem_cons_self : id ∈ [id, token])).1
  have insideToken := (mem_withDigests functions
    (List.mem_cons_of_mem _ (List.mem_singleton_self token) : token ∈ [id, token])).2
  refine ⟨Sound.personal sound newId newToken ⟨inside, insideToken⟩ rfl rfl rfl seen owned,
    fun value member => List.mem_append_right _ member, ⟨[_], rfl, ?_⟩,
    fun other member gone => ?_, fun other member gone => ?_⟩
  · intro event last other known _ serves
    rw [List.mem_singleton.mp last] at serves
    obtain rfl : id = other := serves
    exact newId known
  · show AList.lookup other (AList.insert id _ _) = none
    rw [lookup_insert, if_neg]
    · exact gone
    · rintro rfl
      exact newId member
  · show AList.lookup other (AList.insert (functions.digest token) _ _) = none
    rw [lookup_insert, if_neg]
    · exact gone
    · rintro rfl
      exact newToken member

theorem guarded_consent (now : Nat) (installation account : String) (request : AuthorizationRequest) :
    Guarded (beacon functions) (accessLogic functions)
      (Program.consent functions now installation account request) [] []
      fun db => installation ∈ db.seen := by
  intro db _ seen
  refine ⟨fun db => installation ∈ db.seen, seen, stable_seen _, ?_⟩
  dsimp only
  split
  · exact onlyShrinks_refuse.guarded.weaken fun _ _ => trivial
  rename_i scopes _
  refine guarded_lockConfirmedOwner (fun _ => stable_seen _) ?_
  intro db _ both
  refine ⟨fun db => installation ∈ db.seen ∧ db.owner installation = some account, both, ?_, ?_⟩
  · refine (stable_seen _).and fun db next _ allowed owned => ?_
    rwa [owner_same allowed (List.mem_append_right _ (List.mem_singleton_self _))]
  dsimp only
  split
  · exact onlyShrinks_refuse.guarded.weaken fun _ _ => trivial
  intro code db sound both fresh
  obtain ⟨seen, owned⟩ := both
  have new := (new_of_fresh fresh (List.mem_singleton_self code)).2
  have inside := (mem_withDigests functions (List.mem_singleton_self code)).2
  have cleared : Shrinks db (db.deleteCodes fun code => code.grant.isNone && code.expiresAt ≤ now) :=
    Shrinks.deleteCodes _
  refine ⟨Sound.consent (Sound.shrinks sound cleared) new inside rfl seen owned,
    fun value member => List.mem_append_right _ member, ⟨[_], rfl, ?_⟩,
    fun _ _ gone => gone, fun _ _ gone => gone⟩
  intro event last other _ _ serves
  rw [List.mem_singleton.mp last] at serves
  exact serves

/-! ### Exchanges -/

/-- The three values of an exchange are new, with their digests. -/
theorem new_tokens {first access refresh : String}
    (fresh : (beacon functions).fresh [first, access, refresh] db = true) :
    (first ∉ db.seen ∧ functions.digest access ∉ db.seen ∧ functions.digest refresh ∉ db.seen) ∧
      first ∈ withDigests functions [first, access, refresh] ∧
      functions.digest access ∈ withDigests functions [first, access, refresh] ∧
      functions.digest refresh ∈ withDigests functions [first, access, refresh] := by
  have one : first ∈ [first, access, refresh] := by simp
  have two : access ∈ [first, access, refresh] := by simp
  have three : refresh ∈ [first, access, refresh] := by simp
  exact ⟨⟨(new_of_fresh fresh one).1, (new_of_fresh fresh two).2, (new_of_fresh fresh three).2⟩,
    (mem_withDigests functions one).1, (mem_withDigests functions two).2,
    (mem_withDigests functions three).2⟩

/-- Two new tokens bring back none that is gone. -/
theorem gone_insert {tokens : HashMap String Token} {access refresh digest : String}
    {accessToken refreshToken : Token} (notAccess : digest ≠ access) (notRefresh : digest ≠ refresh)
    (gone : tokens.lookup digest = none) :
    ((tokens.insert access accessToken).insert refresh refreshToken).lookup digest = none := by
  rw [lookup_insert, if_neg notRefresh, lookup_insert, if_neg notAccess, gone]

/-- The exchange of a code that is locked. -/
theorem guarded_redeem (now : Nat) (request : TokenRequest) (code : Code) (label : String) :
    Guarded (beacon functions) (accessLogic functions)
      (Program.redeem functions now request code label) held [] fun db =>
        code.grant = none → db.codes.lookup (functions.digest request.code) = some code := by
  unfold Program.redeem
  split
  · have only : OnlyShrinks (Program.invalidGrant request) := fun db => Shrinks.answer request
    exact only.guarded.weaken fun _ _ => trivial
  rename_i matching
  have matches' : codeMatches functions request code = true := by simpa using matching
  split
  · rename_i grant used
    have only : OnlyShrinks (.finish (Database.replay request grant)) := fun db =>
      Shrinks.replay request grant
    exact only.guarded.weaken fun _ _ => trivial
  rename_i unused
  intro grant access refresh db sound locked fresh
  obtain ⟨⟨newGrant, newAccess, newRefresh⟩, isGrant, isAccess, isRefresh⟩ := new_tokens fresh
  have answered : Sound functions (db.answer request) := Sound.shrinks sound (Shrinks.answer request)
  have exchanged : Sound functions { db.answer request with
      seen := withDigests functions [grant, access, refresh] ++ db.seen
      grants := db.grants.insert grant
        ⟨code.account, code.installation, some code.client, label, code.scopes, now + days 30⟩
      codes := modify (functions.digest request.code) (fun code => { code with grant := some grant })
        db.codes
      tokens := (db.tokens.insert (functions.digest access)
        ⟨grant, .access, code.scopes, false, now + minutes 60⟩).insert (functions.digest refresh)
        ⟨grant, .refresh, code.scopes, false, now + days 30⟩
      log := (db.answer request).log ++ [.issued (.code (functions.digest request.code)) grant
        (functions.digest access) (functions.digest refresh) code.scopes request] } := by
    refine Sound.redeem answered newAccess newRefresh ⟨isAccess, isRefresh⟩ ?_ ?_ (locked unused)
      unused rfl matches' rfl newGrant isGrant ?_
    all_goals exact ⟨rfl, rfl, rfl⟩
  refine ⟨exchanged,
    fun value member => List.mem_append_right _ member, ?_, fun other member gone => ?_,
    fun other member gone => gone_insert ?_ ?_ gone⟩
  · refine ⟨[_, _], List.append_assoc db.log [_] [_], fun event member other known gone serves => ?_⟩
    rcases List.mem_cons.mp member with rfl | last
    · exact serves
    · rw [List.mem_singleton.mp last] at serves
      obtain rfl : grant = other := serves
      exact newGrant known
  · show AList.lookup other (AList.insert grant _ _) = none
    rw [lookup_insert, if_neg]
    · exact gone
    · rintro rfl
      exact newGrant member
  · rintro rfl
    exact newAccess member
  · rintro rfl
    exact newRefresh member

theorem guarded_exchangeCode (now : Nat) (request : TokenRequest) :
    Guarded (beacon functions) (accessLogic functions) (Program.exchangeCode functions now request)
      [] [] fun _ => True := by
  intro db _ _
  dsimp only
  cases unused : unusedCode now (functions.digest request.code) db with
  | some found =>
      obtain ⟨code, client⟩ := found
      have held : db.codes.lookup (functions.digest request.code) = some code := by
        unfold unusedCode at unused
        split at unused
        · cases unused
        · rename_i other isOther
          obtain ⟨client', -, same⟩ := Option.map_eq_some_iff.mp unused
          obtain ⟨rfl, rfl⟩ := Prod.mk.inj same
          exact (Option.filter_eq_some_iff.mp isOther).1
      refine ⟨fun db => db.codes.lookup (functions.digest request.code) = some code, held, ?_, ?_⟩
      · intro db next _ allowed held
        rwa [code_same allowed (List.mem_append_left _ List.mem_cons_self)]
      · exact (guarded_redeem now request code client.name).weaken fun _ held _ => held
  | none =>
      refine ⟨fun _ => True, trivial, stable_true, ?_⟩
      intro db _ _
      refine ⟨fun _ => True, trivial, stable_true, ?_⟩
      dsimp only
      split
      · have only : OnlyShrinks (Program.invalidGrant request) := fun db => Shrinks.answer request
        exact only.guarded
      · rename_i code grant used
        have isUsed : code.grant ≠ none := by
          unfold usedCode at used
          split at used
          · cases used
          · obtain ⟨other, isOther, same⟩ := Option.map_eq_some_iff.mp used
            obtain ⟨rfl, rfl⟩ := Prod.mk.inj same
            intro unused
            rw [unused] at isOther
            cases isOther
        exact (guarded_redeem now request code "").weaken fun _ _ unused => absurd unused isUsed

theorem narrowed_subset {scope : String} {scopes fewer : List String}
    (isNarrowed : narrowed scope scopes = some fewer) : fewer ⊆ scopes := by
  unfold narrowed at isNarrowed
  split at isNarrowed
  · obtain rfl := Option.some.inj isNarrowed
    exact List.Subset.refl _
  · obtain ⟨same, kept⟩ := Option.filter_eq_some_iff.mp isNarrowed
    obtain rfl := Option.some.inj same
    intro word member
    simp only [Bool.and_eq_true, List.all_eq_true, decide_eq_true_eq] at kept
    exact kept.2 word member

theorem guarded_exchangeRefresh (now : Nat) (request : TokenRequest) :
    Guarded (beacon functions) (accessLogic functions) (Program.exchangeRefresh functions now request)
      [] [] fun _ => True := by
  have invalid : ∀ {held : List (Lock Row)}, Guarded (beacon functions) (accessLogic functions)
      (Program.invalidGrant request) held [] fun _ => True := by
    intro held
    have only : OnlyShrinks (Program.invalidGrant request) := fun db => Shrinks.answer request
    exact only.guarded
  intro db _ _
  dsimp only
  cases found : refreshable now (functions.digest request.refreshToken) db with
  | none => exact ⟨fun _ => True, trivial, stable_true, invalid⟩
  | some pair =>
  obtain ⟨token, grant⟩ := pair
  obtain ⟨isToken, kind, granted⟩ :
      db.tokens.lookup (functions.digest request.refreshToken) = some token ∧
        token.kind = .refresh ∧ db.grants.lookup token.grant = some grant := by
    unfold refreshable at found
    split at found
    · cases found
    · rename_i other isOther
      obtain ⟨row, isLive, same⟩ := Option.map_eq_some_iff.mp found
      obtain ⟨rfl, rfl⟩ := Prod.mk.inj same
      obtain ⟨isToken, meets⟩ := Option.filter_eq_some_iff.mp isOther
      simp only [Bool.and_eq_true, decide_eq_true_eq] at meets
      exact ⟨isToken, meets.1, (Option.filter_eq_some_iff.mp isLive).1⟩
  refine ⟨fun db => db.tokens.lookup (functions.digest request.refreshToken) = some token ∧
    db.grants.lookup token.grant = some grant, ⟨isToken, granted⟩, ?_, ?_⟩
  · refine Stable.and (fun db next _ allowed held => ?_) fun db next _ allowed held => ?_
    · rwa [token_same allowed (List.mem_append_left _
        (List.mem_cons_of_mem _ List.mem_cons_self))]
    · rwa [grant_same allowed (List.mem_append_left _ List.mem_cons_self)]
  dsimp only
  split
  · exact invalid.weaken fun _ _ => trivial
  rename_i accepted
  have client : grant.client = some request.clientId := by
    by_contra other
    exact accepted (by simp [other])
  split
  · have only : OnlyShrinks (.finish (Database.replay request token.grant)) := fun db =>
      Shrinks.replay request token.grant
    exact only.guarded.weaken fun _ _ => trivial
  rename_i unused
  split
  · exact invalid.weaken fun _ _ => trivial
  rename_i scopes isNarrowed
  intro access refresh db sound locked fresh
  have newAccess := (new_of_fresh fresh (List.mem_cons_self : access ∈ [access, refresh])).2
  have newRefresh := (new_of_fresh fresh
    (List.mem_cons_of_mem _ (List.mem_singleton_self refresh) : refresh ∈ [access, refresh])).2
  have isAccess := (mem_withDigests functions
    (List.mem_cons_self : access ∈ [access, refresh])).2
  have isRefresh := (mem_withDigests functions
    (List.mem_cons_of_mem _ (List.mem_singleton_self refresh) : refresh ∈ [access, refresh])).2
  have answered : Sound functions (db.answer request) := Sound.shrinks sound (Shrinks.answer request)
  have exchanged : Sound functions { db.answer request with
      seen := withDigests functions [access, refresh] ++ db.seen
      tokens := ((modify (functions.digest request.refreshToken)
        (fun token => { token with used := true }) db.tokens).insert (functions.digest access)
        ⟨token.grant, .access, scopes, false, now + minutes 60⟩).insert (functions.digest refresh)
        ⟨token.grant, .refresh, scopes, false, now + days 30⟩
      grants := modify token.grant
        (fun row => { row with scopes := scopes, expiresAt := now + days 30 }) db.grants
      log := (db.answer request).log ++ [.issued (.refresh (functions.digest request.refreshToken))
        token.grant (functions.digest access) (functions.digest refresh) scopes request] } := by
    refine Sound.renew answered newAccess newRefresh ⟨isAccess, isRefresh⟩ ?_ ?_ locked.1 kind
      (Bool.eq_false_iff.mpr unused) locked.2 rfl client (narrowed_subset isNarrowed) ?_ ?_
    · exact ⟨rfl, rfl, rfl⟩
    · exact ⟨rfl, rfl, rfl⟩
    · rfl
    · exact fun row => ⟨rfl, rfl, rfl⟩
  refine ⟨exchanged,
    fun value member => List.mem_append_right _ member, ?_, fun other member gone => ?_,
    fun other member gone => gone_insert ?_ ?_ ?_⟩
  · refine ⟨[_, _], List.append_assoc db.log [_] [_], fun event member other _ gone serves => ?_⟩
    rcases List.mem_cons.mp member with rfl | last
    · exact serves
    · rw [List.mem_singleton.mp last] at serves
      obtain rfl : token.grant = other := serves
      rw [locked.2] at gone
      cases gone
  · show AList.lookup other (modify token.grant _ _) = none
    rw [lookup_modify]
    split
    · rename_i same
      rw [same] at gone
      exact Option.map_eq_none_iff.mpr gone
    · exact gone
  · rintro rfl
    exact newAccess member
  · rintro rfl
    exact newRefresh member
  · rw [lookup_modify]
    split
    · rename_i same
      rw [same] at gone
      exact Option.map_eq_none_iff.mpr gone
    · exact gone

/-! ### Every interleaving -/

theorem guarded_operation (operation : Operation) (now : Nat) :
    Guarded (beacon functions) (accessLogic functions) (operation.program functions now) [] []
      fun db => ∀ value ∈ operation.presents, value ∈ db.seen := by
  have only : ∀ {program : Program}, OnlyShrinks program → Guarded (beacon functions)
      (accessLogic functions) program [] [] fun db => ∀ value ∈ operation.presents, value ∈ db.seen :=
    fun shrinks => shrinks.guarded.weaken fun _ _ => trivial
  cases operation with
  | claimCode account =>
      refine only fun code db => ?_
      have added : Shrinks db { db with
          claimCodes := db.claimCodes.insert (functions.digest code) ⟨account, now + minutes 10⟩ } :=
        .of_same rfl rfl rfl (fun _ _ owned => owned) (fun _ member => member)
          (List.append_nil _).symm fun _ member => absurd member List.not_mem_nil
      exact added.trans (Shrinks.record rfl)
  | claim code name protocol => exact (guarded_claim now code name protocol).weaken fun _ _ => trivial
  | forget installation account => exact only (onlyShrinks_lockConfirmedOwner fun db =>
      Shrinks.forget installation account)
  | detach installation account => exact only (onlyShrinks_lockConfirmedOwner fun db =>
      Shrinks.detachOn installation account)
  | deleteAccount account => exact only fun db db => Shrinks.deleteAccount account
  | rotateToken installation previous token =>
      exact only (onlyShrinks_rotateToken installation previous token)
  | startDevice name protocol identity code =>
      exact only (onlyShrinks_startDevice now name protocol identity code)
  | previewDevice account code => exact only (onlyShrinks_previewDevice now account code)
  | approveDevice account code confirmation =>
      exact only (onlyShrinks_approveDevice now account code confirmation)
  | pollDevice deviceCode => exact (guarded_pollDevice now deviceCode).weaken fun _ _ => trivial
  | register name redirectUris =>
      exact only fun id db => .of_same rfl rfl rfl (fun _ _ owned => owned)
        (fun _ member => member) (List.append_nil _).symm fun _ member =>
          absurd member List.not_mem_nil
  | personal installation account label scopes =>
      exact (guarded_personal now installation account label scopes).weaken fun _ presented =>
        presented installation (List.mem_singleton_self _)
  | consent installation account request =>
      exact (guarded_consent now installation account request).weaken fun _ presented =>
        presented installation List.mem_cons_self
  | exchange request =>
      show Guarded _ _ (Program.exchangeTokens functions now request) _ _ _
      unfold Program.exchangeTokens
      split
      · exact (guarded_exchangeCode now request).weaken fun _ _ => trivial
      split
      · exact (guarded_exchangeRefresh now request).weaken fun _ _ => trivial
      · exact only fun db => Shrinks.answer request
  | revoke installation grant account => exact only (onlyShrinks_revoke installation grant account)
  | revokeToken token clientId => exact only (onlyShrinks_revokeToken token clientId)
  | cleanup => exact only fun db => Shrinks.cleanup now

/-- Every request keeps the history sound. -/
theorem access_verified (functions : Functions) :
    Verified (beacon functions) (accessLogic functions) where
  refl db _ := Forward.refl db
  receive operation db sound := by
    have presented : Shrinks db ((beacon functions).receive operation db) :=
      .of_same rfl rfl rfl (fun _ _ owned => owned) (fun _ member => List.mem_append_right _ member)
        (List.append_nil _).symm fun _ member => absurd member List.not_mem_nil
    exact ⟨Sound.shrinks sound presented, presented.forward, fun row => by cases row <;> simp [beacon, Row.same]⟩
  tick db sound := by
    have ticked : Shrinks db ((beacon functions).tick db) :=
      .of_same rfl rfl rfl (fun _ _ owned => owned) (fun _ member => member)
        (List.append_nil _).symm fun _ member => absurd member List.not_mem_nil
    exact ⟨Sound.shrinks sound ticked, ticked.forward, fun row => by cases row <;> simp [beacon, Row.same]⟩
  program operation db _ := by
    refine ⟨fun db => ∀ value ∈ operation.presents, value ∈ db.seen, fun value member => ?_, ?_,
      guarded_operation operation db.clock⟩
    · exact List.mem_append_left _ (mem_withDigests functions member).1
    · exact fun db next _ allowed presented value member =>
        allowed.evolves.seen value (presented value member)

theorem sound_empty (functions : Functions) : Sound functions .empty where
  legal := legal_nil
  drawn event member := absurd member List.not_mem_nil
  served event member := absurd member List.not_mem_nil
  codes digest row found := by cases found
  unused digest row found := by cases found
  codeGrants digest row grant found := by cases found
  grants id row found := by cases found
  tokens digest token found := by cases found
  unspent digest token found := by cases found
  revoked grant member := absurd member List.not_mem_nil
  released before after installation owner split := by cases before <;> cases split

end Cairn.Beacon

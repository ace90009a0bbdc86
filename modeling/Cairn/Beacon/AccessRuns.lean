import Cairn.Beacon.AccessSafety

/-!
Owns what holds of MCP access after every run of the beacon: what may be issued, where an admitted
access comes from, that access which has ended does not come back, and that the replay of a code or
of a refresh token ends it.

Does not own the invariant behind it.
-/

set_option autoImplicit false

namespace Cairn.Beacon

open Cairn.Library.HashMaps Cairn.Library.Histories Cairn.Library.RowLocks Cairn.Library.Steps

variable {functions : Functions} {world final : World Database Row String} {id : String}
  {steps : List (Step String Operation)}

/-- A world that requests lead to, from empty tables on. -/
def Reached (functions : Functions) (world : World Database Row String) : Prop :=
  ∃ steps, execute (World.step (beacon functions)) ⟨.empty, ∅⟩ steps = some world

/-- What no run makes of a grant anymore: a row, an access, a refresh, or tokens. -/
structure NoMore (id : String) (world final : World Database Row String) : Prop where
  gone : final.db.grants.lookup id = none
  access : ∀ now digest found, access now digest final.db = some found → found.id ≠ id
  refresh : ∀ now digest token row, refreshable now digest final.db = some (token, row) →
    token.grant ≠ id
  issued : ∃ extra, final.db.log = world.db.log ++ extra ∧ ∀ event ∈ extra, ¬ event.serves id

/-- Access has ended for good. -/
def Ended (functions : Functions) (id : String) (world : World Database Row String) : Prop :=
  ∀ steps final, execute (World.step (beacon functions)) world steps = some final →
    NoMore id world final

theorem Reached.holds (reached : Reached functions world) :
    world.Holds (beacon functions) (accessLogic functions) := by
  obtain ⟨steps, executed⟩ := reached
  exact run_holds (access_verified functions) (holds_idle (sound_empty functions)) executed

theorem Reached.sound (reached : Reached functions world) : Sound functions world.db :=
  reached.holds.inv

theorem Reached.run (reached : Reached functions world)
    (executed : execute (World.step (beacon functions)) world steps = some final) :
    Reached functions final := by
  obtain ⟨earlier, executedEarlier⟩ := reached
  exact ⟨earlier ++ steps, execute_append.mpr ⟨world, executedEarlier, executed⟩⟩

theorem Reached.forward (reached : Reached functions world)
    (executed : execute (World.step (beacon functions)) world steps = some final) :
    Forward world.db final.db :=
  run_evolves (access_verified functions) (fun _ _ _ => Forward.trans) reached.holds executed

/-! ### Grants that are gone -/

/-- The grant of an admitted access has a row. -/
theorem granted_of_live {now : Nat} {db : Database} {row : Grant}
    (live : liveGrant now id db = some row) : db.grants.lookup id = some row :=
  (Option.filter_eq_some_iff.mp live).1

theorem access_iff {now : Nat} {digest : String} {db : Database} {found : McpAccess} :
    access now digest db = some found ↔ ∃ token row, db.tokens.lookup digest = some token ∧
      (token.kind = .access ∧ token.used = false ∧ now < token.expiresAt) ∧
      liveGrant now token.grant db = some row ∧
      found = ⟨token.grant, row.account, row.installation, token.scopes⟩ := by
  unfold access
  constructor
  · intro admitted
    split at admitted
    · cases admitted
    · rename_i token isToken
      obtain ⟨held, meets⟩ := Option.filter_eq_some_iff.mp isToken
      obtain ⟨row, live, same⟩ := Option.map_eq_some_iff.mp admitted
      simp only [Bool.and_eq_true, decide_eq_true_eq, Bool.not_eq_true'] at meets
      exact ⟨token, row, held, ⟨meets.1.1, meets.1.2, meets.2⟩, live, same.symm⟩
  · rintro ⟨token, row, held, ⟨kind, unused, unexpired⟩, live, rfl⟩
    simp [held, Option.filter, kind, unused, unexpired, live]

theorem refreshable_iff {now : Nat} {digest : String} {db : Database} {token : Token} {row : Grant} :
    refreshable now digest db = some (token, row) ↔ db.tokens.lookup digest = some token ∧
      (token.kind = .refresh ∧ now < token.expiresAt) ∧ liveGrant now token.grant db = some row := by
  unfold refreshable
  constructor
  · intro found
    split at found
    · cases found
    · rename_i other isToken
      obtain ⟨held, meets⟩ := Option.filter_eq_some_iff.mp isToken
      obtain ⟨row, live, same⟩ := Option.map_eq_some_iff.mp found
      obtain ⟨rfl, rfl⟩ := Prod.mk.inj same
      simp only [Bool.and_eq_true, decide_eq_true_eq] at meets
      exact ⟨held, meets, live⟩
  · rintro ⟨held, ⟨kind, unexpired⟩, live⟩
    simp [held, Option.filter, kind, unexpired, live]

/-- A known grant without a row stays so, and nothing works for it. -/
theorem Reached.ended (reached : Reached functions world) (known : id ∈ world.db.seen)
    (gone : world.db.grants.lookup id = none) : Ended functions id world := by
  intro steps final executed
  have forward := reached.forward executed
  have goneAfter := forward.grants id known gone
  refine ⟨goneAfter, fun now digest found admitted same => ?_,
    fun now digest token row found same => ?_, ?_⟩
  · obtain ⟨token, row, -, -, live, rfl⟩ := access_iff.mp admitted
    have granted := granted_of_live live
    rw [show token.grant = id from same, goneAfter] at granted
    cases granted
  · have granted := granted_of_live (refreshable_iff.mp found).2.2
    rw [same, goneAfter] at granted
    cases granted
  · obtain ⟨extra, isLog, unserved⟩ := forward.log
    exact ⟨extra, isLog, fun event member => unserved event member id known gone⟩

/-! ### Replays -/

/-- A transaction at its end, with nothing to draw. -/
theorem finish_effect {key : Nat} {values : List String} {effect : Database → Database}
    {held : List (Lock Row)} (running : world.running.lookup key = some ⟨.finish effect, held⟩)
    (finished : world.finish (beacon functions) key values = some final) :
    final.db = effect ((beacon functions).note [] world.db) := by
  obtain ⟨other, found, finished⟩ := Option.bind_eq_some_iff.mp finished
  obtain ⟨concluded, isEffect, finished⟩ := Option.bind_eq_some_iff.mp finished
  obtain ⟨-, isFinal⟩ := Option.ite_none_right_eq_some.mp finished
  rw [running] at found
  obtain rfl := Option.some.inj found
  cases values with
  | nil =>
      obtain rfl := Option.some.inj isEffect
      obtain rfl := Option.some.inj isFinal
      rfl
  | cons value rest => cases isEffect

/-- A statement of a transaction, once it has its locks. -/
theorem select_next {key : Nat} {locks : Database → List (Lock Row)} {next : Database → Program}
    {held : List (Lock Row)} (running : world.running.lookup key = some ⟨.select locks next, held⟩)
    (selected : world.select key = some final) :
    final.db = world.db ∧
      final.running.lookup key = some ⟨next world.db, locks world.db ++ held⟩ := by
  unfold World.select at selected
  rw [running] at selected
  dsimp only at selected
  split at selected
  · obtain rfl := Option.some.inj selected
    exact ⟨rfl, AList.lookup_insert _⟩
  · cases selected

theorem gone_of_replay (request : TokenRequest) (grant : String) (db : Database) :
    (db.replay request grant).grants.lookup grant = none := by
  show AList.lookup grant (retain _ _) = none
  rw [lookup_retain]
  simp

/-- The end of a replay, whatever others did since its statement. -/
theorem Reached.replayed {key : Nat} {values : List String} {held : List (Lock Row)}
    {request : TokenRequest} {grant : String} (reached : Reached functions world)
    (known : grant ∈ world.db.seen)
    (running : world.running.lookup key =
      some ⟨.finish (Database.replay request grant), held⟩)
    (others : ∀ taken ∈ steps, taken.actor ≠ some key)
    (executed : execute (World.step (beacon functions)) world (steps ++ [.finish key values]) =
      some final) : Ended functions grant final := by
  obtain ⟨middle, waited, last⟩ := execute_append.mp executed
  obtain ⟨next, finished, done⟩ := execute_cons.mp last
  obtain rfl := Option.some.inj done
  have stillRunning := (lookup_others others waited).trans running
  have isFinal := finish_effect stillRunning finished
  refine (reached.run executed).ended ?_ ?_
  · exact (reached.forward executed).seen grant known
  · rw [isFinal]
    exact gone_of_replay request grant _

/-! ### Runs of one grant -/

/-- The functions of the beacon, with a challenge that is its verifier. -/
def plain : Functions :=
  ⟨fun value => value ++ "#", fun verifier => verifier, fun code => code,
    fun registered uri => registered == uri, "b"⟩

/-- The shortest verifier. -/
def plainVerifier : String := "aaaaaaaaaaaaaaaaaaaaaaaaaaaaaaaaaaaaaaaaaaa"

def exchangeOfCode : TokenRequest :=
  ⟨"authorization_code", "k", "c", "u", plainVerifier, "", "", ""⟩

def exchangeOfRefresh : TokenRequest := ⟨"refresh_token", "", "c", "", "", "", "r", "read"⟩

/-- An account claims an installation and consents to a client, which exchanges the code. -/
def exchanging : List (Step String Operation) :=
  [.begin 0 (.claimCode "a"), .finish 0 ["q"],
    .begin 0 (.claim "q" "m" 4), .select 0, .finish 0 ["i", "t"],
    .begin 0 (.register "n" ["u"]), .finish 0 ["c"],
    .begin 0 (.consent "i" "a" ⟨"c", "u", "code", "S256", plainVerifier, "", "", "read run"⟩),
    .select 0, .select 0, .select 0, .finish 0 ["k"],
    .begin 0 (.exchange exchangeOfCode), .select 0, .finish 0 ["g", "x", "r"]]

/-- The client has narrowed its scopes by a refresh. -/
def refreshing : List (Step String Operation) :=
  exchanging ++ [.begin 0 (.exchange exchangeOfRefresh), .select 0, .finish 0 ["y", "s"]]

/-- The world after a run of these steps. -/
def plainWorld (steps : List (Step String Operation)) : World Database Row String :=
  (execute (World.step (beacon plain)) ⟨.empty, ∅⟩ steps).getD ⟨.empty, ∅⟩

theorem execute_getD {start : World Database Row String}
    (enabled : (execute (World.step (beacon functions)) start steps).isSome)
    (other : World Database Row String) :
    execute (World.step (beacon functions)) start steps =
      some ((execute (World.step (beacon functions)) start steps).getD other) := by
  obtain ⟨world, executed⟩ := Option.isSome_iff_exists.mp enabled
  rw [executed]
  rfl

theorem reached_plainWorld
    (enabled : (execute (World.step (beacon plain)) ⟨.empty, ∅⟩ steps).isSome) :
    Reached plain (plainWorld steps) :=
  ⟨steps, execute_getD enabled _⟩

theorem reached_refreshing : Reached plain (plainWorld refreshing) :=
  reached_plainWorld (by decide +kernel)

/-! ### What holds after every run -/

/-- Tokens are issued only for a code or a refresh token that was given out before, at most once
each, to its client, and with no scope added. -/
theorem tokens_issued_once (reached : Reached functions world) :
    Legal (Event.Justified functions) world.db.log ∧
      world.db.log.Pairwise fun earlier later =>
        ∀ source, later.issues source → ¬ earlier.issues source := by
  refine ⟨reached.sound.legal, reached.sound.legal.pairwise ?_⟩
  intro before event justified earlier member source issues
  have entitled := justified.entitled
  cases event with
  | issued other grant access refresh scopes request =>
      obtain rfl : other = source := issues
      cases other with
      | code digest => exact entitled.2 earlier member
      | refresh digest => exact entitled.2 earlier member
  | _ => exact issues.elim

theorem tokens_issued_once_refreshing :
    Legal (Event.Justified plain) (plainWorld refreshing).db.log ∧
      (plainWorld refreshing).db.log.Pairwise fun earlier later =>
        ∀ source, later.issues source → ¬ earlier.issues source :=
  tokens_issued_once reached_refreshing

/-- An admitted access belongs to the present owner of its installation, descends from a token or a
consent of this account that had its scopes, was not revoked, and is younger than every release of
the installation. -/
theorem access_descends (reached : Reached functions world) {now : Nat} {digest : String}
    {found : McpAccess} (admitted : access now digest world.db = some found) :
    world.db.owner found.installation = some found.account ∧
      ((∃ row, .granted found.id digest row ∈ world.db.log ∧ row.account = found.account ∧
          row.installation = found.installation ∧ found.scopes = row.scopes) ∨
        ∃ source refresh request code row,
          .issued source found.id digest refresh found.scopes request ∈ world.db.log ∧
            .consented code row ∈ world.db.log ∧ row.account = found.account ∧
              row.installation = found.installation ∧ request.clientId = row.client ∧
                found.scopes ⊆ row.scopes) ∧
      .revoked found.id ∉ world.db.log ∧
      ∀ before after owner, world.db.log = before ++ .released found.installation owner :: after →
        ∀ event ∈ before, ¬ event.serves found.id := by
  have sound := reached.sound
  obtain ⟨token, row, held, ⟨kind, -, -⟩, live, rfl⟩ := access_iff.mp admitted
  have granted := granted_of_live live
  obtain ⟨-, -, owned⟩ := sound.grants token.grant row granted
  refine ⟨owned, ?_, fun isRevoked => ?_, fun before after owner split =>
    sound.released before after row.installation owner split token.grant row granted rfl⟩
  · obtain ⟨-, other, isOther, carried⟩ := sound.tokens digest token held
    rw [granted] at isOther
    obtain rfl := Option.some.inj isOther
    cases carried with
    | personal created kind given account installation scopes =>
        exact .inl ⟨created, given, account, installation, scopes⟩
    | issued source access refresh request code consent given own consented account installation
        client exchanged scopes =>
        rw [kind] at own
        obtain rfl : digest = access := own
        exact .inr ⟨source, refresh, request, code, consent, given, consented, account,
          installation, exchanged, scopes⟩
  · have gone := (sound.revoked token.grant isRevoked).2
    rw [granted] at gone
    cases gone

theorem access_descends_refreshing :
    (plainWorld refreshing).db.owner "i" = some "a" ∧
      ((∃ row, .granted "g" "y#" row ∈ (plainWorld refreshing).db.log ∧ row.account = "a" ∧
          row.installation = "i" ∧ ["read"] = row.scopes) ∨
        ∃ source refresh request code row,
          .issued source "g" "y#" refresh ["read"] request ∈ (plainWorld refreshing).db.log ∧
            .consented code row ∈ (plainWorld refreshing).db.log ∧ row.account = "a" ∧
              row.installation = "i" ∧ request.clientId = row.client ∧ ["read"] ⊆ row.scopes) ∧
      .revoked "g" ∉ (plainWorld refreshing).db.log ∧
      ∀ before after owner,
        (plainWorld refreshing).db.log = before ++ .released "i" owner :: after →
          ∀ event ∈ before, ¬ event.serves "g" :=
  access_descends reached_refreshing
    (show access 0 "y#" (plainWorld refreshing).db = some ⟨"g", "a", "i", ["read"]⟩ by decide +kernel)

/-- Access ends for good with its grant: by a revocation, and whenever the grant of a token has no
row. -/
theorem access_stays_ended (reached : Reached functions world) :
    (∀ id, .revoked id ∈ world.db.log → Ended functions id world) ∧
      ∀ event ∈ world.db.log, ∀ id, event.serves id → world.db.grants.lookup id = none →
        Ended functions id world := by
  refine ⟨fun id isRevoked => ?_, fun event member id serves gone => ?_⟩
  · obtain ⟨known, gone⟩ := reached.sound.revoked id isRevoked
    exact reached.ended known gone
  · exact reached.ended (reached.sound.served event member id serves) gone

/-- The account revokes the grant. -/
def revoking : List (Step String Operation) :=
  refreshing ++ [.begin 0 (.revoke "i" "g" "a"), .select 0, .finish 0 []]

theorem access_stays_ended_revoking :
    (access 0 "y#" (plainWorld refreshing).db).isSome ∧ Ended plain "g" (plainWorld revoking) :=
  ⟨by decide +kernel,
    (access_stays_ended (reached_plainWorld (by decide +kernel))).1 "g" (by decide +kernel)⟩

/-- A client that presents a used refresh token ends its grant, whatever others do meanwhile. -/
theorem replayed_refresh_ends (reached : Reached functions world) {key now : Nat}
    {request : TokenRequest} {token : Token} {row : Grant} {values : List String}
    (running : world.running.lookup key = some ⟨Program.exchangeTokens functions now request, []⟩)
    (grantType : request.grantType = "refresh_token")
    (found : refreshable now (functions.digest request.refreshToken) world.db = some (token, row))
    (used : token.used = true) (client : row.client = some request.clientId)
    (resource : resourceMatches functions request.resource = true)
    (others : ∀ taken ∈ steps, taken.actor ≠ some key)
    (executed : execute (World.step (beacon functions)) world
      (.select key :: (steps ++ [.finish key values])) = some final) :
    Ended functions token.grant final := by
  obtain ⟨next, selected, rest⟩ := execute_cons.mp executed
  have program : Program.exchangeTokens functions now request =
      Program.exchangeRefresh functions now request := by
    unfold Program.exchangeTokens
    rw [grantType]
    rfl
  rw [program] at running
  obtain ⟨same, runningNext⟩ := select_next running selected
  rw [found] at runningNext
  dsimp only at runningNext
  rw [if_neg (by simp [client, resource]), if_pos used] at runningNext
  have reachedNext : Reached functions next :=
    reached.run (execute_cons.mpr ⟨next, selected, execute_nil next⟩)
  refine reachedNext.replayed ?_ runningNext others rest
  rw [same]
  exact (reached.sound.grants token.grant row (granted_of_live (refreshable_iff.mp found).2.2)).1

/-- The used refresh token is presented again. -/
def presentingRefresh : List (Step String Operation) :=
  refreshing ++ [.begin 1 (.exchange exchangeOfRefresh)]

theorem replayed_refresh_ends_presented :
    Ended plain "g" ((execute (World.step (beacon plain)) (plainWorld presentingRefresh)
      [.select 1, .finish 1 []]).getD ⟨.empty, ∅⟩) :=
  replayed_refresh_ends (reached_plainWorld (by decide +kernel))
    (show (plainWorld presentingRefresh).running.lookup 1 =
      some ⟨Program.exchangeTokens plain 0 exchangeOfRefresh, []⟩ from rfl) rfl
    (show refreshable 0 "r#" (plainWorld presentingRefresh).db =
      some (⟨"g", .refresh, ["read", "run"], true, days 30⟩,
        ⟨"a", "i", some "c", "n", ["read"], days 30⟩) by decide +kernel)
    rfl rfl rfl (fun taken member => absurd member List.not_mem_nil)
    (execute_getD (by decide +kernel) _)

/-- A client that presents a used code, with its redirect and verifier, ends the grant made from
it, whatever others do between its statements. -/
theorem replayed_code_ends (reached : Reached functions world) {key now : Nat}
    {middle : World Database Row String} {first second : List (Step String Operation)}
    {request : TokenRequest} {code : Code} {grant : String} {values : List String}
    (running : world.running.lookup key = some ⟨Program.exchangeTokens functions now request, []⟩)
    (grantType : request.grantType = "authorization_code")
    (unusable : unusedCode now (functions.digest request.code) world.db = none)
    (executedFirst : execute (World.step (beacon functions)) world (.select key :: first) = some middle)
    (found : usedCode (functions.digest request.code) middle.db = some (code, grant))
    (valid : codeMatches functions request code = true)
    (executed : execute (World.step (beacon functions)) middle
      (.select key :: (second ++ [.finish key values])) = some final)
    (others : ∀ taken ∈ first ++ second, taken.actor ≠ some key) :
    Ended functions grant final := by
  obtain ⟨begun, selectedFirst, waited⟩ := execute_cons.mp executedFirst
  obtain ⟨next, selected, rest⟩ := execute_cons.mp executed
  have program : Program.exchangeTokens functions now request =
      Program.exchangeCode functions now request := by
    unfold Program.exchangeTokens
    rw [grantType]
    rfl
  rw [program] at running
  have runningBegun := (select_next running selectedFirst).2
  rw [unusable] at runningBegun
  have runningMiddle := (lookup_others
    (fun taken member => others taken (List.mem_append_left _ member)) waited).trans runningBegun
  obtain ⟨same, runningNext⟩ := select_next runningMiddle selected
  obtain ⟨isUsed, granted⟩ : code.grant = some grant ∧ (middle.db.grants.lookup grant).isSome := by
    unfold usedCode at found
    split at found
    · cases found
    · obtain ⟨other, isOther, pair⟩ := Option.map_eq_some_iff.mp found
      obtain ⟨rfl, rfl⟩ := Prod.mk.inj pair
      exact Option.filter_eq_some_iff.mp isOther
  have reachedMiddle : Reached functions middle := reached.run executedFirst
  have reachedNext : Reached functions next :=
    reachedMiddle.run (execute_cons.mpr ⟨next, selected, execute_nil next⟩)
  have redeemed : Program.redeem functions now request code "" =
      .finish (Database.replay request grant) := by
    unfold Program.redeem
    rw [valid, isUsed]
    rfl
  rw [found] at runningNext
  dsimp only at runningNext
  rw [redeemed] at runningNext
  refine reachedNext.replayed ?_ runningNext
    (fun taken member => others taken (List.mem_append_right _ member)) rest
  obtain ⟨row, isRow⟩ := Option.isSome_iff_exists.mp granted
  rw [same]
  exact (reachedMiddle.sound.grants grant row isRow).1

/-- The used code is presented again. -/
def presentingCode : List (Step String Operation) :=
  refreshing ++ [.begin 1 (.exchange exchangeOfCode)]

theorem replayed_code_ends_presented :
    Ended plain "g" ((execute (World.step (beacon plain))
      ((execute (World.step (beacon plain)) (plainWorld presentingCode) [.select 1]).getD
        ⟨.empty, ∅⟩) [.select 1, .finish 1 []]).getD ⟨.empty, ∅⟩) :=
  replayed_code_ends (reached_plainWorld (by decide +kernel))
    (show (plainWorld presentingCode).running.lookup 1 =
      some ⟨Program.exchangeTokens plain 0 exchangeOfCode, []⟩ from rfl) rfl
    (show unusedCode 0 "k#" (plainWorld presentingCode).db = none by decide +kernel)
    (execute_getD (by decide +kernel) ⟨.empty, ∅⟩)
    (show usedCode "k#" _ = some (⟨"a", "i", "c", "u", plainVerifier, ["read", "run"], minutes 5,
      some "g"⟩, "g") by decide +kernel)
    (by decide +kernel) (execute_getD (by decide +kernel) _)
    (show ∀ taken ∈ ([] : List (Step String Operation)) ++ [], taken.actor ≠ some 1 from
      fun taken member => absurd member List.not_mem_nil)

end Cairn.Beacon

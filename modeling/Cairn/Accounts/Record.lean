import Mathlib.Data.Rat.Defs
import Mathlib.Algebra.Order.Ring.Unbundled.Rat
import Cairn.Error
import Cairn.Library.Results

/-!
Owns the model of an account of the pool (`accounts/record.rs`, `accounts/usage.rs`):
its usage, whether it can take a run, and every edit that `accounts/mod.rs` and the
drivers make to a stored account, with the fields each edit writes.

A percentage is the rational a reading denotes: the code subtracts it from 100 and
compares, which rounding does not affect at zero. The clock is an argument.

Does not own when an edit is read and written.
-/

set_option autoImplicit false

namespace Cairn.Accounts

open Cairn.Library

/-- `Provider`. -/
inductive Provider where
  | codex
  | claude
deriving DecidableEq, Repr

namespace Provider

/-- `label`. -/
def label : Provider → String
  | codex => "Codex"
  | claude => "Claude Code"

/-- `Driver::fresh_for`. -/
def freshFor : Provider → Int
  | codex => 90000
  | claude => 3 * 300000

/-- `Driver::requires_usage`. -/
def requiresUsage : Provider → Bool
  | codex => true
  | claude => false

end Provider

/-- `Window`. -/
structure Window where
  id : String := ""
  usedPercent : Option Rat := none
  models : List String := []
  reached : Bool := false
deriving DecidableEq, Repr

namespace Window

/-- `applies`. -/
def applies (window : Window) (model : String) : Bool :=
  window.models.isEmpty || window.models.contains model

/-- `left`: 100 less the used percentage, clamped. -/
def left (window : Window) : Option Rat :=
  window.usedPercent.map fun used => max 0 (min (100 - used) 100)

end Window

/-- `Usage`. -/
structure Usage where
  allowed : Bool := true
  windows : List Window := []
  checkedAt : Option Int := none
deriving DecidableEq, Repr

namespace Usage

/-- `windows`. -/
def windowsOf (usage : Usage) (model : String) : List Window :=
  usage.windows.filter fun window => window.applies model

/-- `remaining`. -/
def remaining (usage : Usage) (model : String) : Option Rat :=
  ((usage.windowsOf model).filterMap Window.left).min?

/-- `blocked`. -/
def blocked (usage : Usage) (model : String) : Bool :=
  !usage.allowed || (usage.windowsOf model).any Window.reached

/-- `available`. -/
def available (usage : Usage) (model : String) : Bool :=
  !usage.blocked model && (usage.remaining model).getD 0 > 0

/-- `recovered`. -/
def recovered (before after : Usage) (model : String) : Bool :=
  if !after.available model then false
  else if !before.allowed && after.allowed then true
  else (after.windowsOf model).any fun current =>
    (before.windowsOf model).any fun old =>
      old.id = current.id &&
        match old.usedPercent, current.usedPercent with
        | some old, some now => now < old
        | _, _ => false

end Usage

/-- `AccountState`. -/
inductive AccountState where
  | pending
  | ready
  | error
deriving DecidableEq, Repr

/-- `Exhaustion`. -/
structure Exhaustion where
  exhaustedAt : Int
  model : String
  usage : Option Usage
deriving DecidableEq, Repr

/-- `PARALLEL_RUNS`. -/
def parallelRunsDefault : Nat := 4

/-- `Account`. -/
structure Account where
  id : String
  provider : Provider
  name : String := ""
  enabled : Bool := false
  email : Option String := none
  plan : Option String := none
  identity : Option String := none
  checkedAt : Option Int := none
  state : AccountState
  error : String := ""
  usage : Option Usage := none
  lastUsedAt : Option Int := none
  exhausted : Option Exhaustion := none
  maxConcurrentRuns : Option Nat := none
  resetError : Option String := none
deriving DecidableEq, Repr

namespace Account

/-- `Account::new`. -/
def new (id : String) (provider : Provider) (name : String) (state : AccountState) : Account where
  id := id
  provider := provider
  name := name
  enabled := true
  state := state
  maxConcurrentRuns := some parallelRunsDefault

/-- `is_ready`. -/
def isReady (account : Account) : Bool := account.state = .ready

/-- `is_active`. -/
def isActive (account : Account) : Bool := account.isReady && account.enabled

/-- `usage`, empty when unknown. -/
def usageOrDefault (account : Account) : Usage := account.usage.getD {}

/-- `parallel_runs`. -/
def parallelRuns (account : Account) : Nat := account.maxConcurrentRuns.getD parallelRunsDefault

/-- `exhausted_model`. -/
def exhaustedModel (account : Account) (fallback : String) : String :=
  (account.exhausted.map Exhaustion.model).getD fallback

/-- `mark_ready`. -/
def markReady (account : Account) (now : Int) : Account :=
  { account with state := .ready, error := "", checkedAt := some now }

end Account

/-- `replenish`. -/
def replenish (account : Account) (now : Int) : Account :=
  match account.exhausted with
  | none => account
  | some exhausted =>
      let readSince := (account.usage.bind Usage.checkedAt).any (· > exhausted.exhaustedAt)
      let recovered :=
        if readSince then
          let before := exhausted.usage.getD {}
          let current := account.usageOrDefault
          Usage.recovered before current exhausted.model ||
            ((before.remaining exhausted.model).isNone && current.available exhausted.model)
        else
          !account.provider.requiresUsage && now - exhausted.exhaustedAt ≥ account.provider.freshFor
      if recovered then { account with exhausted := none }
      else if readSince then
        { account with exhausted := some { exhausted with usage := account.usage } }
      else account

/-- `fresh`. -/
def fresh (account : Account) (now : Int) : Bool :=
  (account.usage.bind Usage.checkedAt).any fun checked => now - checked ≤ account.provider.freshFor

/-- `capacity`. -/
def capacity (account : Account) (now : Int) (model : String) : Option Rat :=
  if fresh account now then account.usage.bind fun usage => usage.remaining model else none

/-- `schedulable`. -/
def schedulable (account : Account) (now : Int) (model : String) : Bool :=
  let current := fresh account now
  let blocked := current && account.usageOrDefault.blocked model
  let hasCapacity :=
    ((capacity account now model).map fun left => decide (left > 0)).getD
      (!account.provider.requiresUsage)
  account.isActive && account.exhausted.isNone && (current || !account.provider.requiresUsage) &&
    !blocked && hasCapacity

/-! ### Edits -/

/-- The characters `str::trim` strips. -/
def isWhitespace (character : Char) : Bool :=
  let code := character.toNat
  (9 ≤ code && code ≤ 13) || code = 0x20 || code = 0x85 || code = 0xA0 || code = 0x1680 ||
    (0x2000 ≤ code && code ≤ 0x200A) || code = 0x2028 || code = 0x2029 || code = 0x202F ||
    code = 0x205F || code = 0x3000

/-- `valid_name`. -/
def validName (name : String) : Except Error String :=
  let trimmed := ((name.toList.dropWhile isWhitespace).reverse.dropWhile isWhitespace).reverse
  if trimmed.isEmpty || trimmed.length > 100 then
    .error (Error.bad "Choose a name of 1–100 characters.")
  else .ok (String.ofList trimmed)

/-- The body of an update: for each key that is present, what it converts to. -/
structure UpdateInput where
  name : Option (Option String) := none
  enabled : Option (Option Bool) := none
  maxConcurrentRuns : Option (Option Nat) := none
deriving DecidableEq, Repr

namespace UpdateInput

/-- The name of an update. -/
def rename (input : UpdateInput) (account : Account) : Except Error Account :=
  match input.name with
  | none => .ok account
  | some name => (validName (name.getD "")).map fun name => { account with name := name }

/-- The pause of an update. -/
def switch (input : UpdateInput) (account : Account) : Except Error Account :=
  match input.enabled with
  | none => .ok account
  | some none => .error (Error.bad "Choose whether this account is used.")
  | some (some enabled) => .ok { account with enabled := enabled }

/-- The parallel limit of an update. -/
def limit (input : UpdateInput) (account : Account) : Except Error Account :=
  match input.maxConcurrentRuns with
  | none => .ok account
  | some limit =>
      match limit.filter (· > 0) with
      | none => .error (Error.bad "Parallel runs must be a positive integer.")
      | some limit => .ok { account with maxConcurrentRuns := some limit }

end UpdateInput

/-- What an operation that holds an account's lock does to the document it read, with
the readings it makes it from. -/
inductive Edit where
  /-- `update`. -/
  | update (input : UpdateInput)
  /-- `exhausted`. -/
  | exhausted (now : Int) (model : String)
  /-- `refresh` of the Claude Code driver. -/
  | claudeReading (now : Int) (email plan : Option String) (usage : Usage)
  /-- `read_usage` of the Codex driver, up to its first write. -/
  | codexReading (now : Int) (identity : String) (email plan : Option String) (usage : Usage)
  /-- `read_usage` of the Codex driver, after a banked reset was considered. -/
  | codexRedeemed (now : Int) (usage : Usage) (error : String) (confirmed : Bool)
  /-- `refresh`, when its driver failed. -/
  | refreshFailed (error : Error)
  /-- `refresh`, when its driver succeeded. -/
  | replenished (now : Int)
deriving DecidableEq, Repr

/-- The document an edit writes for the one it read. -/
def Edit.apply (edit : Edit) (account : Account) : Except Error Account :=
  match edit with
  | .update input => do
      let named ← input.rename account
      let switched ← input.switch named
      input.limit switched
  | .exhausted now model =>
      .ok { account with exhausted := some ⟨now, model, account.usage⟩ }
  | .claudeReading now email plan usage =>
      .ok { ({ account with email := email, plan := plan }.markReady now) with usage := some usage }
  | .codexReading now identity email plan usage =>
      if account.identity.any (· ≠ identity) then
        .error (Error.conflict
          "Sign-in belongs to a different account. Add it as a new account instead.")
      else
        let read := { account with identity := some identity, email := email, plan := plan }
        .ok (replenish { read.markReady now with usage := some usage } now)
  | .codexRedeemed now usage error confirmed =>
      let restored :=
        if confirmed && usage.available (account.exhaustedModel "") then
          { account with exhausted := none }
        else account
      .ok (replenish { restored with usage := some usage, resetError := some error } now)
  | .refreshFailed error =>
      .ok { account with
        state := .error
        error :=
          if error.status < 500 then error.message
          else "Unable to read this " ++ account.provider.label ++
            " account. Reconnect it and try again." }
  | .replenished now => .ok (replenish account now)

/-- The fields of an account. -/
inductive Field where
  | id
  | provider
  | name
  | enabled
  | maxConcurrentRuns
  | exhausted
  | usage
  | state
  | error
  | email
  | plan
  | identity
  | checkedAt
  | lastUsedAt
  | resetError
deriving DecidableEq, Repr

/-- Two documents hold the same in a field. -/
def Agree (field : Field) (first second : Account) : Prop :=
  match field with
  | .id => first.id = second.id
  | .provider => first.provider = second.provider
  | .name => first.name = second.name
  | .enabled => first.enabled = second.enabled
  | .maxConcurrentRuns => first.maxConcurrentRuns = second.maxConcurrentRuns
  | .exhausted => first.exhausted = second.exhausted
  | .usage => first.usage = second.usage
  | .state => first.state = second.state
  | .error => first.error = second.error
  | .email => first.email = second.email
  | .plan => first.plan = second.plan
  | .identity => first.identity = second.identity
  | .checkedAt => first.checkedAt = second.checkedAt
  | .lastUsedAt => first.lastUsedAt = second.lastUsedAt
  | .resetError => first.resetError = second.resetError

/-- The fields an edit writes. -/
def Edit.fields : Edit → List Field
  | .update input =>
      (if input.name.isSome then [.name] else []) ++
        (if input.enabled.isSome then [.enabled] else []) ++
        (if input.maxConcurrentRuns.isSome then [.maxConcurrentRuns] else [])
  | .exhausted _ _ => [.exhausted]
  | .claudeReading .. => [.email, .plan, .state, .error, .checkedAt, .usage]
  | .codexReading .. => [.identity, .email, .plan, .state, .error, .checkedAt, .usage, .exhausted]
  | .codexRedeemed .. => [.exhausted, .usage, .resetError]
  | .refreshFailed _ => [.state, .error]
  | .replenished _ => [.exhausted]

/-! ### What an edit leaves alone -/

theorem Agree.refl (field : Field) (account : Account) : Agree field account account := by
  cases field <;> rfl

theorem Agree.symm {field : Field} {first second : Account} (agree : Agree field first second) :
    Agree field second first := by
  cases field <;> exact Eq.symm agree

theorem Agree.trans {field : Field} {first second third : Account}
    (left : Agree field first second) (right : Agree field second third) :
    Agree field first third := by
  cases field <;> exact Eq.trans left right

theorem replenish_eq (account : Account) (now : Int) :
    replenish account now = { account with exhausted := (replenish account now).exhausted } := by
  unfold replenish
  split
  · rfl
  · dsimp only
    repeat' split
    all_goals rfl

theorem replenish_agree {field : Field} (untouched : field ≠ .exhausted) (account : Account)
    (now : Int) : Agree field account (replenish account now) := by
  rw [replenish_eq account now]
  cases field <;> first | rfl | exact absurd rfl untouched

namespace UpdateInput

variable {input : UpdateInput} {account next : Account}

theorem rename_agree (renamed : input.rename account = .ok next) {field : Field}
    (untouched : field ∉ (Edit.update input).fields) : Agree field account next := by
  unfold rename at renamed
  split at renamed
  · obtain rfl := Except.ok.inj renamed
    exact .refl field account
  · rename_i name present
    obtain ⟨valid, _, rfl⟩ := Results.map_eq_ok.mp renamed
    cases field <;> first | rfl | simp [Edit.fields, present] at untouched

theorem switch_agree (switched : input.switch account = .ok next) {field : Field}
    (untouched : field ∉ (Edit.update input).fields) : Agree field account next := by
  unfold switch at switched
  split at switched
  · obtain rfl := Except.ok.inj switched
    exact .refl field account
  · simp at switched
  · rename_i enabled present
    obtain rfl := Except.ok.inj switched
    cases field <;> first | rfl | simp [Edit.fields, present] at untouched

theorem limit_agree (limited : input.limit account = .ok next) {field : Field}
    (untouched : field ∉ (Edit.update input).fields) : Agree field account next := by
  unfold limit at limited
  split at limited
  · obtain rfl := Except.ok.inj limited
    exact .refl field account
  · rename_i limit present
    split at limited
    · simp at limited
    · obtain rfl := Except.ok.inj limited
      cases field <;> first | rfl | simp [Edit.fields, present] at untouched

end UpdateInput

namespace Edit

variable {edit : Edit} {account next : Account}

/-- An edit changes no field but those it writes. -/
theorem apply_agree (applied : edit.apply account = .ok next) {field : Field}
    (untouched : field ∉ edit.fields) : Agree field account next := by
  cases edit with
  | update input =>
      obtain ⟨named, renamed, applied⟩ := Results.bind_eq_ok.mp applied
      obtain ⟨switched, isSwitched, limited⟩ := Results.bind_eq_ok.mp applied
      exact (UpdateInput.rename_agree renamed untouched).trans
        ((UpdateInput.switch_agree isSwitched untouched).trans
          (UpdateInput.limit_agree limited untouched))
  | exhausted now model =>
      obtain rfl := Except.ok.inj applied
      cases field <;> first | rfl | simp [fields] at untouched
  | claudeReading now email plan usage =>
      obtain rfl := Except.ok.inj applied
      cases field <;> first | rfl | simp [fields] at untouched
  | codexReading now identity email plan usage =>
      simp only [apply] at applied
      split at applied
      · simp at applied
      · obtain rfl := Except.ok.inj applied
        refine Agree.trans ?_ (replenish_agree ?_ _ now)
        · cases field <;> first | rfl | simp [fields] at untouched
        · rintro rfl
          simp [fields] at untouched
  | codexRedeemed now usage error confirmed =>
      obtain rfl := Except.ok.inj applied
      refine Agree.trans ?_ (replenish_agree ?_ _ now)
      · split
        all_goals cases field <;> first | rfl | simp [fields] at untouched
      · rintro rfl
        simp [fields] at untouched
  | refreshFailed error =>
      obtain rfl := Except.ok.inj applied
      cases field <;> first | rfl | simp [fields] at untouched
  | replenished now =>
      obtain rfl := Except.ok.inj applied
      refine replenish_agree ?_ account now
      rintro rfl
      simp [fields] at untouched

theorem apply_id (applied : edit.apply account = .ok next) : next.id = account.id := by
  have untouched : Field.id ∉ edit.fields := by
    cases edit <;> simp [fields]
  exact (apply_agree applied untouched).symm

end Edit

end Cairn.Accounts

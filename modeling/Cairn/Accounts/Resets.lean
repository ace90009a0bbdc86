import Cairn.Accounts.Record
import Cairn.Library.Faults

/-!
Owns the model of the banked resets of a Codex account (`accounts/codex.rs`): a refresh of
the account with its requests to the provider and its writes to the store, any of which may
fail or be the last before a crash.

The provider redeems a key once: it answers a key that it redeemed before with
`alreadyRedeemed`. What it answers otherwise, and the clock, are arguments. A key is the
number of keys made before it.

Does not own how often a reset is spent.
-/

set_option autoImplicit false

namespace Cairn.Accounts

open Cairn.Library.Faults
open Cairn.Library.Faults.Effect

/-! ### Readings and attempts -/

/-- `Credit`. -/
structure Credit where
  id : Option String := none
  status : String := ""
  resetType : String := ""
  expiresAt : Option Int := none
deriving DecidableEq, Repr

/-- `usable`. -/
def Credit.usable (credit : Credit) (now : Int) : Bool :=
  credit.status = "available" && credit.resetType = "codexRateLimits" &&
    credit.expiresAt.all fun expires => expires * 1000 > now

/-- `Resets`. -/
structure Resets where
  available : Nat := 0
  credits : List Credit := []
deriving DecidableEq, Repr

/-- What `read_limits` reads: the usage and the banked resets. -/
structure Reading where
  usage : Usage
  resets : Option Resets := none
deriving DecidableEq, Repr

/-- `available_resets`. -/
def Reading.availableResets (reading : Reading) : Nat :=
  (reading.resets.map Resets.available).getD 0

/-- `ResetAttempt`, with its `ResetParams`. -/
structure ResetAttempt where
  idempotencyKey : Nat
  creditId : Option String := none
  model : String := ""
  confirmed : Bool := false
deriving DecidableEq, Repr

/-- `Outcome`. -/
inductive Outcome where
  | reset
  | alreadyRedeemed
  | nothingToReset
  | noCredit
deriving DecidableEq, Repr

/-- `Redemption`. -/
structure Redemption where
  usage : Reading
  error : String
  confirmed : Bool
deriving DecidableEq, Repr

/-- `RESET_AT`. -/
def resetAt : Rat := 2

/-- `RESET_PENDING`. -/
def resetPending : String := "Banked reset redeemed; waiting for refreshed capacity."

/-- `API_KEYS_UNSUPPORTED`. -/
def apiKeysUnsupported : String :=
  "Connect a ChatGPT subscription account. API keys are not supported here."

/-- `restored`. -/
def restored (usage : Usage) (model : String) : Bool :=
  !usage.blocked model && (usage.remaining model).getD 0 > resetAt

/-- The test `reset` makes before it spends anything. -/
def low (account : Account) (usage : Usage) (model : String) : Bool :=
  account.exhausted.isSome || (usage.remaining model).any fun left => left ≤ resetAt

/-- `min_by_key`: the first credit with the least key. -/
def minByKey (key : Credit → Int) (credits : List Credit) : Option Credit :=
  credits.foldl (fun least credit =>
    match least with
    | some held => if key credit < key held then some credit else some held
    | none => some credit) none

/-- `new_attempt`: the usable credit that expires first. -/
def newAttempt (current : Reading) (model : String) (key : Nat) (now : Int) : ResetAttempt :=
  let usable := ((current.resets.map Resets.credits).getD []).filter fun credit =>
    credit.usable now
  let first := usable |> minByKey fun credit => credit.expiresAt.getD (2 ^ 63 - 1)
  ⟨key, first.bind Credit.id, model, false⟩

/-! ### The stored request and the provider -/

/-- What happens to the keys of an account. -/
inductive Event where
  | read (usage : Usage)
  | created (key : Nat) (account : Account) (reading : Reading) (model : String)
  | sent (key : Nat)
  | consumed (key : Nat) (model : String)
  | answered (key : Nat) (outcome : Outcome)
  | confirmed (key : Nat)
  | dropped (key : Nat)
deriving DecidableEq, Repr

/-- The stored account and request, the keys that were made and redeemed, and what
happened. -/
structure Bank where
  account : Account
  attempt : Option ResetAttempt := none
  nextKey : Nat := 0
  redeemed : List Nat := []
  trace : List Event := []

namespace Bank

/-- Something happens that leaves the tables. -/
def observe (event : Event) (bank : Bank) : Bank := { bank with trace := bank.trace ++ [event] }

/-- The provider redeems a key once. -/
def redeem (attempt : ResetAttempt) (took eligible : Bool) (bank : Bank) : Outcome × Bank :=
  if bank.redeemed.contains attempt.idempotencyKey then (.alreadyRedeemed, bank)
  else if took then
    (.reset, { bank.observe (.consumed attempt.idempotencyKey attempt.model) with
      redeemed := attempt.idempotencyKey :: bank.redeemed })
  else (if eligible then .noCredit else .nothingToReset, bank)

/-- Delete the stored request. -/
def forget (attempt : ResetAttempt) (bank : Bank) : Bank :=
  { bank.observe (.dropped attempt.idempotencyKey) with attempt := none }

/-- Store a new request. -/
def create (attempt : ResetAttempt) (account : Account) (current : Reading) (bank : Bank) : Bank :=
  { bank.observe (.created attempt.idempotencyKey account current attempt.model) with
    attempt := some attempt }

/-- Store that a request took effect. -/
def confirm (attempt : ResetAttempt) (bank : Bank) : Bank :=
  { bank.observe (.confirmed attempt.idempotencyKey) with
    attempt := some { attempt with confirmed := true } }

end Bank

/-- What the provider and the clock answer during one refresh. -/
structure Answers where
  kind : String := "chatgpt"
  fingerprint : Except Error String
  email : Option String := none
  plan : Option String := none
  reading : Reading
  later : Reading
  took : Bool := false
  eligible : Bool := false
  duplicate : Bool := false
  rpcError : Error := Error.internal
  readAt : Int := 0
  reservedAt : Int := 0
  savedAt : Int := 0

/-! ### A refresh -/

/-- `read_limits`. -/
def readLimits (answers : Answers) (reading : Reading) : Effect Bank Error Reading := do
  let read ← call answers.rpcError fun bank => (reading, bank)
  note (Bank.observe (.read read.usage))
  return read

/-- `settle`. -/
def settle (account : Account) (attempt : ResetAttempt) (current : Reading) :
    Effect Bank Error (Option Redemption) :=
  if account.exhausted.isNone && restored current.usage attempt.model then do
    perform Error.internal (Bank.forget attempt)
    return some ⟨current, "", attempt.confirmed⟩
  else if !attempt.confirmed then return none
  else if !restored current.usage attempt.model then return some ⟨current, resetPending, false⟩
  else do
    perform Error.internal (Bank.forget attempt)
    return some ⟨current, "", true⟩

/-- The part of `redeem` after a reset was confirmed. -/
def confirmReset (answers : Answers) (attempt : ResetAttempt) : Effect Bank Error Redemption := do
  perform Error.internal (Bank.confirm attempt)
  perform Error.internal id
  let current ← readLimits answers answers.later
  if restored current.usage attempt.model then do
    perform Error.internal (Bank.forget attempt)
    return ⟨current, "", true⟩
  else return ⟨current, resetPending, false⟩

/-- The part of `redeem` after the provider refused. -/
def refuseReset (attempt : ResetAttempt) (current : Reading) (waiting : String) :
    Effect Bank Error Redemption := do
  perform Error.internal (Bank.forget attempt)
  return ⟨current, waiting, false⟩

/-- What `redeem` does with the outcome. -/
def redeemed (answers : Answers) (attempt : ResetAttempt) (current : Reading) :
    Outcome → Effect Bank Error Redemption
  | .nothingToReset =>
      refuseReset attempt current "Banked reset is not eligible yet; checking again automatically."
  | .noCredit =>
      refuseReset attempt current
        "No banked reset available; waiting for capacity or another account."
  | .reset | .alreadyRedeemed => confirmReset answers attempt

/-- `redeem`. -/
def redeem (answers : Answers) (attempt : ResetAttempt) (current : Reading) :
    Effect Bank Error Redemption := do
  note (Bank.observe (.sent attempt.idempotencyKey))
  let outcome ← call answers.rpcError (Bank.redeem attempt answers.took answers.eligible)
  note (Bank.observe (.answered attempt.idempotencyKey outcome))
  redeemed answers attempt current outcome

/-- A failure to redeem is reported with the usage that was read. -/
def redeemOrWait (answers : Answers) (attempt : ResetAttempt) (current : Reading) :
    Effect Bank Error Redemption := do
  let result ← (redeem answers attempt current).caught
  return match result with
    | .ok redemption => redemption
    | .error _ => ⟨current, "Unable to confirm banked reset. " ++
        "Retrying automatically without spending another reset.", false⟩

/-- A new request is stored before it is sent. -/
def reserve (answers : Answers) (account : Account) (model : String) (current : Reading) :
    Effect Bank Error ResetAttempt := do
  let bank ← get
  let attempt := newAttempt current model bank.nextKey answers.reservedAt
  note fun bank => { bank with nextKey := bank.nextKey + 1 }
  perform Error.internal (Bank.create attempt account current)
  return attempt

/-- The part of `reset` after the stored request was not settled. -/
def spend (answers : Answers) (account : Account) (model : String) (current : Reading) :
    Option ResetAttempt → Effect Bank Error Redemption
  | some attempt => redeemOrWait answers attempt current
  | none =>
      if current.availableResets = 0 then return ⟨current, "", false⟩
      else do
        let attempt ← reserve answers account model current
        redeemOrWait answers attempt current

/-- `settle`, if a request is stored. -/
def settleStored (account : Account) (current : Reading) :
    Option ResetAttempt → Effect Bank Error (Option Redemption)
  | some attempt => settle account attempt current
  | none => return none

/-- What `reset` does once it knows whether the stored request is settled. -/
def resetUnsettled (answers : Answers) (account : Account) (model : String) (current : Reading)
    (stored : Option ResetAttempt) : Option Redemption → Effect Bank Error Redemption
  | some redemption => return redemption
  | none =>
      if !account.enabled || !low account current.usage model then return ⟨current, "", false⟩
      else spend answers account model current stored

/-- `reset`. -/
def reset (answers : Answers) (account : Account) (model : String) (current : Reading) :
    Effect Bank Error Redemption := do
  let stored ← call Error.internal fun bank => (bank.attempt, bank)
  let settled ← settleStored account current stored
  resetUnsettled answers account model current stored settled

/-- A computation that cannot stop. -/
def checked {Value : Type} : Except Error Value → Effect Bank Error Value
  | .ok value => return value
  | .error failure => fail failure

/-- `claim` and `save`, given whether another account has the identity. -/
def store (account : Account) (duplicate : Bool) : Effect Bank Error Unit :=
  if duplicate then
    fail (Error.conflict
      "This account is already connected. Reconnect the existing account instead.")
  else perform Error.internal fun bank => { bank with account }

/-- The part of `read_usage` after the limits were read. -/
def readUsage (answers : Answers) (model : String) (current : Reading) :
    Effect Bank Error Unit := do
  let account ← call Error.internal fun bank => (bank.account, bank)
  let identity ← checked answers.fingerprint
  let read ← checked ((Edit.codexReading answers.readAt identity answers.email answers.plan
    current.usage).apply account)
  store read answers.duplicate
  let redemption ← reset answers read (read.exhaustedModel model) current
  let account ← call Error.internal fun bank => (bank.account, bank)
  let saved ← checked ((Edit.codexRedeemed answers.savedAt redemption.usage.usage redemption.error
    redemption.confirmed).apply account)
  store saved false

/-- `read_usage`. -/
def refresh (answers : Answers) (model : String) : Effect Bank Error Unit := do
  perform answers.rpcError id
  if answers.kind ≠ "chatgpt" then fail (Error.bad apiKeysUnsupported)
  else do
    perform Error.internal id
    let current ← readLimits answers answers.reading
    readUsage answers model current

/-! ### Runs -/

/-- A refresh, as far as its calls get, or a change of the account by something else that
holds its lock. -/
inductive Round where
  | refresh (model : String) (answers : Answers) (fates : List Fate)
  | elsewhere (account : Account)

namespace Bank

/-- What a round leaves. -/
def after (bank : Bank) : Round → Bank
  | .refresh model answers fates => ((Accounts.refresh answers model).run bank fates).2.1
  | .elsewhere account => { bank with account }

end Bank

end Cairn.Accounts

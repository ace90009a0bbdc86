import Cairn.Error
import Cairn.Library.Faults

/-!
Owns the model of where a Codex account's credentials are kept (`accounts/codex.rs`): the
vault, the homes of the manager's own sessions and the home of a sign-in; and the sessions,
sign-ins and recoveries that move them, any of whose calls may fail or be the last before a
crash.

A credential is known by its identity and by when it was issued. Every `auth.json` holds an
access token, and no home here is a run's (none holds `cairn-managed-auth`).

Does not own what a session asks the provider.
-/

set_option autoImplicit false

namespace Cairn.Accounts

open Cairn.Library.Faults
open Cairn.Library.Faults.Effect

/-- Whom the tokens of an `auth.json` belong to: `account_id` and the ID token's subject. -/
structure Identity where
  accountId : String
  subject : String
deriving DecidableEq, Repr

/-- An `auth.json`; a credential that is issued later has a larger number. -/
structure Credential where
  identity : Identity
  issued : Nat
deriving DecidableEq, Repr

/-- Whether `other` may belong to another identity than these tokens. -/
def Credential.differsFrom (credential other : Credential) : Bool :=
  (credential.identity.accountId != "" &&
      other.identity.accountId != credential.identity.accountId) ||
    (credential.identity.subject != "" && credential.identity.subject != other.identity.subject)

/-- `codex-monitor` and `codex-model-discovery`. -/
inductive Purpose where
  | monitor
  | modelDiscovery
deriving DecidableEq, Repr

/-- A home with an `auth.json`: of a manager session, or of a sign-in. -/
inductive Home where
  | manager (purpose : Purpose)
  | login
deriving DecidableEq, Repr

/-- Why the vault's entry changed. -/
inductive Cause where
  | leftover
  | session
  | signIn
  | restored
deriving DecidableEq, Repr

/-- A change of the vault's entry. -/
structure Write where
  replaced : Option Credential
  written : Option Credential
  cause : Cause
deriving DecidableEq, Repr

/-- An older credential, or none, takes the place of a credential. -/
def Write.regresses (write : Write) : Bool :=
  match write.replaced with
  | none => false
  | some replaced => write.written.all fun written => written.issued < replaced.issued

/-- The vault's entry, the homes, and how many credentials were issued. No code reads what
follows: `active` is the home that the running session wrote, and `writes` the changes of
the vault's entry. -/
structure Keyring where
  vault : Option Credential := none
  homes : Purpose → Option Credential := fun _ => none
  login : Option Credential := none
  issued : Nat := 0
  active : Option Purpose := none
  writes : List Write := []

namespace Keyring

def auth (home : Home) (keyring : Keyring) : Option Credential :=
  match home with
  | .manager purpose => keyring.homes purpose
  | .login => keyring.login

/-- A home that this session did not write holds what an earlier one left. -/
def cause (home : Home) (keyring : Keyring) : Cause :=
  match home with
  | .manager purpose => if keyring.active = some purpose then .session else .leftover
  | .login => .signIn

/-- `s.vault.set`. -/
def store (credential : Credential) (cause : Cause) (keyring : Keyring) : Keyring :=
  { keyring with
    vault := some credential
    writes := keyring.writes ++ [⟨keyring.vault, some credential, cause⟩] }

/-- `s.vault.set` or `s.vault.delete` at the end of a sign-in that failed. -/
def restore (previous : Option Credential) (keyring : Keyring) : Keyring :=
  { keyring with
    vault := previous
    active := none
    writes := keyring.writes ++ [⟨keyring.vault, previous, .restored⟩] }

/-- `atomic_write` of a home's `auth.json`. -/
def write (purpose : Purpose) (credential : Credential) (keyring : Keyring) : Keyring :=
  { keyring with
    homes := Function.update keyring.homes purpose (some credential)
    active := some purpose }

/-- Codex refreshes the tokens of its home. -/
def rotate (purpose : Purpose) (keyring : Keyring) : Keyring :=
  match keyring.homes purpose with
  | none => keyring
  | some credential =>
      { keyring with
        homes := Function.update keyring.homes purpose
          (some { credential with issued := keyring.issued + 1 })
        issued := keyring.issued + 1 }

/-- `remove_directory`. -/
def remove (purpose : Purpose) (keyring : Keyring) : Keyring :=
  { keyring with homes := Function.update keyring.homes purpose none, active := none }

/-- The sign-in in the browser is complete. -/
def authorize (identity : Identity) (keyring : Keyring) : Keyring :=
  { keyring with login := some ⟨identity, keyring.issued + 1⟩, issued := keyring.issued + 1 }

/-- Another session starts; what the homes hold is left from before. -/
def settle (keyring : Keyring) : Keyring := { keyring with active := none }

end Keyring

def differentAccount : Error :=
  Error.conflict "Sign-in belongs to a different account. Add it as a new account instead."

/-- A call that changes nothing but may fail. -/
def touch : Effect Keyring Error Unit := perform Error.internal id

def readVault : Effect Keyring Error (Option Credential) :=
  call Error.internal fun keyring => (keyring.vault, keyring)

def readAuth (home : Home) : Effect Keyring Error (Option Credential) :=
  call Error.internal fun keyring => (keyring.auth home, keyring)

/-- The end of `capture`: the vault takes the home's credential. -/
def saveAuth (home : Home) (credential : Credential) (previous : Option Credential) :
    Effect Keyring Error Unit :=
  if previous.any fun previous => previous.differsFrom credential then fail differentAccount
  else do
    perform Error.internal fun keyring => keyring.store credential (keyring.cause home)
    touch

/-- Saves the credentials a Codex home holds, refusing a sign-in to a different account. -/
def capture (home : Home) : Effect Keyring Error Unit := do
  let auth ← readAuth home
  match auth with
  | none => fail (Error.notFound "No saved account credentials in this workspace.")
  | some credential => do
      let previous ← readVault
      saveAuth home credential previous

/-- `home.join("auth.json").exists()` before a `capture`. -/
def captureLeftover (purpose : Purpose) : Effect Keyring Error Unit := do
  let keyring ← get
  if (keyring.homes purpose).isSome then capture (.manager purpose) else pure ()

/-- Writes the vault credentials into a manager-only Codex home. -/
def materialize (purpose : Purpose) : Effect Keyring Error Unit := do
  captureLeftover purpose
  let stored ← readVault
  match stored with
  | none => fail (Error.notFound "Reconnect this Codex account before using it.")
  | some credential => do
      touch
      perform Error.internal (Keyring.write purpose credential)
      touch

/-- A call of the session, after Codex refreshed its tokens some times. -/
def rotations (purpose : Purpose) : Nat → Effect Keyring Error Unit
  | 0 => touch
  | count + 1 => do
      perform Error.internal (Keyring.rotate purpose)
      rotations purpose count

/-- The end of a caught program: its result again. -/
def rethrow : Except Error Unit → Effect Keyring Error Unit
  | .ok () => pure ()
  | .error failure => fail failure

/-- The session itself, between `materialize` and the last `capture`. -/
def manage (purpose : Purpose) (starting working : Nat) : Effect Keyring Error Unit := do
  materialize purpose
  rotations purpose starting
  let result ← (rotations purpose working).caught
  capture (.manager purpose)
  rethrow result

/-- Never delete the only fresh credentials if vault persistence failed. -/
def discard (purpose : Purpose) : Except Error Unit → Effect Keyring Error Unit
  | .ok () => perform Error.internal (Keyring.remove purpose)
  | .error _ => pure ()

/-- Runs a manager-only app-server session on the account, saving any rotated credentials. -/
def withSession (purpose : Purpose) (starting working : Nat) : Effect Keyring Error Unit := do
  let result ← (manage purpose starting working).caught
  let captured ← (capture (.manager purpose)).caught
  discard purpose captured
  rethrow result

/-- Keep the previous working credentials when the new sign-in cannot be verified. -/
def verified (previous : Option Credential) : Except Error Unit → Effect Keyring Error Unit
  | .ok () => pure ()
  | .error failure => do
      perform Error.internal (Keyring.restore previous)
      fail failure

/-- `refresh`, which reads the account first. -/
def refreshAccount (starting working : Nat) : Effect Keyring Error Unit := do
  touch
  withSession .monitor starting working

def adopt (starting working : Nat) : Effect Keyring Error Unit := do
  let previous ← readVault
  capture .login
  let result ← (refreshAccount starting working).caught
  verified previous result

/-- One home of `recover_sessions`. -/
def recoverHome (purpose : Purpose) : Effect Keyring Error Unit := do
  captureLeftover purpose
  perform Error.internal (Keyring.remove purpose)

/-- Recovers credentials a manager session may have rotated just before a crash. -/
def recoverSessions : Effect Keyring Error Unit := do
  recoverHome .monitor
  recoverHome .modelDiscovery

/-! ### Runs -/

/-- What happens to the account, with the fates of its calls: a session for one of its
purposes, a sign-in, a restart. -/
inductive Activity where
  | session (purpose : Purpose) (starting working : Nat) (fates : List Fate)
  | signIn (identity : Identity) (starting working : Nat) (fates : List Fate)
  | restart (fates : List Fate)
deriving Repr

def Activity.run (keyring : Keyring) : Activity → Ending Error Unit × Keyring
  | .session purpose starting working fates =>
      let (ending, next, _) := (withSession purpose starting working).run keyring.settle fates
      (ending, next)
  | .signIn identity starting working fates =>
      let (ending, next, _) :=
        (adopt starting working).run (keyring.settle.authorize identity) fates
      (ending, next)
  | .restart fates =>
      let (ending, next, _) := recoverSessions.run keyring.settle fates
      (ending, next)

def Activity.step (keyring : Keyring) (activity : Activity) : Option Keyring :=
  some (activity.run keyring).2

/-- The keyring after a sequence of activities. -/
def Keyring.after (keyring : Keyring) (activities : List Activity) : Keyring :=
  activities.foldl (fun keyring activity => (activity.run keyring).2) keyring

/-- The activity came to its end without failure. -/
def succeeded : Ending Error Unit → Bool
  | .done () => true
  | _ => false

/-- A session finds no home of the other purpose, and a sign-in that succeeds no home. -/
def Orderly (keyring : Keyring) : Activity → Prop
  | .session purpose _ _ _ => ∀ other, other ≠ purpose → keyring.homes other = none
  | .signIn identity starting working fates =>
      (∀ purpose, keyring.homes purpose = none) ∧
        succeeded (Activity.run keyring (.signIn identity starting working fates)).1
  | .restart _ => True

end Cairn.Accounts

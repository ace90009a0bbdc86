import Cairn.Error
import Mathlib.Logic.Function.Basic
import Mathlib.Logic.Relation

/-!
Owns the model of `storage/environment.rs`: the two records of an assignment (the pointer
of a conversation and the owner of a prepared disk), the writes `assign` makes one after
the other, and `recover` after a restart.

A directory is listed in any order. Locks are left out: one process assigns, and it
recovers before it does. So is a dangling alias in place of a conversation's directory.

Does not own what a disk holds.
-/

set_option autoImplicit false

namespace Cairn.Storage.Environments

/-! ### Identities -/

/-- Whether a character is a hexadecimal digit, in lower case only if `canonical`. -/
def isHex (canonical : Bool) (letter : Char) : Bool :=
  letter.isDigit || ('a' ≤ letter && letter ≤ 'f') ||
    (!canonical && 'A' ≤ letter && letter ≤ 'F')

/-- A hyphenated UUID. -/
def isHyphenated (canonical : Bool) (value : List Char) : Bool :=
  value.length = 36 && value.zipIdx.all fun letter =>
    if [8, 13, 18, 23].contains letter.2 then letter.1 = '-' else isHex canonical letter.1

/-- What `Uuid::parse_str` accepts. -/
def isUuid (value : List Char) : Bool :=
  (value.length = 32 && value.all (isHex false)) || isHyphenated false value ||
    (value.head? = some '{' && value.getLast? = some '}' &&
      isHyphenated false value.tail.dropLast) ||
    ("urn:uuid:".toList.isPrefixOf value && isHyphenated false (value.drop 9))

/-- A canonical UUID. -/
def isIdentity (value : String) : Bool := isHyphenated true value.toList

/-- `identity`. -/
def identity (value : String) : Except Error Unit :=
  if isIdentity value then .ok ()
  else if isUuid value.toList then
    .error (Error.bad "Disk identities must be canonical UUIDs.")
  else .error (Error.bad "Invalid UUID")

/-! ### Records -/

/-- What stands at the path of a record. -/
inductive Record where
  | file (content : String)
  | alias
  | special
deriving DecidableEq, Repr

/-- `read_identity`. -/
def readIdentity : Option Record → Except Error (Option String)
  | none => .ok none
  | some .alias => .error Error.internal
  | some .special => .error (Error.conflict "Invalid disk ownership record.")
  | some (.file content) =>
      let value := String.ofList (content.toList.take 37)
      (identity value).map fun _ => some value

/-- The directory of a conversation under `disks`: its pointer, and its other entries
with whether they are regular files. -/
structure Logical where
  pointer : Option Record := none
  entries : List (String × Bool) := []
deriving DecidableEq, Repr

/-- A prepared disk under `environments`. -/
structure Physical where
  owner : Option Record := none
deriving DecidableEq, Repr

/-- What stands at the path of a directory. -/
inductive Entry (Contents : Type) where
  | directory (contents : Contents)
  | other
deriving DecidableEq, Repr

/-- The state of the controller. -/
structure Tree where
  disks : String → Option (Entry Logical)
  environments : String → Option (Entry Physical)

/-- `real_directory`. -/
def realDirectory {Contents : Type} : Option (Entry Contents) → Except Error Contents
  | none => .error Error.internal
  | some .other => .error (Error.conflict "Disk directory must not be an alias.")
  | some (.directory contents) => .ok contents

/-- Where the blocks of a conversation are. -/
inductive Location where
  | logical (run : String)
  | physical (environment : String)
deriving DecidableEq, Repr

/-- The directory of a conversation as an operation opens it. -/
def openLogical (entry : Option (Entry Logical)) : Except Error Logical :=
  match entry with
  | none => .ok {}
  | some entry => realDirectory (some entry)

/-- The end of `directory`: the owner of the disk is the conversation. -/
def ownedBy (tree : Tree) (run environment : String) : Except Error Location := do
  let physical ← realDirectory (tree.environments environment)
  let owner ← readIdentity physical.owner
  if owner = some run then .ok (.physical environment)
  else .error (Error.conflict "Disk ownership does not match its conversation.")

/-- `directory`. -/
def directory (tree : Tree) (run : String) : Except Error Location := do
  identity run
  let logical ← openLogical (tree.disks run)
  let pointer ← readIdentity logical.pointer
  match pointer with
  | none => .ok (.logical run)
  | some environment => ownedBy tree run environment

/-- The name of a file that `atomic_write` leaves. -/
def isTemporary (name : String) : Bool :=
  match name.toList with
  | '.' :: rest => rest.drop (rest.length - 4) = ".tmp".toList &&
      isIdentity (String.ofList (rest.take (rest.length - 4)))
  | _ => false

/-- `vacant`. -/
def vacant (logical : Logical) (pointer : Bool) : Except Error Unit :=
  if (logical.entries.any fun entry => entry.1 ≠ "lock" && entry.1 ≠ "ownership.lock" &&
      !(isTemporary entry.1 && entry.2)) || (!pointer && logical.pointer.isSome) then
    .error (Error.conflict "Conversation already has a disk.")
  else .ok ()

/-! ### Assigning -/

/-- Store the directory of a conversation. -/
def Tree.setDisk (tree : Tree) (run : String) (logical : Logical) : Tree :=
  { tree with disks := Function.update tree.disks run (some (.directory logical)) }

/-- Write the owner of a prepared disk. -/
def Tree.setOwner (tree : Tree) (environment run : String) : Tree :=
  { tree with
    environments := Function.update tree.environments environment
      (some (.directory { owner := some (.file run) })) }

/-- Write the pointer of a conversation. -/
def Tree.setPointer (tree : Tree) (run environment : String) : Tree :=
  let logical := match tree.disks run with
    | some (.directory logical) => logical
    | _ => {}
  tree.setDisk run { logical with pointer := some (.file environment) }

/-- The directory of a conversation with its lock. -/
def Logical.locked (logical : Logical) : Logical :=
  if logical.entries.any fun entry => entry.1 = "ownership.lock" then logical
  else { logical with entries := ("ownership.lock", true) :: logical.entries }

/-- `assign` up to its lock: the prepared disk and the directory of the conversation. -/
def openAssignment (tree : Tree) (environment run : String) :
    Except Error (Physical × Logical) := do
  identity environment
  identity run
  let physical ← realDirectory (tree.environments environment)
  let logical ← openLogical (tree.disks run)
  .ok (physical, logical.locked)

/-- The tests `assign` makes under its lock. -/
def requireUnassigned (physical : Physical) (logical : Logical) : Except Error Unit := do
  let owner ← readIdentity physical.owner
  if owner.isSome then .error (Error.conflict "Prepared disk has already been claimed.")
  else vacant logical false

/-- The directory of a conversation while `atomic_write` writes its pointer. -/
def Logical.writing (logical : Logical) (id : String) : Logical :=
  { logical with entries := ("." ++ id ++ ".tmp", true) :: logical.entries }

/-- The states `assign` goes through: a crash leaves any of them, and the last one is left
when it returns. -/
def assignStates (tree : Tree) (environment run id : String) : List Tree :=
  match openAssignment tree environment run with
  | .error _ => [tree]
  | .ok (physical, logical) =>
      let opened := tree.setDisk run logical
      match requireUnassigned physical logical with
      | .error _ => [tree, opened]
      | .ok _ =>
          let pointed := opened.setPointer run environment
          [tree, opened, tree.setDisk run (logical.writing id), pointed,
            pointed.setOwner environment run]

/-! ### Recovering -/

/-- The order in which the directories are read. -/
structure Listing where
  disks : List String
  environments : List String

/-- A listing names every entry once. -/
structure Listing.Lists (listing : Listing) (tree : Tree) : Prop where
  disks : listing.disks.Nodup ∧ ∀ name, name ∈ listing.disks ↔ tree.disks name ≠ none
  environments : listing.environments.Nodup ∧
    ∀ name, name ∈ listing.environments ↔ tree.environments name ≠ none

/-- The pointers that were read, by environment and by conversation. -/
structure Claims where
  claims : String → Option String := fun _ => none
  conversations : String → Option String := fun _ => none

/-- A pointer in the first loop of `recover`. -/
def claim (tree : Tree) (claims : Claims) (run : String) (logical : Logical)
    (environment : String) : Except Error Claims := do
  identity run
  vacant logical true
  let _ ← realDirectory (tree.environments environment)
  if (claims.claims environment).isSome then
    .error (Error.conflict "Prepared disk has conflicting conversation claims.")
  else
    .ok {
      claims := Function.update claims.claims environment (some run)
      conversations := Function.update claims.conversations run (some environment) }

/-- A round of the first loop of `recover`. -/
def readClaim (tree : Tree) (claims : Claims) (run : String) : Except Error Claims :=
  match tree.disks run with
  | some (.directory logical) => do
      let pointer ← readIdentity logical.pointer
      match pointer with
      | none => .ok claims
      | some environment => claim tree claims run logical environment
  | _ => .ok claims

/-- A write of `recover`. -/
inductive Repair where
  | owner (environment run : String)
  | pointer (run environment : String)
deriving DecidableEq, Repr

/-- What `recover` is to do. -/
structure Plan where
  unclaimed : List String := []
  repair : List Repair := []
  owners : List String := []

/-- The conversation an environment belongs to. -/
def claimant (recorded claimed : Option String) : Except Error (Option String) :=
  match recorded, claimed with
  | some owner, some claim =>
      if owner ≠ claim then
        .error (Error.conflict "Disk ownership does not match its conversation.")
      else .ok (some owner)
  | some owner, none => .ok (some owner)
  | none, claimed => .ok claimed

/-- The pointer of the owner of an environment. -/
def planPointer (tree : Tree) (plan : Plan) (environment run : String) : Except Error Plan := do
  let pointed : Plan := { plan with repair := plan.repair ++ [.pointer run environment] }
  match tree.disks run with
  | none => .ok pointed
  | some entry => do
      let logical ← realDirectory (some entry)
      let pointer ← readIdentity logical.pointer
      match pointer with
      | some pointer =>
          if pointer = environment then .ok plan
          else .error (Error.conflict "Conversation has conflicting disk owners.")
      | none => (vacant logical false).map fun _ => pointed

/-- An environment that belongs to a conversation. -/
def planOwned (tree : Tree) (claims : Claims) (plan : Plan) (environment run : String) :
    Except Error Plan :=
  if plan.owners.contains run then
    .error (Error.conflict "Conversation has conflicting disk owners.")
  else if (claims.conversations run).any fun pointer => pointer ≠ environment then
    .error (Error.conflict "Conversation has conflicting disk owners.")
  else planPointer tree { plan with owners := run :: plan.owners } environment run

/-- A round of the second loop of `recover`. -/
def planEnvironment (tree : Tree) (claims : Claims) (plan : Plan) (environment : String) :
    Except Error Plan := do
  let physical ← realDirectory (tree.environments environment)
  identity environment
  let recorded ← readIdentity physical.owner
  let run ← claimant recorded (claims.claims environment)
  match run with
  | none => .ok { plan with unclaimed := plan.unclaimed ++ [environment] }
  | some run =>
      let repaired : Plan :=
        if recorded.isSome then plan
        else { plan with repair := plan.repair ++ [.owner environment run] }
      planOwned tree claims repaired environment run

/-- The checks of `recover`, all of which come before its writes. -/
def plan (tree : Tree) (listing : Listing) : Except Error Plan := do
  let claims ← listing.disks.foldlM (readClaim tree) {}
  listing.environments.foldlM (planEnvironment tree claims) {}

/-- A write of `recover`. -/
def Tree.repair (tree : Tree) : Repair → Tree
  | .owner environment run => tree.setOwner environment run
  | .pointer run environment => tree.setPointer run environment

/-- `remove_dir_all` of an environment. -/
def Tree.remove (tree : Tree) (environment : String) : Tree :=
  { tree with environments := Function.update tree.environments environment none }

/-- The writes of `recover`. -/
def Tree.carryOut (tree : Tree) (plan : Plan) : Tree :=
  plan.unclaimed.foldl Tree.remove (plan.repair.foldl Tree.repair tree)

/-- `recover`, with the state it leaves. -/
def recover (tree : Tree) (listing : Listing) : Except Error Unit × Tree :=
  match plan tree listing with
  | .error error => (.error error, tree)
  | .ok plan => (.ok (), tree.carryOut plan)

/-! ### Steps -/

/-- A prepared disk. -/
def Tree.prepare (tree : Tree) (environment : String) : Tree :=
  { tree with
    environments := Function.update tree.environments environment (some (.directory {})) }

/-- A step: a disk is prepared, an assignment goes on until a crash or its end, or a recovery
reads the directories in some order. -/
inductive Tree.Step (tree : Tree) : Tree → Prop where
  | prepare (environment : String) (absent : tree.environments environment = none) :
      Tree.Step tree (tree.prepare environment)
  | assign (environment run id : String) (next : Tree)
      (reached : next ∈ assignStates tree environment run id) : Tree.Step tree next
  | recover (listing : Listing) (lists : listing.Lists tree) :
      Tree.Step tree (Environments.recover tree listing).2

/-- What a run of steps leads to. -/
abbrev Tree.Leads (tree final : Tree) : Prop :=
  Relation.ReflTransGen Tree.Step tree final

end Cairn.Storage.Environments

import Mathlib.Algebra.Order.Ring.Nat
import Cairn.Error
import Cairn.Library.Interruptions

/-!
Owns the model of `prepare_source` in `storage/bootstrap.rs` and of `materialize` in
`storage/runtime.rs`: the directory of a disk, the writes they make to it one after the
other, and what they copy.

An error of the file system, too little space and a cancellation stop them where they are, as
a crash does; they have no branch of their own. The tools that format and grow a file system
are a parameter, and so is what a guest sees of an image.

Does not own the journal.
-/

set_option autoImplicit false

namespace Cairn.Storage.Resizing

open Cairn.Library.Interruptions

/-! ### Layouts -/

/-- `Layout`. -/
inductive Layout where
  | flat
  | paired (systemBytes : Nat)
deriving DecidableEq, Repr

def alignment : Nat := 4 * 1024 * 1024

def minSystem : Nat := 64 * 1024 * 1024

/-- `Layout::validate`. -/
def Layout.validate (layout : Layout) (size : Nat) : Except Error Unit :=
  match layout with
  | .flat => .ok ()
  | .paired systemBytes =>
      if systemBytes < minSystem ∨ systemBytes % alignment ≠ 0 ∨ size % 512 ≠ 0 ∨
          size < systemBytes + minSystem then .error Error.internal
      else .ok ()

/-- `Layout::grown`. -/
def Layout.grown (layout : Layout) (size : Nat) : Except Error Layout :=
  match layout with
  | .flat => .ok .flat
  | .paired systemBytes =>
      let next : Layout := .paired (max systemBytes (size / 4 / alignment * alignment))
      (next.validate size).map fun _ => next

/-! ### Journals -/

/-- The context of a journal. A grant may be absent, or null. -/
structure Context where
  unassigned : Bool := false
  master : Option String := none
  grant : Option (Option String) := none
deriving DecidableEq, Repr

/-- A journal: what it reads as, and the generation its next seal will have. -/
structure Journal where
  image : List UInt8
  layout : Layout := .flat
  context : Context
  generation : Nat
  sealed : List Nat := []
  published : Nat := 0
deriving DecidableEq, Repr

/-- The grant in the context of a journal. -/
def Journal.grant (journal : Journal) : Option String := journal.context.grant.join

/-- `bootstrap.pending`. -/
inductive Marker where
  | resizing
  | initializing (layout : Layout)
  | unreadable
deriving DecidableEq, Repr

/-- The directory of a disk. A directory that is being removed and an image that a tool is
changing have no contents to rely on. -/
structure Directory where
  lazy : Option Journal := none
  resizeSource : Option (Option Journal) := none
  data : Option (Option (List UInt8)) := none
  marker : Option Marker := none
deriving DecidableEq, Repr

/-! ### Copies -/

def blockSize : Nat := 4 * 1024 * 1024

/-- The bytes of a block. -/
def blockOf (block : Nat) (image : List UInt8) (index : Nat) : List UInt8 :=
  (image.drop (index * block)).take block

/-- `write_at`. -/
def writeAt (image : List UInt8) (offset : Nat) (bytes : List UInt8) : List UInt8 :=
  image.take offset ++ bytes ++ image.drop (offset + bytes.length)

/-- A block in the loops of `export` and of `copy_blocks`: zeros are not written. -/
def copyBlock (block : Nat) (image target : List UInt8) (index : Nat) : List UInt8 :=
  if (blockOf block image index).all (· = 0) then target
  else writeAt target (index * block) (blockOf block image index)

/-- `export` into an empty file, and `copy_blocks` into an empty journal. -/
def copied (block : Nat) (image : List UInt8) : List UInt8 :=
  (List.range ((image.length + block - 1) / block)).foldl (copyBlock block image)
    (List.replicate image.length 0)

/-! ### Preparing -/

section

variable {Files : Type}

/-- The tools that format an image or grow one. Growing keeps what a guest sees. -/
structure Tools (view : Layout → List UInt8 → Files) where
  selected : Nat → Except Error Layout
  prepareLayout : Nat → Layout → Option (List UInt8) → Option (List UInt8 × Layout)
  grows : ∀ size layout image grown next,
    prepareLayout size layout (some image) = some (grown, next) →
      view next grown = view layout image ∧ grown.length = size

/-- What a step of `prepare_source` does to the directory. -/
abbrev Step (Value : Type) := Action Directory Error Value

/-- An unfinished resize goes back to its original journal. -/
def reinstate : Step Unit := do
  let directory ← Action.get
  if directory.resizeSource.isSome ∧ directory.lazy.isNone then
    Action.write fun directory =>
      { directory with lazy := directory.resizeSource.join, resizeSource := none }
  else pure ()

/-- `remove_file` of the image. -/
def removeData : Step Unit := do
  let directory ← Action.get
  if directory.data.isSome then
    Action.write fun directory => { directory with data := none }
  else pure ()

/-- The marker of a bootstrap that was installed, and its image. -/
def settle : Step Unit := do
  let directory ← Action.get
  if directory.marker.isSome then do
    removeData
    Action.write fun directory => { directory with marker := none }
  else pure ()

/-- `remove_dir_all` of the original journal. -/
def discardSource : Step Unit := do
  let directory ← Action.get
  if directory.resizeSource.isSome then do
    Action.write fun directory => { directory with resizeSource := some none }
    Action.write fun directory => { directory with resizeSource := none }
  else pure ()

/-- `materialize`. -/
def materialize (journal : Journal) : Step Unit := do
  Action.write fun directory => { directory with data := some (some (copied blockSize journal.image)) }
  Action.write fun directory =>
    { directory with lazy := none, resizeSource := some directory.lazy }

/-- What was found of a journal. -/
inductive Existing where
  | absent
  | kept
  | resizing (layout : Layout) (grant : Option String) (generation : Nat)

/-- A journal that is there, once its directory is clean. -/
def grow (size : Nat) (journal : Journal) : Step Existing :=
  if size < journal.image.length then
    Action.fail (Error.conflict "A retained VM disk cannot be shrunk.")
  else if size = journal.image.length then pure .kept
  else do
    Action.write fun directory => { directory with marker := some .resizing }
    materialize journal
    pure (.resizing journal.layout journal.grant journal.generation)

/-- The branch of `prepare_source` for a journal that is there. -/
def resizeExisting (size : Nat) : Step Existing := do
  let directory ← Action.get
  match directory.lazy with
  | none => pure .absent
  | some journal => do
      settle
      discardSource
      grow size journal

/-- An image without a marker is not one of `prepare_source`. -/
def rejectLegacy : Step Unit := do
  let directory ← Action.get
  if directory.data.isSome ∧ directory.marker.isNone then
    Action.fail (Error.conflict ("This conversation still has a legacy local disk and cannot " ++
      "start with S3-backed storage."))
  else pure ()

/-- The layout of a first bootstrap. -/
def initialLayout {view : Layout → List UInt8 → Files} (tools : Tools view) (size : Nat)
    (requested : Option Layout) (marker : Option Marker) : Except Error Layout :=
  match marker with
  | some (.initializing layout) => .ok layout
  | some .resizing => .error (Error.conflict "Disk resize requires its original journal.")
  | some .unreadable => .error Error.internal
  | none => match requested with
    | some layout => .ok layout
    | none => tools.selected size

/-- The marker of a first bootstrap, which starts from no image. -/
def beginBootstrap {view : Layout → List UInt8 → Files} (tools : Tools view) (size : Nat)
    (requested : Option Layout) : Step Layout := do
  let directory ← Action.get
  match initialLayout tools size requested directory.marker >>= fun layout => layout.grown size with
  | .error error => Action.fail error
  | .ok layout => do
      Action.write fun directory => { directory with marker := some (.initializing layout) }
      removeData
      pure layout

/-- `create_prepared` or `create_at_generation`, with the blocks of the image. -/
def createJournal (prepared : Bool) (context : Context) (generation : Nat) (image : List UInt8)
    (layout : Layout) : Except Error Journal :=
  if prepared then
    if ¬ context.unassigned ∨ context.master.isSome ∨ context.grant.isSome then
      .error (Error.bad "Prepared disks require a local-only base.")
    else .ok { image := copied blockSize image, layout, context, generation := 1 }
  else if generation < 1 ∨ generation = 2 ^ 63 - 1 then .error Error.internal
  else .ok { image := copied blockSize image, layout, context, generation }

/-- The installation of a journal: its rename, and what is removed after it. -/
def install (journal : Journal) : Step Unit := do
  Action.write fun directory => { directory with lazy := some journal }
  Action.write fun directory => { directory with data := none }
  Action.write fun directory => { directory with marker := none }
  discardSource

/-- The image is formatted or grown in place, and its journal is installed. -/
def rebuild {view : Layout → List UInt8 → Files} (tools : Tools view) (size : Nat) (prepared : Bool)
    (context : Context) (generation : Nat) (layout : Layout) : Step Unit := do
  let directory ← Action.get
  Action.write fun directory => { directory with data := some none }
  match tools.prepareLayout size layout directory.data.join with
  | none => Action.fail Error.internal
  | some (image, layout) => do
      Action.write fun directory => { directory with data := some (some image) }
      match createJournal prepared context generation image layout with
      | .error error => Action.fail error
      | .ok journal => install journal

/-- The rest of `prepare_source`. -/
def rebuildExisting {view : Layout → List UInt8 → Files} (tools : Tools view) (size : Nat)
    (context : Context) (prepared : Bool) (requested : Option Layout) : Existing → Step Unit
  | .kept => pure ()
  | .absent => do
      rejectLegacy
      let layout ← beginBootstrap tools size requested
      rebuild tools size prepared context 1 layout
  | .resizing layout grant generation => do
      rejectLegacy
      rebuild tools size prepared { context with grant := some grant } generation layout

/-- `prepare_source`. -/
def prepareSource {view : Layout → List UInt8 → Files} (tools : Tools view) (size : Nat)
    (context : Context) (prepared : Bool) (requested : Option Layout) : Step Unit := do
  reinstate
  let existing ← resizeExisting size
  rebuildExisting tools size context prepared requested existing

end

end Cairn.Storage.Resizing

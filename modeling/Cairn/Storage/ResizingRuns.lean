import Cairn.Storage.Resizing
import Mathlib.Logic.Relation

/-!
Owns the resize of a journal over any number of attempts: the journal stays the authority
until its replacement is installed, and the replacement shows a guest the same files under
the same grant, with a generation that no seal or publication has had.

Does not own the steps of an attempt.
-/

set_option autoImplicit false

namespace Cairn.Storage.Resizing

open Cairn.Library.Interruptions

variable {Files : Type} {view : Layout → List UInt8 → Files}

/-! ### Copies -/

theorem blockSize_pos : 0 < blockSize := by decide

theorem replicate_of_all_zero {bytes : List UInt8} (zero : bytes.all (· = 0) = true) :
    bytes = List.replicate bytes.length 0 :=
  List.eq_replicate_iff.mpr ⟨rfl, fun byte member => by
    simpa using List.all_eq_true.mp zero byte member⟩

/-- The image up to a block, and zeros from there on. -/
def copiedTo (block : Nat) (image : List UInt8) (count : Nat) : List UInt8 :=
  image.take (count * block) ++
    List.replicate (image.length - count * block) 0

theorem copyBlock_eq {block : Nat} {image : List UInt8} {index : Nat}
    (inside : index * block < image.length) :
    copyBlock block image (copiedTo block image index) index = copiedTo block image (index + 1) := by
  have next : (index + 1) * block = index * block + block := by
    rw [Nat.add_mul, Nat.one_mul]
  have taken : image.take ((index + 1) * block) =
      image.take (index * block) ++ blockOf block image index := by
    rw [next, List.take_add]
    rfl
  have size : (blockOf block image index).length =
      (image.length - index * block) - (image.length - (index + 1) * block) := by
    rw [blockOf, List.length_take, List.length_drop]
    omega
  have zeros : List.replicate (image.length - index * block) (0 : UInt8) =
      List.replicate (blockOf block image index).length 0 ++
        List.replicate (image.length - (index + 1) * block) 0 := by
    rw [← List.replicate_add]
    congr 1
    omega
  unfold copyBlock copiedTo
  split
  · rename_i isZero
    rw [taken, zeros, ← replicate_of_all_zero isZero, List.append_assoc]
  · have short : (image.take (index * block)).length = index * block := by
      rw [List.length_take]
      omega
    rw [writeAt, taken, zeros, List.take_left' short, List.drop_append, short,
      List.drop_of_length_le (by omega), List.nil_append, Nat.add_sub_cancel_left,
      List.drop_left' (by rw [List.length_replicate])]

/-- A copy has the bytes of its image. -/
theorem copied_eq {block : Nat} (positive : 0 < block) (image : List UInt8) :
    copied block image = image := by
  have prefixes : ∀ count ≤ (image.length + block - 1) / block,
      (List.range count).foldl (copyBlock block image) (List.replicate image.length 0) =
        copiedTo block image count := by
    intro count
    induction count with
    | zero => simp [copiedTo]
    | succ count inductionHypothesis =>
        intro more
        have inside : count * block < image.length := by
          have room := (Nat.le_div_iff_mul_le positive).mp more
          rw [Nat.add_mul, Nat.one_mul] at room
          omega
        rw [List.range_succ, List.foldl_append, inductionHypothesis (by omega)]
        exact copyBlock_eq inside
  have whole : image.length ≤ (image.length + block - 1) / block * block := by
    have rest := Nat.lt_div_mul_add (a := image.length + block - 1) positive
    omega
  rw [copied, prefixes _ (Nat.le_refl _), copiedTo, List.take_of_length_le whole,
    Nat.sub_eq_zero_of_le whole, List.replicate_zero, List.append_nil]

/-! ### The authority over a directory -/

/-- A journal is the one that counts in a directory. -/
structure Directory.Holds (directory : Directory) (journal : Journal) : Prop where
  authority : directory.lazy = some journal ∨
    (directory.lazy = none ∧ directory.resizeSource = some (some journal))
  marked : directory.data.isSome = true → directory.marker.isSome = true

/-- A journal in its place, and nothing else in its directory. -/
def Journal.installed (journal : Journal) : Directory where
  lazy := some journal

/-- A journal takes the place of another: a guest sees the same files, the grant and the next
generation are the same, and nothing is sealed or published. -/
structure Replaces (view : Layout → List UInt8 → Files) (size : Nat) (journal next : Journal) :
    Prop where
  files : view next.layout next.image = view journal.layout journal.image
  grant : next.grant = journal.grant
  generation : next.generation = journal.generation
  fresh : next.sealed = [] ∧ next.published = 0
  size : next.image.length = size ∧ journal.image.length < size

/-- The original counts, or its replacement was installed. -/
def Protected (view : Layout → List UInt8 → Files) (size : Nat) (journal : Journal)
    (directory : Directory) : Prop :=
  directory.Holds journal ∨
    ∃ next, Replaces view size journal next ∧ directory.lazy = some next ∧ directory.Holds next

variable {journal : Journal} {directory : Directory}

/-- A directory whose journal is in its place. -/
structure Directory.Stores (directory : Directory) (journal : Journal) : Prop where
  lazy : directory.lazy = some journal
  marked : directory.data.isSome = true → directory.marker.isSome = true

theorem Directory.Stores.holds (stores : directory.Stores journal) : directory.Holds journal :=
  ⟨.inl stores.lazy, stores.marked⟩

/-! ### The steps of an attempt -/

theorem reinstate_keeps (holds : directory.Holds journal) :
    Action.Keeps reinstate directory (·.Holds journal) fun _ next => next.Stores journal := by
  refine Action.keeps_get_bind ?_
  rcases holds.authority with stored | ⟨absent, source⟩
  · rw [if_neg (by simp [stored])]
    exact Action.keeps_pure ⟨stored, holds.marked⟩
  · rw [if_pos (by simp [absent, source])]
    have back : Directory.Stores { directory with
        lazy := directory.resizeSource.join, resizeSource := none } journal :=
      ⟨by simp [source], holds.marked⟩
    exact Action.keeps_write back.holds back

theorem removeData_keeps {Always : Directory → Prop}
    (always : Always { directory with data := none }) :
    Action.Keeps removeData directory Always fun _ next =>
      next = { directory with data := none } := by
  refine Action.keeps_get_bind ?_
  split
  · exact Action.keeps_write always rfl
  · rename_i absent
    have same : directory.data = none := by simpa using absent
    exact Action.keeps_pure (by rw [← same])

/-- The writes that do not touch the journals. -/
theorem settle_keeps (stores : directory.Stores journal) :
    Action.Keeps settle directory (·.Stores journal) fun _ next =>
      next = { directory with data := none, marker := none } := by
  refine Action.keeps_get_bind ?_
  split
  · refine Action.keeps_bind (removeData_keeps ⟨stores.lazy, fun data => by simp at data⟩) ?_
    rintro _ _ rfl
    exact Action.keeps_write ⟨stores.lazy, fun data => by simp at data⟩ rfl
  · rename_i unmarked
    have noMarker : directory.marker = none := by simpa using unmarked
    have noData : directory.data = none := by
      simpa using fun data => unmarked (stores.marked data)
    exact Action.keeps_pure (by rw [← noMarker, ← noData])

theorem discardSource_keeps (stores : directory.Stores journal) :
    Action.Keeps discardSource directory (·.Stores journal) fun _ next =>
      next = { directory with resizeSource := none } := by
  refine Action.keeps_get_bind ?_
  split
  · refine Action.keeps_write_bind ⟨stores.lazy, stores.marked⟩ ?_
    exact Action.keeps_write ⟨stores.lazy, stores.marked⟩ rfl
  · rename_i absent
    have same : directory.resizeSource = none := by simpa using absent
    exact Action.keeps_pure (by rw [← same])

/-- The directory in which a journal is rebuilt. -/
def Journal.exported (journal : Journal) : Directory where
  resizeSource := some (some journal)
  data := some (some journal.image)
  marker := some .resizing

/-- What the branch for a journal that is there leaves. -/
inductive Grown (size : Nat) (journal : Journal) : Existing → Directory → Prop where
  | kept (same : size = journal.image.length) : Grown size journal .kept journal.installed
  | resizing (larger : journal.image.length < size) :
      Grown size journal (.resizing journal.layout journal.grant journal.generation)
        journal.exported

theorem grow_keeps {size : Nat} :
    Action.Keeps (grow size journal) journal.installed (·.Holds journal) (Grown size journal) := by
  unfold grow
  split
  · exact Action.keeps_fail
  · rename_i larger
    split
    · rename_i same
      exact Action.keeps_pure (.kept same)
    · rename_i apart
      refine Action.keeps_write_bind ⟨.inl rfl, fun _ => rfl⟩ ?_
      have materialized : Action.Keeps (materialize journal)
          { journal.installed with marker := some .resizing } (·.Holds journal)
          fun _ next => next = journal.exported := by
        refine Action.keeps_write_bind ⟨.inl rfl, fun _ => rfl⟩ ?_
        refine Action.keeps_write ⟨.inr ⟨rfl, rfl⟩, fun _ => rfl⟩ ?_
        simp [Journal.exported, Journal.installed, copied_eq blockSize_pos]
      refine Action.keeps_bind materialized ?_
      rintro _ _ rfl
      exact Action.keeps_pure (.resizing (by omega))

theorem resizeExisting_keeps {size : Nat} (stores : directory.Stores journal) :
    Action.Keeps (resizeExisting size) directory (·.Holds journal) (Grown size journal) := by
  refine Action.keeps_get_bind ?_
  rw [stores.lazy]
  refine Action.keeps_bind ((settle_keeps stores).mono (fun _ => Directory.Stores.holds)
    fun _ _ => id) ?_
  rintro _ _ rfl
  have settled : Directory.Stores { directory with data := none, marker := none } journal :=
    ⟨stores.lazy, fun data => by simp at data⟩
  refine Action.keeps_bind ((discardSource_keeps settled).mono (fun _ => Directory.Stores.holds)
    fun _ _ => id) ?_
  rintro _ _ rfl
  have clean : ({ directory with data := none, marker := none, resizeSource := none } : Directory) =
      journal.installed := by
    rw [stores.lazy]
    rfl
  rw [clean]
  exact grow_keeps

theorem rejectLegacy_keeps {Always : Directory → Prop} :
    Action.Keeps rejectLegacy directory Always fun _ next => next = directory := by
  refine Action.keeps_get_bind ?_
  split
  · exact Action.keeps_fail
  · exact Action.keeps_pure rfl

/-- The installation of a replacement. -/
theorem install_keeps {size : Nat} {next : Journal} (replaces : Replaces view size journal next)
    (marked : directory.marker.isSome = true) :
    Action.Keeps (install next) directory (Protected view size journal) fun _ final =>
      final = next.installed := by
  have guarded : ∀ state : Directory, state.Stores next → Protected view size journal state :=
    fun state stores => .inr ⟨next, replaces, stores.lazy, stores.holds⟩
  refine Action.keeps_write_bind (guarded _ ⟨rfl, fun _ => marked⟩) ?_
  refine Action.keeps_write_bind (guarded _ ⟨rfl, fun data => by simp at data⟩) ?_
  refine Action.keeps_write_bind (guarded _ ⟨rfl, fun data => by simp at data⟩) ?_
  exact (discardSource_keeps ⟨rfl, fun data => by simp at data⟩).mono guarded fun _ _ same => same

theorem createJournal_of_ok {prepared : Bool} {context : Context} {generation : Nat}
    {image : List UInt8} {layout : Layout} {next : Journal} (granted : context.grant.isSome = true)
    (created : createJournal prepared context generation image layout = .ok next) :
    next = { image, layout, context, generation } := by
  unfold createJournal at created
  rw [copied_eq blockSize_pos] at created
  split at created
  · rw [if_pos (.inr (.inr granted))] at created
    simp at created
  · split at created
    · simp at created
    · exact (Except.ok.inj created).symm

/-- A journal that was created of an image the tools have grown. -/
theorem replaces_of_created {tools : Tools view} {size : Nat} {prepared : Bool} {context : Context}
    {image : List UInt8} {layout : Layout} {next : Journal} (larger : journal.image.length < size)
    (grown : tools.prepareLayout size journal.layout (some journal.image) = some (image, layout))
    (created : createJournal prepared { context with grant := some journal.grant }
      journal.generation image layout = .ok next) : Replaces view size journal next := by
  obtain ⟨files, length⟩ := tools.grows _ _ _ _ _ grown
  obtain rfl := createJournal_of_ok rfl created
  exact ⟨files, rfl, rfl, ⟨rfl, rfl⟩, length, larger⟩

theorem rebuild_keeps {tools : Tools view} {size : Nat} {prepared : Bool} {context : Context}
    (larger : journal.image.length < size) :
    Action.Keeps (rebuild tools size prepared { context with grant := some journal.grant }
        journal.generation journal.layout) journal.exported (Protected view size journal)
      fun _ final => ∃ next, Replaces view size journal next ∧ final = next.installed := by
  have original : ∀ data, Protected view size journal { journal.exported with data := data } :=
    fun _ => .inl ⟨.inr ⟨rfl, rfl⟩, fun _ => rfl⟩
  refine Action.keeps_get_bind (Action.keeps_write_bind (original _) ?_)
  split
  · exact Action.keeps_fail
  · rename_i image layout grown
    refine Action.keeps_write_bind (original _) ?_
    split
    · exact Action.keeps_fail
    · rename_i next created
      have replaces := replaces_of_created larger grown created
      exact (install_keeps replaces rfl).mono (fun _ => id) fun _ _ same => ⟨next, replaces, same⟩

/-- What an attempt that returns leaves: the journal in its place, or its replacement. -/
def Finished (view : Layout → List UInt8 → Files) (size : Nat) (journal : Journal)
    (directory : Directory) : Prop :=
  (directory = journal.installed ∧ journal.image.length = size) ∨
    ∃ next, Replaces view size journal next ∧ directory = next.installed

/-- The original counts in every state of an attempt until its replacement is installed. -/
theorem prepareSource_keeps {tools : Tools view} {size : Nat} {context : Context} {prepared : Bool}
    {requested : Option Layout} (holds : directory.Holds journal) :
    Action.Keeps (prepareSource tools size context prepared requested) directory
      (Protected view size journal) fun _ next => Finished view size journal next := by
  refine Action.keeps_bind ((reinstate_keeps holds).mono (fun _ => .inl) fun _ _ => id) ?_
  intro _ middle stores
  refine Action.keeps_bind ((resizeExisting_keeps stores).mono (fun _ => .inl) fun _ _ => id) ?_
  rintro existing last grown
  cases grown with
  | kept same => exact Action.keeps_pure (.inl ⟨rfl, same.symm⟩)
  | resizing larger =>
      refine Action.keeps_bind rejectLegacy_keeps ?_
      rintro _ _ rfl
      exact (rebuild_keeps larger).mono (fun _ => id) fun _ _ => .inr

/-- A directory with what its guest last wrote, and the greatest generation that was ever
sealed. -/
structure Tracked (Files : Type) where
  directory : Directory
  files : Files
  mark : Nat

/-- A step: an attempt that stops anywhere or returns, and what is done with a journal between
attempts. -/
inductive Tracked.Step (view : Layout → List UInt8 → Files) (tracked : Tracked Files) :
    Tracked Files → Prop where
  | attempt (tools : Tools view) (size : Nat) (context : Context) (prepared : Bool)
      (requested : Option Layout) (next : Directory)
      (leaves : (prepareSource tools size context prepared requested).Leaves
        tracked.directory next) : Tracked.Step view tracked { tracked with directory := next }
  | write (journal : Journal) (image : List UInt8) (live : tracked.directory.lazy = some journal)
      (same : image.length = journal.image.length) : Tracked.Step view tracked { tracked with
        directory := { tracked.directory with lazy := some { journal with image } }
        files := view journal.layout image }
  | sealGeneration (journal : Journal) (live : tracked.directory.lazy = some journal) :
      Tracked.Step view tracked { tracked with
        directory := { tracked.directory with lazy := some { journal with
          generation := journal.generation + 1
          sealed := journal.generation :: journal.sealed } }
        mark := journal.generation }
  | publish (journal : Journal) (generation : Nat) (live : tracked.directory.lazy = some journal)
      (ready : generation ∈ journal.sealed) : Tracked.Step view tracked { tracked with
        directory := { tracked.directory with lazy := some { journal with
          published := generation
          sealed := journal.sealed.filter (generation < ·) } } }

/-- The journal that counts shows what the guest wrote, under the grant, and its generation is
above everything that was sealed or published. -/
structure Tracked.Sound (view : Layout → List UInt8 → Files) (grant : Option String)
    (tracked : Tracked Files) (journal : Journal) : Prop where
  holds : tracked.directory.Holds journal
  files : view journal.layout journal.image = tracked.files
  grant : journal.grant = grant
  generation : tracked.mark < journal.generation
  sealed : ∀ generation ∈ journal.sealed, generation ≤ tracked.mark
  published : journal.published ≤ tracked.mark

theorem Replaces.sound {grant : Option String} {tracked : Tracked Files} {size : Nat}
    {next : Journal} (replaces : Replaces view size journal next)
    (sound : tracked.Sound view grant journal) (holds : directory.Holds next) :
    Tracked.Sound view grant { tracked with directory } next where
  holds := holds
  files := replaces.files.trans sound.files
  grant := replaces.grant.trans sound.grant
  generation := replaces.generation ▸ sound.generation
  sealed := by simp [replaces.fresh.1]
  published := by simp [replaces.fresh.2]

theorem Directory.Holds.eq_of_lazy {stored : Journal} (holds : directory.Holds journal)
    (live : directory.lazy = some stored) : stored = journal := by
  rcases holds.authority with same | ⟨absent, -⟩
  · exact Option.some.inj (live.symm.trans same)
  · simp [absent] at live

/-- Every state of an attempt is protected. -/
theorem protected_of_leaves {tools : Tools view} {size : Nat} {context : Context} {prepared : Bool}
    {requested : Option Layout} {next : Directory} (holds : directory.Holds journal)
    (leaves : (prepareSource tools size context prepared requested).Leaves directory next) :
    Protected view size journal next := by
  rcases leaves with rfl | member
  · exact .inl holds
  · exact (prepareSource_keeps holds).visited next member

theorem Tracked.Step.sound {grant : Option String} {tracked next : Tracked Files}
    (step : Tracked.Step view tracked next) (sound : tracked.Sound view grant journal) :
    ∃ other, next.Sound view grant other := by
  cases step with
  | attempt tools size context prepared requested directory leaves =>
      rcases protected_of_leaves sound.holds leaves with holds | ⟨other, replaces, -, holds⟩
      · exact ⟨journal, holds, sound.files, sound.grant, sound.generation, sound.sealed,
          sound.published⟩
      · exact ⟨other, replaces.sound sound holds⟩
  | write stored image live same =>
      obtain rfl := sound.holds.eq_of_lazy live
      exact ⟨_, ⟨.inl rfl, sound.holds.marked⟩, rfl, sound.grant, sound.generation, sound.sealed,
        sound.published⟩
  | sealGeneration stored live =>
      obtain rfl := sound.holds.eq_of_lazy live
      refine ⟨_, ⟨.inl rfl, sound.holds.marked⟩, sound.files, sound.grant, Nat.lt_succ_self _,
        fun generation member => ?_, Nat.le_trans sound.published (Nat.le_of_lt sound.generation)⟩
      rcases List.mem_cons.mp member with rfl | older
      · exact Nat.le_refl _
      · exact Nat.le_trans (sound.sealed generation older) (Nat.le_of_lt sound.generation)
  | publish stored generation live ready =>
      obtain rfl := sound.holds.eq_of_lazy live
      exact ⟨_, ⟨.inl rfl, sound.holds.marked⟩, sound.files, sound.grant, sound.generation,
        fun other member => sound.sealed other (List.mem_filter.mp member).1,
        sound.sealed generation ready⟩

/-- A guest that sees the bytes up to the zeros at the end. -/
def trimmed (_ : Layout) (image : List UInt8) : List UInt8 := image.reverse.dropWhile (· = 0)

theorem trimmed_padded (layout next : Layout) (image : List UInt8) (count : Nat) :
    trimmed next (image ++ List.replicate count 0) = trimmed layout image := by
  rw [trimmed, trimmed, List.reverse_append, List.reverse_replicate]
  induction count with
  | zero => rfl
  | succ count inductionHypothesis => simp [List.replicate_succ, inductionHypothesis]

/-- An image grows by zeros. -/
def pad (size : Nat) (layout : Layout) (image : Option (List UInt8)) :
    Option (List UInt8 × Layout) :=
  image.bind fun image =>
    if image.length ≤ size then some (image ++ List.replicate (size - image.length) 0, layout)
    else none

theorem pad_grows : ∀ size layout image grown next,
    pad size layout (some image) = some (grown, next) →
      trimmed next grown = trimmed layout image ∧ grown.length = size := by
  intro size layout image grown next padded
  rw [pad, Option.bind_some] at padded
  split at padded
  · obtain ⟨rfl, rfl⟩ := Prod.mk.inj (Option.some.inj padded)
    refine ⟨trimmed_padded _ _ _ _, ?_⟩
    rw [List.length_append, List.length_replicate]
    omega
  · cases padded

/-- Tools that grow an image by zeros. -/
def padding : Tools trimmed where
  selected _ := .ok .flat
  prepareLayout := pad
  grows := pad_grows

end Cairn.Storage.Resizing

import Cairn.Library.Results
import Cairn.Storage.Environments

/-!
Owns what `recover` leaves: ownership is a partial bijection, both halves of every claim are
written, only unclaimed environments are gone, and another recovery changes nothing.

Does not own when it is called.
-/

set_option autoImplicit false

namespace Cairn.Storage.Environments

open Cairn.Library.Results

/-! ### What the records say -/

/-- The environment a conversation points to. -/
def Tree.pointer? (tree : Tree) (run : String) : Option String :=
  match tree.disks run with
  | some (.directory logical) => (readIdentity logical.pointer).toOption.join
  | _ => none

/-- The conversation that owns an environment. -/
def Tree.owner? (tree : Tree) (environment : String) : Option String :=
  match tree.environments environment with
  | some (.directory physical) => (readIdentity physical.owner).toOption.join
  | _ => none

/-- A conversation or an environment names the other. -/
def Tree.Claims (tree : Tree) (run environment : String) : Prop :=
  tree.pointer? run = some environment ∨ tree.owner? environment = some run

variable {tree : Tree} {listing : Listing}

theorem identity_eq_ok {value : String} : identity value = .ok () ↔ isIdentity value = true := by
  unfold identity
  split
  · simp [*]
  · split <;> simp [*]

/-- An identity reads back. -/
theorem readIdentity_file {value : String} (valid : isIdentity value = true) :
    readIdentity (some (.file value)) = .ok (some value) := by
  have short : value.toList.length ≤ 37 := by
    simp only [isIdentity, isHyphenated, Bool.and_eq_true, decide_eq_true_eq] at valid
    omega
  have whole : String.ofList (value.toList.take 37) = value := by
    rw [List.take_of_length_le short, String.ofList_toList]
  simp only [readIdentity, whole, identity_eq_ok.mpr valid]
  rfl

/-- What is read is an identity. -/
theorem isIdentity_of_read {record : Option Record} {value : String}
    (read : readIdentity record = .ok (some value)) : isIdentity value = true := by
  unfold readIdentity at read
  split at read
  · simp at read
  · simp at read
  · simp at read
  · obtain ⟨_, valid, same⟩ := map_eq_ok.mp read
    obtain rfl := Option.some.inj same
    exact identity_eq_ok.mp valid

theorem pointer_of_read {run : String} {logical : Logical} {value : Option String}
    (isDirectory : tree.disks run = some (.directory logical))
    (read : readIdentity logical.pointer = .ok value) : tree.pointer? run = value := by
  simp [Tree.pointer?, isDirectory, read, Except.toOption]

theorem owner_of_read {environment : String} {physical : Physical} {value : Option String}
    (isDirectory : tree.environments environment = some (.directory physical))
    (read : readIdentity physical.owner = .ok value) : tree.owner? environment = value := by
  simp [Tree.owner?, isDirectory, read, Except.toOption]

/-- A record that names something is read without an error. -/
theorem isIdentity_of_join {record : Option Record} {value : String}
    (names : (readIdentity record).toOption.join = some value) : isIdentity value = true := by
  cases read : readIdentity record with
  | error => simp [read, Except.toOption] at names
  | ok found =>
      rw [read] at names
      exact isIdentity_of_read (read.trans (congrArg Except.ok names))

theorem isIdentity_pointer {run environment : String}
    (points : tree.pointer? run = some environment) : isIdentity environment = true := by
  unfold Tree.pointer? at points
  split at points
  · exact isIdentity_of_join points
  · simp at points

theorem isIdentity_owner {run environment : String}
    (owns : tree.owner? environment = some run) : isIdentity run = true := by
  unfold Tree.owner? at owns
  split at owns
  · exact isIdentity_of_join owns
  · simp at owns

theorem realDirectory_eq_ok {Contents : Type} {entry : Option (Entry Contents)}
    {contents : Contents} : realDirectory entry = .ok contents ↔ entry = some (.directory contents) := by
  unfold realDirectory
  split <;> simp

/-! ### The pointers -/

/-- What the first loop of `recover` found in the directories it has read. -/
structure Scanned (tree : Tree) (read : List String) (claims : Claims) : Prop where
  claimed : ∀ environment run, claims.claims environment = some run ↔
    run ∈ read ∧ tree.pointer? run = some environment
  conversations : ∀ run environment, claims.conversations run = some environment ↔
    run ∈ read ∧ tree.pointer? run = some environment
  readable : ∀ run ∈ read, ∀ logical, tree.disks run = some (.directory logical) →
    readIdentity logical.pointer = .ok (tree.pointer? run)
  named : ∀ run ∈ read, ∀ environment, tree.pointer? run = some environment →
    isIdentity run = true ∧ (∃ physical, tree.environments environment = some (.directory physical))
      ∧ ∀ logical, tree.disks run = some (.directory logical) → vacant logical true = .ok ()

theorem Scanned.empty (tree : Tree) : Scanned tree [] {} :=
  ⟨by simp, by simp, by simp, by simp⟩

/-- A directory without a pointer. -/
theorem Scanned.skip {read : List String} {claims : Claims} {run : String}
    (scanned : Scanned tree read claims) (unpointed : tree.pointer? run = none)
    (readable : ∀ logical, tree.disks run = some (.directory logical) →
      readIdentity logical.pointer = .ok none) : Scanned tree (read ++ [run]) claims := by
  have only : ∀ other environment, tree.pointer? other = some environment →
      (other ∈ read ++ [run] ↔ other ∈ read) := by
    intro other environment points
    rw [List.mem_append, List.mem_singleton, or_iff_left]
    rintro rfl
    simp [unpointed] at points
  refine ⟨fun environment other => ?_, fun other environment => ?_, fun other member => ?_,
    fun other member environment points => ?_⟩
  · rw [scanned.claimed]
    exact and_congr_left fun points => (only other environment points).symm
  · rw [scanned.conversations]
    exact and_congr_left fun points => (only other environment points).symm
  · rcases List.mem_append.mp member with known | last
    · exact scanned.readable other known
    · obtain rfl := List.mem_singleton.mp last
      rw [unpointed]
      exact readable
  · exact scanned.named other ((only other environment points).mp member) environment points

/-- A directory with a pointer. -/
theorem Scanned.claim {read : List String} {claims next : Claims} {run environment : String}
    {logical : Logical} (scanned : Scanned tree read claims)
    (isDirectory : tree.disks run = some (.directory logical))
    (points : readIdentity logical.pointer = .ok (some environment)) (fresh : run ∉ read)
    (claimed : claim tree claims run logical environment = .ok next) :
    Scanned tree (read ++ [run]) next := by
  have isPointer := pointer_of_read isDirectory points
  obtain ⟨_, valid, checked⟩ := bind_eq_ok.mp claimed
  obtain ⟨_, isVacant, opened⟩ := bind_eq_ok.mp checked
  obtain ⟨physical, isPhysical, inserted⟩ := bind_eq_ok.mp opened
  clear claimed checked opened
  split at inserted
  · simp at inserted
  · rename_i unclaimed
    obtain rfl := Except.ok.inj inserted
    have unclaimed : claims.claims environment = none := by simpa using unclaimed
    refine ⟨fun other owner => ?_, fun other target => ?_, fun other member => ?_,
      fun other member target pointed => ?_⟩
    · simp only [Function.update_apply, List.mem_append, List.mem_singleton]
      split
      · rename_i same
        subst same
        constructor
        · rintro same
          obtain rfl := Option.some.inj same
          exact ⟨.inr rfl, isPointer⟩
        · rintro ⟨member | rfl, pointed⟩
          · rw [(scanned.claimed other owner).mpr ⟨member, pointed⟩] at unclaimed
            simp at unclaimed
          · rfl
      · rename_i apart
        rw [scanned.claimed]
        refine and_congr_left fun pointed => ⟨.inl, fun known => known.resolve_right ?_⟩
        rintro rfl
        exact apart (Option.some.inj (pointed.symm.trans isPointer))
    · simp only [Function.update_apply, List.mem_append, List.mem_singleton]
      split
      · rename_i same
        subst same
        rw [isPointer]
        simp
      · rename_i apart
        rw [scanned.conversations]
        exact and_congr_left fun _ => (or_iff_left apart).symm
    · rcases List.mem_append.mp member with known | last
      · exact scanned.readable other known
      · obtain rfl := List.mem_singleton.mp last
        intro contents isContents
        rw [isDirectory] at isContents
        obtain rfl := (Entry.directory.inj (Option.some.inj isContents))
        rw [isPointer]
        exact points
    · rcases List.mem_append.mp member with known | last
      · exact scanned.named other known target pointed
      · obtain rfl := List.mem_singleton.mp last
        obtain rfl := Option.some.inj (isPointer.symm.trans pointed)
        refine ⟨identity_eq_ok.mp valid, ⟨physical, realDirectory_eq_ok.mp isPhysical⟩, ?_⟩
        intro contents isContents
        rw [isDirectory] at isContents
        obtain rfl := (Entry.directory.inj (Option.some.inj isContents))
        exact isVacant

theorem Scanned.step {read : List String} {claims next : Claims} {run : String}
    (scanned : Scanned tree read claims) (fresh : run ∉ read)
    (round : readClaim tree claims run = .ok next) : Scanned tree (read ++ [run]) next := by
  unfold readClaim at round
  split at round
  · rename_i logical isDirectory
    obtain ⟨pointer, isPointer, entered⟩ := bind_eq_ok.mp round
    cases pointer with
    | none =>
        obtain rfl := Except.ok.inj entered
        refine scanned.skip (pointer_of_read isDirectory isPointer) fun other isOther => ?_
        rw [isDirectory] at isOther
        obtain rfl := Entry.directory.inj (Option.some.inj isOther)
        exact isPointer
    | some environment => exact scanned.claim isDirectory isPointer fresh entered
  · rename_i notDirectory
    obtain rfl := Except.ok.inj round
    refine scanned.skip ?_ fun logical isDirectory => absurd isDirectory (notDirectory logical)
    unfold Tree.pointer?
    split
    · exact absurd ‹_› (notDirectory _)
    · rfl

theorem Scanned.loop {runs : List String} {claims : Claims} (distinct : runs.Nodup)
    (read : runs.foldlM (readClaim tree) {} = .ok claims) : Scanned tree runs claims := by
  have holds := foldlM_eq_ok
    (motive := fun rest claims => ∃ read, runs = read ++ rest ∧ Scanned tree read claims)
    (fun run rest claims next holds round => ?_) ⟨[], rfl, .empty tree⟩ read
  · obtain ⟨done, whole, scanned⟩ := holds
    rw [List.append_nil] at whole
    exact whole ▸ scanned
  · obtain ⟨done, whole, scanned⟩ := holds
    refine ⟨done ++ [run], by simp [whole], scanned.step ?_ round⟩
    rw [whole] at distinct
    exact fun member => (List.nodup_append.mp distinct).2.2 run member run List.mem_cons_self rfl

/-- Once every directory was read, the claims are the pointers. -/
structure Scanned.Whole (tree : Tree) (claims : Claims) : Prop where
  claimed : ∀ environment run, claims.claims environment = some run ↔
    tree.pointer? run = some environment
  conversations : ∀ run environment, claims.conversations run = some environment ↔
    tree.pointer? run = some environment

theorem pointer_of_absent {run : String} (absent : tree.disks run = none) :
    tree.pointer? run = none := by
  simp [Tree.pointer?, absent]

theorem Scanned.whole {runs : List String} {claims : Claims} (scanned : Scanned tree runs claims)
    (every : ∀ name, name ∈ runs ↔ tree.disks name ≠ none) : Scanned.Whole tree claims := by
  have member : ∀ run environment, tree.pointer? run = some environment → run ∈ runs := by
    intro run environment points
    refine (every run).mpr fun absent => ?_
    simp [pointer_of_absent absent] at points
  refine ⟨fun environment run => ?_, fun run environment => ?_⟩
  · rw [scanned.claimed]
    exact and_iff_right_of_imp (member run environment)
  · rw [scanned.conversations]
    exact and_iff_right_of_imp (member run environment)

/-! ### The environments -/

/-- A conversation whose pointer is written. -/
def Tree.Unpointed (tree : Tree) (run : String) : Prop :=
  tree.pointer? run = none ∧ ∀ entry, tree.disks run = some entry →
    ∃ logical, entry = .directory logical ∧ logical.pointer = none ∧ vacant logical false = .ok ()

/-- What the second loop of `recover` planned for the environments it has read. -/
structure Planned (tree : Tree) (done : List String) (plan : Plan) : Prop where
  unclaimed : ∀ environment, environment ∈ plan.unclaimed ↔
    environment ∈ done ∧ ∀ run, ¬ tree.Claims run environment
  owners : ∀ run, run ∈ plan.owners ↔ ∃ environment ∈ done, tree.Claims run environment
  oneRun : ∀ environment ∈ done, ∀ run other, tree.Claims run environment →
    tree.Claims other environment → run = other
  oneEnvironment : ∀ environment ∈ done, ∀ other ∈ done, ∀ run, tree.Claims run environment →
    tree.Claims run other → environment = other
  owner : ∀ environment run, .owner environment run ∈ plan.repair ↔
    environment ∈ done ∧ tree.owner? environment = none ∧ tree.Claims run environment
  pointer : ∀ run environment, .pointer run environment ∈ plan.repair ↔
    environment ∈ done ∧ tree.pointer? run ≠ some environment ∧ tree.Claims run environment
  readable : ∀ environment ∈ done, isIdentity environment = true ∧
    ∃ physical, tree.environments environment = some (.directory physical) ∧
      readIdentity physical.owner = .ok (tree.owner? environment)
  unpointed : ∀ environment ∈ done, ∀ run, tree.Claims run environment →
    tree.pointer? run ≠ some environment → tree.Unpointed run

theorem Planned.empty (tree : Tree) : Planned tree [] {} :=
  ⟨by simp, by simp, by simp, by simp, by simp, by simp, by simp, by simp⟩

/-- A record that is absent or names nothing. -/
theorem pointer_none_of_vacant {logical : Logical} (isVacant : vacant logical false = .ok ()) :
    logical.pointer = none := by
  unfold vacant at isVacant
  split at isVacant
  · simp at isVacant
  · rename_i free
    simp only [Bool.or_eq_true, not_or] at free
    simpa using free.2

theorem planPointer_of_ok {plan next : Plan} {environment run : String}
    (planned : planPointer tree plan environment run = .ok next) :
    (tree.pointer? run = some environment ∧ next = plan) ∨
      (tree.Unpointed run ∧
        next = { plan with repair := plan.repair ++ [.pointer run environment] }) := by
  unfold planPointer at planned
  cases isEntry : tree.disks run with
  | none =>
      rw [isEntry] at planned
      obtain rfl := Except.ok.inj planned
      exact .inr ⟨⟨pointer_of_absent isEntry, fun entry found => by simp [isEntry] at found⟩, rfl⟩
  | some entry =>
      rw [isEntry] at planned
      obtain ⟨logical, isLogical, entered⟩ := bind_eq_ok.mp planned
      obtain ⟨pointer, isPointer, matched⟩ := bind_eq_ok.mp entered
      have isDirectory : tree.disks run = some (.directory logical) :=
        isEntry.trans (realDirectory_eq_ok.mp isLogical)
      have points := pointer_of_read isDirectory isPointer
      cases pointer with
      | some target =>
          dsimp only at matched
          split at matched
          · rename_i same
            obtain rfl := Except.ok.inj matched
            exact .inl ⟨points.trans (congrArg some same), rfl⟩
          · simp at matched
      | none =>
          obtain ⟨_, isVacant, rfl⟩ := map_eq_ok.mp matched
          refine .inr ⟨⟨points, fun stored found => ⟨logical, ?_, pointer_none_of_vacant isVacant,
            isVacant⟩⟩, rfl⟩
          exact Option.some.inj (found.symm.trans isDirectory)

theorem planOwned_of_ok {claims : Claims} {plan next : Plan} {environment run : String}
    (planned : planOwned tree claims plan environment run = .ok next) :
    run ∉ plan.owners ∧
      planPointer tree { plan with owners := run :: plan.owners } environment run = .ok next := by
  unfold planOwned at planned
  split at planned
  · simp at planned
  · rename_i unowned
    split at planned
    · simp at planned
    · exact ⟨by simpa using unowned, planned⟩

/-- An environment nobody claims. -/
theorem Planned.abandoned {done : List String} {plan : Plan} {environment : String}
    {physical : Physical} (planned : Planned tree done plan) (fresh : environment ∉ done)
    (isDirectory : tree.environments environment = some (.directory physical))
    (valid : isIdentity environment = true)
    (read : readIdentity physical.owner = .ok (tree.owner? environment))
    (nobody : ∀ run, ¬ tree.Claims run environment) :
    Planned tree (done ++ [environment])
      { plan with unclaimed := plan.unclaimed ++ [environment] } := by
  have only : ∀ other run, tree.Claims run other → (other ∈ done ++ [environment] ↔ other ∈ done) := by
    intro other run claims
    rw [List.mem_append, List.mem_singleton, or_iff_left]
    rintro rfl
    exact nobody run claims
  refine ⟨fun other => ?_, fun run => ?_, fun other member run claimant claims => ?_,
    fun other member third isThird run claims => ?_, fun other run => ?_, fun run other => ?_,
    fun other member => ?_, fun other member run claims => ?_⟩
  · simp only [List.mem_append, List.mem_singleton, planned.unclaimed]
    constructor
    · rintro (⟨member, unclaimed⟩ | rfl)
      · exact ⟨.inl member, unclaimed⟩
      · exact ⟨.inr rfl, nobody⟩
    · rintro ⟨member | rfl, unclaimed⟩
      · exact .inl ⟨member, unclaimed⟩
      · exact .inr rfl
  · rw [planned.owners]
    constructor
    · rintro ⟨other, member, claims⟩
      exact ⟨other, List.mem_append_left _ member, claims⟩
    · rintro ⟨other, member, claims⟩
      exact ⟨other, (only other run claims).mp member, claims⟩
  · exact planned.oneRun other ((only other run claims).mp member) run claimant claims
  · intro shared
    exact planned.oneEnvironment other ((only other run claims).mp member) third
      ((only third run shared).mp isThird) run claims shared
  · rw [planned.owner]
    exact and_congr_left fun both => (only other run both.2).symm
  · rw [planned.pointer]
    exact and_congr_left fun both => (only other run both.2).symm
  · rcases List.mem_append.mp member with known | last
    · exact planned.readable other known
    · obtain rfl := List.mem_singleton.mp last
      exact ⟨valid, physical, isDirectory, read⟩
  · exact planned.unpointed other ((only other run claims).mp member) run claims

/-- An environment that belongs to a conversation. -/
theorem Planned.owned {done : List String} {plan next : Plan} {environment run : String}
    {physical : Physical} (planned : Planned tree done plan) (fresh : environment ∉ done)
    (isDirectory : tree.environments environment = some (.directory physical))
    (valid : isIdentity environment = true)
    (read : readIdentity physical.owner = .ok (tree.owner? environment))
    (claims : tree.Claims run environment)
    (only : ∀ other, tree.Claims other environment → other = run)
    (owners : next.owners = run :: plan.owners) (unowned : run ∉ plan.owners)
    (unclaimed : next.unclaimed = plan.unclaimed)
    (repair : next.repair = plan.repair ++
      ((if tree.owner? environment = none then [.owner environment run] else []) ++
        if tree.pointer? run = some environment then [] else [.pointer run environment]))
    (unpointed : tree.pointer? run ≠ some environment → tree.Unpointed run) :
    Planned tree (done ++ [environment]) next := by
  have apart : ∀ other ∈ done, ¬ tree.Claims run other := fun other member shared =>
    unowned ((planned.owners run).mpr ⟨other, member, shared⟩)
  refine ⟨fun other => ?_, fun other => ?_, fun other member claimant second one two => ?_,
    fun other member third isThird claimant one two => ?_, fun other claimant => ?_,
    fun claimant other => ?_, fun other member => ?_, fun other member claimant shared => ?_⟩
  · rw [unclaimed, planned.unclaimed, List.mem_append, List.mem_singleton]
    refine and_congr_left fun nobody => (or_iff_left ?_).symm
    rintro rfl
    exact nobody run claims
  · rw [owners, List.mem_cons, planned.owners]
    constructor
    · rintro (rfl | ⟨third, member, shared⟩)
      · exact ⟨environment, List.mem_append_right _ List.mem_cons_self, claims⟩
      · exact ⟨third, List.mem_append_left _ member, shared⟩
    · rintro ⟨third, member, shared⟩
      rcases List.mem_append.mp member with known | last
      · exact .inr ⟨third, known, shared⟩
      · obtain rfl := List.mem_singleton.mp last
        exact .inl (only other shared)
  · rcases List.mem_append.mp member with known | last
    · exact planned.oneRun other known claimant second one two
    · obtain rfl := List.mem_singleton.mp last
      exact (only claimant one).trans (only second two).symm
  · rcases List.mem_append.mp member with known | last <;>
      rcases List.mem_append.mp isThird with isKnown | isLast
    · exact planned.oneEnvironment other known third isKnown claimant one two
    · obtain rfl := List.mem_singleton.mp isLast
      exact absurd (only claimant two ▸ one) (apart other known)
    · obtain rfl := List.mem_singleton.mp last
      exact absurd (only claimant one ▸ two) (apart third isKnown)
    · rw [List.mem_singleton.mp last, List.mem_singleton.mp isLast]
  · simp only [repair, List.mem_append, planned.owner,
      List.mem_singleton]
    constructor
    · rintro (⟨member, rest⟩ | added | added)
      · exact ⟨.inl member, rest⟩
      · split at added
        · rename_i unread
          obtain ⟨rfl, rfl⟩ := Repair.owner.inj (List.mem_singleton.mp added)
          exact ⟨.inr rfl, unread, claims⟩
        · simp at added
      · split at added <;> simp at added
    · rintro ⟨member | rfl, unread, shared⟩
      · exact .inl ⟨member, unread, shared⟩
      · rw [only claimant shared, if_pos unread]
        exact .inr (.inl List.mem_cons_self)
  · simp only [repair, List.mem_append, planned.pointer, List.mem_singleton]
    constructor
    · rintro (⟨member, rest⟩ | added | added)
      · exact ⟨.inl member, rest⟩
      · split at added <;> simp at added
      · split at added
        · simp at added
        · rename_i unwritten
          obtain ⟨rfl, rfl⟩ := Repair.pointer.inj (List.mem_singleton.mp added)
          exact ⟨.inr rfl, unwritten, claims⟩
    · rintro ⟨member | rfl, unwritten, shared⟩
      · exact .inl ⟨member, unwritten, shared⟩
      · obtain rfl := only claimant shared
        rw [if_neg unwritten]
        exact .inr (.inr List.mem_cons_self)
  · rcases List.mem_append.mp member with known | last
    · exact planned.readable other known
    · obtain rfl := List.mem_singleton.mp last
      exact ⟨valid, physical, isDirectory, read⟩
  · rcases List.mem_append.mp member with known | last
    · exact planned.unpointed other known claimant shared
    · obtain rfl := List.mem_singleton.mp last
      rw [only claimant shared]
      exact unpointed

theorem claimant_of_ok {recorded claimed run : Option String}
    (ok : claimant recorded claimed = .ok run) :
    (run = none ∧ recorded = none ∧ claimed = none) ∨
      ∃ owner, run = some owner ∧ (recorded = some owner ∨ (recorded = none ∧ claimed = some owner)) ∧
        ∀ other, claimed = some other → other = owner := by
  unfold claimant at ok
  split at ok
  · split at ok
    · simp at ok
    · rename_i owner claim agree
      obtain rfl := Except.ok.inj ok
      exact .inr ⟨owner, rfl, .inl rfl, fun other same =>
        (Option.some.inj same).symm.trans (not_not.mp agree).symm⟩
  · obtain rfl := Except.ok.inj ok
    exact .inr ⟨_, rfl, .inl rfl, by simp⟩
  · obtain rfl := Except.ok.inj ok
    cases claimed with
    | none => exact .inl ⟨rfl, rfl, rfl⟩
    | some owner => exact .inr ⟨owner, rfl, .inr ⟨rfl, rfl⟩, fun other same =>
        (Option.some.inj same).symm⟩

theorem Planned.step {claims : Claims} {done : List String} {plan next : Plan}
    {environment : String} (whole : Scanned.Whole tree claims) (planned : Planned tree done plan)
    (fresh : environment ∉ done) (round : planEnvironment tree claims plan environment = .ok next) :
    Planned tree (done ++ [environment]) next := by
  obtain ⟨physical, isPhysical, checked⟩ := bind_eq_ok.mp round
  obtain ⟨_, valid, opened⟩ := bind_eq_ok.mp checked
  obtain ⟨recorded, isRecorded, entered⟩ := bind_eq_ok.mp opened
  obtain ⟨run, isRun, matched⟩ := bind_eq_ok.mp entered
  clear round checked opened entered
  have isDirectory := realDirectory_eq_ok.mp isPhysical
  have owns := owner_of_read isDirectory isRecorded
  have valid := identity_eq_ok.mp valid
  rw [← owns] at isRecorded isRun matched
  rcases claimant_of_ok isRun with ⟨rfl, unowned, unclaimed⟩ | ⟨owner, rfl, named, agree⟩
  · obtain rfl := Except.ok.inj matched
    refine planned.abandoned fresh isDirectory valid isRecorded fun run claims => ?_
    rcases claims with points | isOwner
    · rw [(whole.claimed environment run).mpr points] at unclaimed
      simp at unclaimed
    · simp [unowned] at isOwner
  · have isClaim : tree.Claims owner environment := by
      rcases named with isOwner | ⟨_, claimed⟩
      · exact .inr isOwner
      · exact .inl ((whole.claimed environment owner).mp claimed)
    have only : ∀ other, tree.Claims other environment → other = owner := by
      rintro other (points | isOwner)
      · exact agree other ((whole.claimed environment other).mpr points)
      · rcases named with isOwner' | ⟨unowned, _⟩
        · exact Option.some.inj (isOwner.symm.trans isOwner')
        · simp [unowned] at isOwner
    obtain ⟨unowned, pointed⟩ := planOwned_of_ok matched
    have unowned : owner ∉ plan.owners := by
      split at unowned <;> exact unowned
    rcases planPointer_of_ok pointed with ⟨points, rfl⟩ | ⟨unpointed, rfl⟩
    · refine planned.owned fresh isDirectory valid isRecorded isClaim only ?_ unowned ?_ ?_
        fun unwritten => absurd points unwritten
      · cases tree.owner? environment <;> rfl
      · cases tree.owner? environment <;> rfl
      · rw [if_pos points]
        cases tree.owner? environment <;> simp
    · refine planned.owned fresh isDirectory valid isRecorded isClaim only ?_ unowned ?_ ?_
        fun _ => unpointed
      · cases tree.owner? environment <;> rfl
      · cases tree.owner? environment <;> rfl
      · have unwritten : tree.pointer? owner ≠ some environment := by simp [unpointed.1]
        rw [if_neg unwritten]
        cases tree.owner? environment <;> simp

theorem Planned.loop {claims : Claims} {environments : List String} {plan : Plan}
    (whole : Scanned.Whole tree claims) (distinct : environments.Nodup)
    (read : environments.foldlM (planEnvironment tree claims) {} = .ok plan) :
    Planned tree environments plan := by
  have holds := foldlM_eq_ok
    (motive := fun rest plan => ∃ done, environments = done ++ rest ∧ Planned tree done plan)
    (fun environment rest plan next holds round => ?_) ⟨[], rfl, .empty tree⟩ read
  · obtain ⟨done, all, planned⟩ := holds
    rw [List.append_nil] at all
    exact all ▸ planned
  · obtain ⟨done, all, planned⟩ := holds
    refine ⟨done ++ [environment], by simp [all], planned.step whole ?_ round⟩
    rw [all] at distinct
    exact fun member =>
      (List.nodup_append.mp distinct).2.2 environment member environment List.mem_cons_self rfl

end Cairn.Storage.Environments

import Cairn.Storage.EnvironmentRecovery

/-!
Owns the states `recover` leaves: ownership is a partial bijection, both halves of every
claim are written, only unclaimed environments are gone, and another recovery changes
nothing. What an assignment wrote before a crash is kept until then.

Does not own the checks of `recover`.
-/

set_option autoImplicit false

namespace Cairn.Storage.Environments

open Cairn.Library.Results

variable {tree : Tree} {listing : Listing}

/-! ### The writes of a recovery -/

/-- The contents a pointer is written into. -/
def Tree.contents (tree : Tree) (run : String) : Logical :=
  match tree.disks run with
  | some (.directory logical) => logical
  | _ => {}

theorem setPointer_disks (tree : Tree) (run environment : String) :
    (tree.setPointer run environment).disks = Function.update tree.disks run
      (some (.directory { tree.contents run with pointer := some (.file environment) })) := rfl

/-- A conversation whose pointer is not written. -/
theorem repaired_disks_other {run : String} {repairs : List Repair}
    (other : ∀ environment, .pointer run environment ∉ repairs) :
    (repairs.foldl Tree.repair tree).disks run = tree.disks run := by
  induction repairs generalizing tree with
  | nil => rfl
  | cons repair rest inductionHypothesis =>
      rw [List.foldl_cons, inductionHypothesis fun environment member =>
        other environment (List.mem_cons_of_mem _ member)]
      cases repair with
      | owner => rfl
      | pointer written environment =>
          refine Function.update_of_ne ?_ _ _
          rintro rfl
          exact other environment List.mem_cons_self

/-- A conversation whose pointer is written, always to one environment. -/
theorem repaired_disks {run environment : String} {repairs : List Repair}
    (only : ∀ other, .pointer run other ∈ repairs → other = environment)
    (written : .pointer run environment ∈ repairs ∨ tree.disks run =
      some (.directory { tree.contents run with pointer := some (.file environment) })) :
    (repairs.foldl Tree.repair tree).disks run =
      some (.directory { tree.contents run with pointer := some (.file environment) }) := by
  induction repairs generalizing tree with
  | nil => exact written.resolve_left List.not_mem_nil
  | cons repair rest inductionHypothesis =>
      have only' : ∀ other, .pointer run other ∈ rest → other = environment :=
        fun other member => only other (List.mem_cons_of_mem _ member)
      rw [List.foldl_cons]
      cases repair with
      | owner named owner =>
          have same : (tree.repair (.owner named owner)).contents run = tree.contents run := rfl
          rw [inductionHypothesis only' ?_, same]
          exact written.imp_left fun member => (List.mem_cons.mp member).resolve_left (by simp)
      | pointer named target =>
          by_cases here : named = run
          · subst here
            obtain rfl := only target List.mem_cons_self
            have same : (tree.repair (.pointer named target)).disks named =
                some (.directory { tree.contents named with pointer := some (.file target) }) :=
              Function.update_self _ _ _
            have contents : (tree.repair (.pointer named target)).contents named =
                { tree.contents named with pointer := some (.file target) } := by
              rw [Tree.contents, same]
            rw [inductionHypothesis only' (.inr (by rw [contents, same])), contents]
          · have same : (tree.repair (.pointer named target)).disks run = tree.disks run :=
              Function.update_of_ne (Ne.symm here) _ _
            have contents : (tree.repair (.pointer named target)).contents run =
                tree.contents run := by
              rw [Tree.contents, Tree.contents, same]
            rw [inductionHypothesis only' ?_, contents]
            rw [same, contents]
            exact written.imp_left fun member => (List.mem_cons.mp member).resolve_left fun same =>
              here (Repair.pointer.inj same).1.symm

/-- An environment whose owner is not written. -/
theorem repaired_environments_other {environment : String} {repairs : List Repair}
    (other : ∀ run, .owner environment run ∉ repairs) :
    (repairs.foldl Tree.repair tree).environments environment = tree.environments environment := by
  induction repairs generalizing tree with
  | nil => rfl
  | cons repair rest inductionHypothesis =>
      rw [List.foldl_cons, inductionHypothesis fun run member =>
        other run (List.mem_cons_of_mem _ member)]
      cases repair with
      | pointer => rfl
      | owner written run =>
          refine Function.update_of_ne ?_ _ _
          rintro rfl
          exact other run List.mem_cons_self

/-- An environment whose owner is written, always to one conversation. -/
theorem repaired_environments {environment run : String} {repairs : List Repair}
    (only : ∀ other, .owner environment other ∈ repairs → other = run)
    (written : .owner environment run ∈ repairs ∨
      tree.environments environment = some (.directory { owner := some (.file run) })) :
    (repairs.foldl Tree.repair tree).environments environment =
      some (.directory { owner := some (.file run) }) := by
  induction repairs generalizing tree with
  | nil => exact written.resolve_left List.not_mem_nil
  | cons repair rest inductionHypothesis =>
      refine inductionHypothesis (fun other member => only other (List.mem_cons_of_mem _ member)) ?_
      cases repair with
      | pointer =>
          exact written.imp_left fun member => (List.mem_cons.mp member).resolve_left (by simp)
      | owner named target =>
          by_cases here : named = environment
          · subst here
            obtain rfl := only target List.mem_cons_self
            exact .inr (Function.update_self _ _ _)
          · refine written.imp (fun member => (List.mem_cons.mp member).resolve_left fun same =>
              here (Repair.owner.inj same).1.symm) fun same => ?_
            exact (Function.update_of_ne (Ne.symm here) _ _).trans same

@[simp] theorem removed_disks (unclaimed : List String) :
    (unclaimed.foldl Tree.remove tree).disks = tree.disks := by
  induction unclaimed generalizing tree with
  | nil => rfl
  | cons environment rest inductionHypothesis => exact inductionHypothesis

theorem removed_environments (unclaimed : List String) (environment : String) :
    (unclaimed.foldl Tree.remove tree).environments environment =
      if environment ∈ unclaimed then none else tree.environments environment := by
  induction unclaimed generalizing tree with
  | nil => simp
  | cons removed rest inductionHypothesis =>
      rw [List.foldl_cons, inductionHypothesis]
      by_cases here : environment = removed
      · subst here
        simp [Tree.remove]
      · have apart : (tree.remove removed).environments environment =
            tree.environments environment := Function.update_of_ne here _ _
        simp [here, apart]

/-! ### What was checked before them -/

/-- What a plan says of the whole state. -/
structure Checked (tree : Tree) (plan : Plan) : Prop where
  unclaimed : ∀ environment, environment ∈ plan.unclaimed ↔
    tree.environments environment ≠ none ∧ ∀ run, ¬ tree.Claims run environment
  oneRun : ∀ environment run other, tree.Claims run environment →
    tree.Claims other environment → run = other
  oneEnvironment : ∀ run environment other, tree.Claims run environment →
    tree.Claims run other → environment = other
  owner : ∀ environment run, .owner environment run ∈ plan.repair ↔
    tree.owner? environment = none ∧ tree.Claims run environment
  pointer : ∀ run environment, .pointer run environment ∈ plan.repair ↔
    tree.pointer? run ≠ some environment ∧ tree.Claims run environment
  environment : ∀ environment, tree.environments environment ≠ none →
    isIdentity environment = true ∧
      ∃ physical, tree.environments environment = some (.directory physical) ∧
        readIdentity physical.owner = .ok (tree.owner? environment)
  claimed : ∀ run environment, tree.Claims run environment →
    isIdentity run = true ∧ tree.environments environment ≠ none
  readable : ∀ run logical, tree.disks run = some (.directory logical) →
    readIdentity logical.pointer = .ok (tree.pointer? run)
  vacant : ∀ run environment logical, tree.pointer? run = some environment →
    tree.disks run = some (.directory logical) → vacant logical true = .ok ()
  unpointed : ∀ run environment, tree.Claims run environment →
    tree.pointer? run ≠ some environment → tree.Unpointed run

theorem checked_of_plan {next : Plan} (lists : listing.Lists tree)
    (planned : plan tree listing = .ok next) : Checked tree next := by
  obtain ⟨claims, scan, read⟩ := bind_eq_ok.mp planned
  have scanned := Scanned.loop lists.disks.1 scan
  have found := Planned.loop (scanned.whole lists.disks.2) lists.environments.1 read
  have isRun : ∀ run environment, tree.pointer? run = some environment → run ∈ listing.disks := by
    intro run environment points
    refine (lists.disks.2 run).mpr fun absent => ?_
    simp [pointer_of_absent absent] at points
  have present : ∀ run environment, tree.Claims run environment →
      isIdentity run = true ∧ tree.environments environment ≠ none := by
    rintro run environment (points | owns)
    · obtain ⟨valid, ⟨physical, isDirectory⟩, _⟩ :=
        scanned.named run (isRun run environment points) environment points
      exact ⟨valid, by simp [isDirectory]⟩
    · refine ⟨isIdentity_owner owns, fun absent => ?_⟩
      simp [Tree.owner?, absent] at owns
  have member : ∀ run environment, tree.Claims run environment →
      environment ∈ listing.environments := fun run environment claims =>
    (lists.environments.2 environment).mpr (present run environment claims).2
  refine ⟨fun environment => ?_, fun environment run other one two => ?_,
    fun run environment other one two => ?_, fun environment run => ?_, fun run environment => ?_,
    fun environment isPresent => ?_, present, fun run logical isDirectory => ?_,
    fun run environment logical points isDirectory => ?_, fun run environment claims => ?_⟩
  · rw [found.unclaimed, lists.environments.2]
  · exact found.oneRun environment (member run environment one) run other one two
  · exact found.oneEnvironment environment (member run environment one) other
      (member run other two) run one two
  · rw [found.owner]
    exact and_iff_right_of_imp fun both => member run environment both.2
  · rw [found.pointer]
    exact and_iff_right_of_imp fun both => member run environment both.2
  · exact found.readable environment ((lists.environments.2 environment).mpr isPresent)
  · refine scanned.readable run ((lists.disks.2 run).mpr ?_) logical isDirectory
    simp [isDirectory]
  · exact (scanned.named run (isRun run environment points) environment points).2.2
      logical isDirectory
  · exact found.unpointed environment (member run environment claims) run claims

/-! ### The state after them -/

section CarriedOut

variable {next : Plan}

theorem Checked.disks_written {run environment : String} (checked : Checked tree next)
    (claims : tree.Claims run environment) (unwritten : tree.pointer? run ≠ some environment) :
    (tree.carryOut next).disks run =
      some (.directory { tree.contents run with pointer := some (.file environment) }) := by
  rw [Tree.carryOut, removed_disks]
  refine repaired_disks (fun other member => ?_)
    (.inl ((checked.pointer run environment).mpr ⟨unwritten, claims⟩))
  exact checked.oneEnvironment run other environment ((checked.pointer run other).mp member).2 claims

theorem Checked.disks_kept {run : String} (checked : Checked tree next)
    (written : ∀ environment, tree.Claims run environment → tree.pointer? run = some environment) :
    (tree.carryOut next).disks run = tree.disks run := by
  rw [Tree.carryOut, removed_disks]
  refine repaired_disks_other fun environment member => ?_
  obtain ⟨unwritten, claims⟩ := (checked.pointer run environment).mp member
  exact unwritten (written environment claims)

theorem pointer_congr {first second : Tree} {run : String}
    (same : first.disks run = second.disks run) : first.pointer? run = second.pointer? run := by
  rw [Tree.pointer?, Tree.pointer?, same]

theorem owner_congr {first second : Tree} {environment : String}
    (same : first.environments environment = second.environments environment) :
    first.owner? environment = second.owner? environment := by
  rw [Tree.owner?, Tree.owner?, same]

/-- The pointers of the new state are the claims of the old one. -/
theorem Checked.pointer_iff {run environment : String} (checked : Checked tree next) :
    (tree.carryOut next).pointer? run = some environment ↔ tree.Claims run environment := by
  by_cases writes : ∃ target, tree.Claims run target ∧ tree.pointer? run ≠ some target
  · obtain ⟨target, claims, unwritten⟩ := writes
    have valid := (checked.environment target (checked.claimed run target claims).2).1
    have points : (tree.carryOut next).pointer? run = some target :=
      pointer_of_read (checked.disks_written claims unwritten) (readIdentity_file valid)
    rw [points]
    constructor
    · rintro same
      exact Option.some.inj same ▸ claims
    · exact fun other => congrArg some (checked.oneEnvironment run target environment claims other)
  · have written : ∀ target, tree.Claims run target → tree.pointer? run = some target :=
      fun target claims => by_contra fun unwritten => writes ⟨target, claims, unwritten⟩
    rw [pointer_congr (checked.disks_kept written)]
    exact ⟨.inl, written environment⟩

theorem Checked.environments_claimed {environment run : String} (checked : Checked tree next)
    (claims : tree.Claims run environment) : (tree.carryOut next).environments environment =
      (next.repair.foldl Tree.repair tree).environments environment := by
  rw [Tree.carryOut, removed_environments, if_neg]
  exact fun member => ((checked.unclaimed environment).mp member).2 run claims

/-- The owners of the new state are the claims of the old one. -/
theorem Checked.owner_iff {environment run : String} (checked : Checked tree next) :
    (tree.carryOut next).owner? environment = some run ↔ tree.Claims run environment := by
  by_cases claimed : ∃ owner, tree.Claims owner environment
  · obtain ⟨owner, claims⟩ := claimed
    have owns : (tree.carryOut next).owner? environment = some owner := by
      rw [owner_congr (checked.environments_claimed claims)]
      cases recorded : tree.owner? environment with
      | none =>
          refine owner_of_read (repaired_environments (fun other member => ?_) (.inl
            ((checked.owner environment owner).mpr ⟨recorded, claims⟩)))
            (readIdentity_file (checked.claimed owner environment claims).1)
          exact checked.oneRun environment other owner
            ((checked.owner environment other).mp member).2 claims
      | some recorded' =>
          rw [owner_congr (repaired_environments_other fun other member => ?_), recorded]
          · exact congrArg some (checked.oneRun environment recorded' owner (.inr recorded) claims)
          · simp [((checked.owner environment other).mp member).1] at recorded
    rw [owns]
    constructor
    · rintro same
      exact Option.some.inj same ▸ claims
    · exact fun other => congrArg some (checked.oneRun environment owner run claims other)
  · refine iff_of_false (fun owns => ?_) fun claims => claimed ⟨run, claims⟩
    have nobody : ∀ other, .owner environment other ∉ next.repair := fun other member =>
      claimed ⟨other, ((checked.owner environment other).mp member).2⟩
    have kept : (tree.carryOut next).environments environment = none ∨
        (tree.carryOut next).environments environment = tree.environments environment := by
      rw [Tree.carryOut, removed_environments, repaired_environments_other nobody]
      exact ite_eq_or_eq _ _ _
    rcases kept with absent | kept
    · simp [Tree.owner?, absent] at owns
    · exact claimed ⟨run, .inr (owner_congr kept ▸ owns)⟩

/-- Only the environments nobody claims are gone. -/
theorem Checked.present_iff {environment : String} (checked : Checked tree next) :
    (tree.carryOut next).environments environment ≠ none ↔
      ∃ run, tree.Claims run environment := by
  constructor
  · intro present
    by_contra unclaimed
    refine present ?_
    rw [Tree.carryOut, removed_environments, repaired_environments_other fun run member =>
      unclaimed ⟨run, ((checked.owner environment run).mp member).2⟩]
    by_cases absent : tree.environments environment = none
    · rw [absent, ite_self]
    · exact if_pos ((checked.unclaimed environment).mpr
        ⟨absent, fun run claims => unclaimed ⟨run, claims⟩⟩)
  · rintro ⟨run, claims⟩ absent
    have owns := checked.owner_iff.mpr claims
    simp [Tree.owner?, absent] at owns

end CarriedOut

/-! ### Settled states -/

theorem read_of_join {record : Option Record} {value : String}
    (names : (readIdentity record).toOption.join = some value) :
    readIdentity record = .ok (some value) := by
  cases read : readIdentity record with
  | error => simp [read, Except.toOption] at names
  | ok found =>
      rw [read] at names
      exact congrArg Except.ok names

theorem read_of_pointer {run environment : String} (points : tree.pointer? run = some environment) :
    ∃ logical, tree.disks run = some (.directory logical) ∧
      readIdentity logical.pointer = .ok (some environment) := by
  unfold Tree.pointer? at points
  split at points
  · exact ⟨_, ‹_›, read_of_join points⟩
  · simp at points

theorem read_of_owner {environment run : String} (owns : tree.owner? environment = some run) :
    ∃ physical, tree.environments environment = some (.directory physical) ∧
      readIdentity physical.owner = .ok (some run) := by
  unfold Tree.owner? at owns
  split at owns
  · exact ⟨_, ‹_›, read_of_join owns⟩
  · simp at owns

/-- A state in which no claim is left half written and no environment unclaimed. -/
structure Tree.Settled (tree : Tree) : Prop where
  agree : ∀ run environment, tree.pointer? run = some environment ↔
    tree.owner? environment = some run
  readable : ∀ run logical, tree.disks run = some (.directory logical) →
    readIdentity logical.pointer = .ok (tree.pointer? run)
  named : ∀ run environment logical, tree.pointer? run = some environment →
    tree.disks run = some (.directory logical) →
    isIdentity run = true ∧ vacant logical true = .ok ()
  owned : ∀ environment, tree.environments environment ≠ none →
    isIdentity environment = true ∧ ∃ run, tree.owner? environment = some run

/-- What may be there besides a pointer may be there besides a new one. -/
theorem vacant_pointed {logical : Logical} {environment : String}
    (isVacant : vacant logical false = .ok ()) :
    vacant { logical with pointer := some (.file environment) } true = .ok () := by
  unfold vacant at isVacant ⊢
  split at isVacant
  · simp at isVacant
  · rename_i free
    simp only [Bool.or_eq_true, not_or] at free
    rw [if_neg]
    simpa only [Bool.not_true, Bool.false_and, Bool.or_false] using free.1

theorem Tree.Unpointed.vacant {run environment : String} (unpointed : tree.Unpointed run) :
    Environments.vacant { tree.contents run with pointer := some (.file environment) } true =
      .ok () := by
  cases isEntry : tree.disks run with
  | none =>
      have empty : tree.contents run = {} := by rw [Tree.contents, isEntry]
      rw [empty]
      rfl
  | some entry =>
      obtain ⟨logical, rfl, -, isVacant⟩ := unpointed.2 entry isEntry
      have same : tree.contents run = logical := by rw [Tree.contents, isEntry]
      rw [same]
      exact vacant_pointed isVacant

theorem Checked.settled {next : Plan} (checked : Checked tree next) :
    (tree.carryOut next).Settled := by
  refine ⟨fun run environment => checked.pointer_iff.trans checked.owner_iff.symm,
    fun run logical isDirectory => ?_, fun run environment logical points isDirectory => ?_,
    fun environment present => ?_⟩
  · by_cases writes : ∃ target, tree.Claims run target ∧ tree.pointer? run ≠ some target
    · obtain ⟨target, claims, unwritten⟩ := writes
      have valid := (checked.environment target (checked.claimed run target claims).2).1
      rw [checked.disks_written claims unwritten] at isDirectory
      obtain rfl := Entry.directory.inj (Option.some.inj isDirectory)
      rw [checked.pointer_iff.mpr claims]
      exact readIdentity_file valid
    · have written : ∀ target, tree.Claims run target → tree.pointer? run = some target :=
        fun target claims => by_contra fun unwritten => writes ⟨target, claims, unwritten⟩
      have kept := checked.disks_kept written
      rw [pointer_congr kept]
      exact checked.readable run logical (kept ▸ isDirectory)
  · have claims := checked.pointer_iff.mp points
    refine ⟨(checked.claimed run environment claims).1, ?_⟩
    by_cases written : tree.pointer? run = some environment
    · have kept : (tree.carryOut next).disks run = tree.disks run :=
        checked.disks_kept fun other shared =>
          (checked.oneEnvironment run environment other claims shared) ▸ written
      exact checked.vacant run environment logical written (kept ▸ isDirectory)
    · rw [checked.disks_written claims written] at isDirectory
      obtain rfl := Entry.directory.inj (Option.some.inj isDirectory)
      exact (checked.unpointed run environment claims written).vacant
  · obtain ⟨run, claims⟩ := checked.present_iff.mp present
    exact ⟨(checked.environment environment (checked.claimed run environment claims).2).1,
      run, checked.owner_iff.mpr claims⟩

/-- A conversation opens the environment that it points to. -/
theorem Tree.Settled.directory {run environment : String} (settled : tree.Settled)
    (points : tree.pointer? run = some environment) :
    Environments.directory tree run = .ok (.physical environment) := by
  obtain ⟨logical, isLogical, pointer⟩ := read_of_pointer points
  obtain ⟨physical, isPhysical, owner⟩ := read_of_owner ((settled.agree run environment).mp points)
  have valid := identity_eq_ok.mpr (settled.named run environment logical points isLogical).1
  have owned : ownedBy tree run environment = .ok (.physical environment) := by
    refine bind_eq_ok.mpr ⟨physical, realDirectory_eq_ok.mpr isPhysical, ?_⟩
    exact bind_eq_ok.mpr ⟨some run, owner, if_pos rfl⟩
  refine bind_eq_ok.mpr ⟨(), valid, bind_eq_ok.mpr ⟨logical, ?_, bind_eq_ok.mpr ⟨_, pointer, owned⟩⟩⟩
  rw [isLogical]
  rfl

/-! ### Recovering again -/

/-- A round of the first loop in a settled state. -/
theorem readClaim_of_settled {read : List String} {claims : Claims} {run : String}
    (settled : tree.Settled) (scanned : Scanned tree read claims) (fresh : run ∉ read) :
    ∃ next, readClaim tree claims run = .ok next := by
  unfold readClaim
  split
  · rename_i logical isDirectory
    rw [settled.readable run logical isDirectory]
    cases points : tree.pointer? run with
    | none => exact ⟨claims, rfl⟩
    | some environment =>
        obtain ⟨valid, isVacant⟩ := settled.named run environment logical points isDirectory
        obtain ⟨physical, isPhysical, _⟩ :=
          read_of_owner ((settled.agree run environment).mp points)
        have unclaimed : claims.claims environment = none := by
          by_contra claimed
          obtain ⟨other, claimed⟩ := Option.ne_none_iff_exists'.mp claimed
          obtain ⟨member, shared⟩ := (scanned.claimed environment other).mp claimed
          have same : some other = some run := ((settled.agree other environment).mp shared).symm.trans
            ((settled.agree run environment).mp points)
          exact fresh (Option.some.inj same ▸ member)
        have free : ¬ (claims.claims environment).isSome = true := by simp [unclaimed]
        have claimed : claim tree claims run logical environment = .ok {
            claims := Function.update claims.claims environment (some run)
            conversations := Function.update claims.conversations run (some environment) } :=
          bind_eq_ok.mpr ⟨(), identity_eq_ok.mpr valid, bind_eq_ok.mpr ⟨(), isVacant,
            bind_eq_ok.mpr ⟨physical, realDirectory_eq_ok.mpr isPhysical, if_neg free⟩⟩⟩
        exact ⟨_, claimed⟩
  · exact ⟨claims, rfl⟩

/-- What the second loop has read of a settled state: nothing is to be done. -/
structure Unchanged (tree : Tree) (done : List String) (plan : Plan) : Prop where
  unclaimed : plan.unclaimed = []
  repair : plan.repair = []
  owners : ∀ run ∈ plan.owners, ∃ environment ∈ done, tree.owner? environment = some run

/-- A round of the second loop in a settled state. -/
theorem planEnvironment_of_settled {claims : Claims} {done : List String} {plan : Plan}
    {environment : String} (settled : tree.Settled) (whole : Scanned.Whole tree claims)
    (present : tree.environments environment ≠ none) (fresh : environment ∉ done)
    (unchanged : Unchanged tree done plan) :
    ∃ next, planEnvironment tree claims plan environment = .ok next ∧
      Unchanged tree (done ++ [environment]) next := by
  obtain ⟨valid, run, owns⟩ := settled.owned environment present
  have points := (settled.agree run environment).mpr owns
  obtain ⟨physical, isPhysical, owner⟩ := read_of_owner owns
  obtain ⟨logical, isLogical, pointer⟩ := read_of_pointer points
  have unowned : run ∉ plan.owners := by
    intro member
    obtain ⟨other, known, shared⟩ := unchanged.owners run member
    have same := points.symm.trans ((settled.agree run other).mpr shared)
    exact fresh (Option.some.inj same ▸ known)
  have claimed : claimant (some run) (claims.claims environment) = .ok (some run) := by
    rw [(whole.claimed environment run).mpr points]
    simp [claimant]
  have agrees : (claims.conversations run).any (fun target => target ≠ environment) = false := by
    rw [(whole.conversations run environment).mpr points]
    simp
  have pointed : planPointer tree { plan with owners := run :: plan.owners } environment run =
      .ok { plan with owners := run :: plan.owners } := by
    unfold planPointer
    rw [isLogical]
    exact bind_eq_ok.mpr ⟨logical, rfl, bind_eq_ok.mpr ⟨_, pointer, if_pos rfl⟩⟩
  refine ⟨{ plan with owners := run :: plan.owners }, ?_, unchanged.unclaimed, unchanged.repair,
    fun other member => ?_⟩
  · refine bind_eq_ok.mpr ⟨physical, realDirectory_eq_ok.mpr isPhysical, bind_eq_ok.mpr ⟨(),
      identity_eq_ok.mpr valid, bind_eq_ok.mpr ⟨_, owner, bind_eq_ok.mpr ⟨_, claimed, ?_⟩⟩⟩⟩
    change planOwned tree claims plan environment run = _
    rw [planOwned, if_neg (by simpa using unowned), agrees]
    exact pointed
  · rcases List.mem_cons.mp member with rfl | known
    · exact ⟨environment, List.mem_append_right _ List.mem_cons_self, owns⟩
    · obtain ⟨third, isDone, shared⟩ := unchanged.owners other known
      exact ⟨third, List.mem_append_left _ isDone, shared⟩

/-- The elements before the rest of a list are not in it. -/
theorem not_mem_of_nodup_append {done rest : List String} {name : String}
    (distinct : (done ++ name :: rest).Nodup) : name ∉ done := fun member =>
  (List.nodup_append.mp distinct).2.2 name member name List.mem_cons_self rfl

/-- A settled state is kept by every recovery. -/
theorem Tree.Settled.recover (settled : tree.Settled) (lists : listing.Lists tree) :
    Environments.recover tree listing = (.ok (), tree) := by
  have reads : ∃ claims, listing.disks.foldlM (readClaim tree) {} = .ok claims ∧
      ∃ read, listing.disks = read ++ [] ∧ Scanned tree read claims := by
    refine foldlM_ok (motive := fun rest claims => ∃ read, listing.disks = read ++ rest ∧
      Scanned tree read claims) (fun run rest claims holds => ?_) ⟨[], rfl, .empty tree⟩
    obtain ⟨read, whole, scanned⟩ := holds
    have fresh := not_mem_of_nodup_append (whole ▸ lists.disks.1)
    obtain ⟨next, round⟩ := readClaim_of_settled settled scanned fresh
    exact ⟨next, round, read ++ [run], by simp [whole], scanned.step fresh round⟩
  obtain ⟨claims, scan, read, all, scanned⟩ := reads
  rw [List.append_nil] at all
  have whole := (all ▸ scanned).whole lists.disks.2
  have plans : ∃ next, listing.environments.foldlM (planEnvironment tree claims) {} = .ok next ∧
      ∃ done, listing.environments = done ++ [] ∧ Unchanged tree done next := by
    refine foldlM_ok (motive := fun rest plan => ∃ done, listing.environments = done ++ rest ∧
      Unchanged tree done plan) (fun environment rest plan holds => ?_)
      ⟨[], rfl, rfl, rfl, fun _ member => absurd member List.not_mem_nil⟩
    obtain ⟨done, all, unchanged⟩ := holds
    have fresh := not_mem_of_nodup_append (all ▸ lists.environments.1)
    have present := (lists.environments.2 environment).mp (by simp [all])
    obtain ⟨next, round, unchanged⟩ :=
      planEnvironment_of_settled settled whole present fresh unchanged
    exact ⟨next, round, done ++ [environment], by simp [all], unchanged⟩
  obtain ⟨next, planned, _, -, unchanged⟩ := plans
  have isPlan : plan tree listing = .ok next := bind_eq_ok.mpr ⟨claims, scan, planned⟩
  simp only [Environments.recover, isPlan, Tree.carryOut, unchanged.unclaimed, unchanged.repair,
    List.foldl_nil]

/-! ### Claims are kept -/

/-- Storing a directory with the pointer it had. -/
theorem setDisk_pointer {run : String} {logical stored : Logical}
    (opened : openLogical (tree.disks run) = .ok logical) (same : stored.pointer = logical.pointer)
    (other : String) : (tree.setDisk run stored).pointer? other = tree.pointer? other := by
  by_cases here : other = run
  · subst here
    have isStored : (tree.setDisk other stored).disks other = some (.directory stored) :=
      Function.update_self _ _ _
    unfold openLogical at opened
    unfold Tree.pointer?
    rw [isStored]
    split at opened
    · rename_i absent
      obtain rfl := Except.ok.inj opened
      simp only [absent, same]
      rfl
    · rename_i entry isEntry
      simp only [isEntry, realDirectory_eq_ok.mp opened, same]
  · exact pointer_congr (Function.update_of_ne here _ _)

theorem openAssignment_of_ok {environment run : String} {physical : Physical} {logical : Logical}
    (opened : openAssignment tree environment run = .ok (physical, logical)) :
    isIdentity environment = true ∧ isIdentity run = true ∧
      tree.environments environment = some (.directory physical) ∧
      ∃ stored, openLogical (tree.disks run) = .ok stored ∧ logical = stored.locked := by
  obtain ⟨_, isEnvironment, rest⟩ := bind_eq_ok.mp opened
  obtain ⟨_, isRun, rest'⟩ := bind_eq_ok.mp rest
  obtain ⟨_, isPhysical, rest''⟩ := bind_eq_ok.mp rest'
  obtain ⟨stored, isStored, same⟩ := bind_eq_ok.mp rest''
  obtain ⟨rfl, rfl⟩ := Prod.mk.inj (Except.ok.inj same)
  exact ⟨identity_eq_ok.mp isEnvironment, identity_eq_ok.mp isRun,
    realDirectory_eq_ok.mp isPhysical, stored, isStored, rfl⟩

theorem requireUnassigned_of_ok {physical : Physical} {logical : Logical}
    (free : requireUnassigned physical logical = .ok ()) :
    readIdentity physical.owner = .ok none ∧ logical.pointer = none := by
  obtain ⟨owner, isOwner, rest⟩ := bind_eq_ok.mp free
  split at rest
  · simp at rest
  · rename_i unowned
    have unowned : owner = none := by simpa using unowned
    exact ⟨unowned ▸ isOwner, pointer_none_of_vacant rest⟩

@[simp] theorem locked_pointer (logical : Logical) : logical.locked.pointer = logical.pointer := by
  unfold Logical.locked
  split <;> rfl

@[simp] theorem setDisk_owner (run : String) (logical : Logical) (environment : String) :
    (tree.setDisk run logical).owner? environment = tree.owner? environment := rfl

theorem setOwner_owner {environment run : String} (valid : isIdentity run = true) :
    (tree.setOwner environment run).owner? environment = some run :=
  owner_of_read (Function.update_self _ _ _) (readIdentity_file valid)

theorem setPointer_pointer {run environment : String} (valid : isIdentity environment = true) :
    (tree.setPointer run environment).pointer? run = some environment :=
  pointer_of_read (Function.update_self _ _ _) (readIdentity_file valid)

/-- No state of an assignment loses a claim. -/
theorem claims_of_assign {next : Tree} {environment run id owner target : String}
    (reached : next ∈ assignStates tree environment run id) (claims : tree.Claims owner target) :
    next.Claims owner target := by
  unfold assignStates at reached
  split at reached
  · obtain rfl := List.mem_singleton.mp reached
    exact claims
  · rename_i physical logical opened
    obtain ⟨isEnvironment, isRun, isPhysical, stored, isStored, rfl⟩ := openAssignment_of_ok opened
    have same : ∀ other, (tree.setDisk run stored.locked).pointer? other = tree.pointer? other :=
      setDisk_pointer isStored (locked_pointer stored)
    have isOpened : (tree.setDisk run stored.locked).Claims owner target :=
      claims.imp_left fun points => (same owner).trans points
    dsimp only at reached
    split at reached
    · simp only [List.mem_cons, List.not_mem_nil, or_false] at reached
      rcases reached with rfl | rfl
      · exact claims
      · exact isOpened
    · rename_i free
      obtain ⟨unowned, unpointed⟩ := requireUnassigned_of_ok free
      have isPointed : ((tree.setDisk run stored.locked).setPointer run environment).Claims
          owner target := by
        refine isOpened.imp_left fun points => ?_
        by_cases here : owner = run
        · subst here
          have unread : readIdentity stored.locked.pointer = .ok none :=
            congrArg readIdentity unpointed
          have isDirectory : (tree.setDisk owner stored.locked).disks owner =
              some (.directory stored.locked) := Function.update_self _ _ _
          have nothing := pointer_of_read isDirectory unread
          exact absurd (points.symm.trans nothing) (Option.some_ne_none _)
        · exact (pointer_congr (Function.update_of_ne here _ _)).trans points
      simp only [List.mem_cons, List.not_mem_nil, or_false] at reached
      rcases reached with rfl | rfl | rfl | rfl | rfl
      · exact claims
      · exact isOpened
      · have kept : (stored.locked.writing id).pointer = stored.pointer := locked_pointer stored
        exact claims.imp_left fun points => (setDisk_pointer isStored kept owner).trans points
      · exact isPointed
      · refine isPointed.imp_right fun owns => ?_
        by_cases here : target = environment
        · subst here
          have nobody : tree.owner? target = none := owner_of_read isPhysical unowned
          exact absurd (owns.symm.trans nobody) (Option.some_ne_none _)
        · exact (owner_congr (Function.update_of_ne here _ _)).trans owns

/-- No step loses a claim. -/
theorem Tree.Step.claims {next : Tree} {run environment : String} (step : tree.Step next)
    (claims : tree.Claims run environment) : next.Claims run environment := by
  cases step with
  | prepare prepared absent =>
      refine claims.imp_right fun owns => ?_
      by_cases here : environment = prepared
      · subst here
        simp [Tree.owner?, absent] at owns
      · exact (owner_congr (Function.update_of_ne here _ _)).trans owns
  | assign _ _ _ _ reached => exact claims_of_assign reached claims
  | recover listing lists =>
      unfold Environments.recover
      cases planned : plan tree listing with
      | error => exact claims
      | ok next => exact .inl ((checked_of_plan lists planned).pointer_iff.mpr claims)

/-- No run loses a claim. -/
theorem Tree.Leads.claims {final : Tree} {run environment : String} (leads : tree.Leads final)
    (claims : tree.Claims run environment) : final.Claims run environment := by
  induction leads with
  | refl => exact claims
  | tail _ step inductionHypothesis => exact step.claims inductionHypothesis

/-- An assignment that wrote its pointer claims the environment. -/
theorem claims_of_interrupted {next : Tree} {environment run id : String}
    (reached : next ∈ (assignStates tree environment run id).drop 3) :
    next.Claims run environment := by
  unfold assignStates at reached
  split at reached
  · simp at reached
  · rename_i physical logical opened
    have isEnvironment := (openAssignment_of_ok opened).1
    dsimp only at reached
    split at reached
    · simp at reached
    · simp only [List.drop_succ_cons, List.drop_zero, List.mem_cons, List.not_mem_nil,
        or_false] at reached
      rcases reached with rfl | rfl
      · exact .inl (setPointer_pointer isEnvironment)
      · exact .inl (setPointer_pointer isEnvironment)

/-! ### Recovery over runs -/

/-- What a recovery that returns leaves of a state. -/
structure Recovered (tree after : Tree) : Prop where
  agree : ∀ run environment, after.pointer? run = some environment ↔
    after.owner? environment = some run
  oneRun : ∀ run other environment, after.pointer? run = some environment →
    after.pointer? other = some environment → run = other
  finished : ∀ run environment, after.pointer? run = some environment ↔
    tree.Claims run environment
  directory : ∀ run environment, after.pointer? run = some environment →
    directory after run = .ok (.physical environment)
  deleted : ∀ environment, tree.environments environment ≠ none →
    (after.environments environment = none ↔ ∀ run, ¬ tree.Claims run environment)
  disks : ∀ run logical, tree.disks run = some (.directory logical) →
    ∃ pointer, after.disks run = some (.directory { logical with pointer := pointer })
  again : ∀ listing : Listing, listing.Lists after → recover after listing = (.ok (), after)

theorem Checked.recovered {next : Plan} (checked : Checked tree next) :
    Recovered tree (tree.carryOut next) := by
  have settled := checked.settled
  refine ⟨settled.agree, fun run other environment one two => ?_, fun _ _ => checked.pointer_iff,
    fun run environment => settled.directory, fun environment _ => ?_,
    fun run logical isDirectory => ?_, fun listing lists => settled.recover lists⟩
  · exact checked.oneRun environment run other (checked.pointer_iff.mp one)
      (checked.pointer_iff.mp two)
  · rw [← not_iff_not, ← ne_eq, checked.present_iff]
    exact ⟨fun ⟨run, claims⟩ nobody => nobody run claims, fun some => by_contra fun nobody =>
      some fun run claims => nobody ⟨run, claims⟩⟩
  · by_cases writes : ∃ target, tree.Claims run target ∧ tree.pointer? run ≠ some target
    · obtain ⟨target, claims, unwritten⟩ := writes
      have same : tree.contents run = logical := by rw [Tree.contents, isDirectory]
      exact ⟨_, same ▸ checked.disks_written claims unwritten⟩
    · refine ⟨logical.pointer, (checked.disks_kept fun target claims => ?_).trans isDirectory⟩
      exact by_contra fun unwritten => writes ⟨target, claims, unwritten⟩

/-- After any run in which assignments may have stopped at any write, a recovery that returns
leaves a partial bijection in which everything claimed at any time is finished; a recovery
that fails changes nothing. -/
theorem recover_restores_bijection {middle tree : Tree} {listing : Listing}
    (rest : middle.Leads tree) (lists : listing.Lists tree) :
    match recover tree listing with
    | (.error _, after) => after = tree
    | (.ok (), after) => Recovered tree after ∧
        (∀ run environment, middle.Claims run environment →
          after.pointer? run = some environment ∧ after.owner? environment = some run) ∧
        ∀ earlier environment run id, middle ∈ (assignStates earlier environment run id).drop 3 →
          after.pointer? run = some environment ∧ after.owner? environment = some run := by
  unfold recover
  cases planned : plan tree listing with
  | error => rfl
  | ok next =>
      have checked := checked_of_plan lists planned
      have finished : ∀ run environment, middle.Claims run environment →
          (tree.carryOut next).pointer? run = some environment ∧
            (tree.carryOut next).owner? environment = some run := fun run environment claims =>
        ⟨checked.pointer_iff.mpr (rest.claims claims), checked.owner_iff.mpr (rest.claims claims)⟩
      exact ⟨checked.recovered, finished, fun _ environment run _ reached =>
        finished run environment (claims_of_interrupted reached)⟩

/-- A disk is prepared and claimed, and a crash comes before its owner is written. -/
def interrupted : Tree :=
  let empty : Tree := { disks := fun _ => none, environments := fun _ => none }
  ((empty.prepare "123e4567-e89b-42d3-a456-426614174000").setDisk
    "223e4567-e89b-42d3-a456-426614174000"
      { entries := [("ownership.lock", true)] }).setPointer
    "223e4567-e89b-42d3-a456-426614174000" "123e4567-e89b-42d3-a456-426614174000"

/-- The order in which its directories are read. -/
def interruptedListing : Listing where
  disks := ["223e4567-e89b-42d3-a456-426614174000"]
  environments := ["123e4567-e89b-42d3-a456-426614174000"]

theorem recover_restores_bijection_interrupted :
    ∃ after, recover interrupted interruptedListing = (.ok (), after) ∧
      Recovered interrupted after ∧ after.owner? "123e4567-e89b-42d3-a456-426614174000" =
        some "223e4567-e89b-42d3-a456-426614174000" := by
  have lists : interruptedListing.Lists interrupted := by
    constructor <;> refine ⟨by decide, fun name => ?_⟩ <;>
      simp [interruptedListing, interrupted, Tree.setPointer, Tree.setDisk, Tree.prepare,
        Function.update_apply]
  have returns : (recover interrupted interruptedListing).1.toOption.isSome = true := by decide
  have points : interrupted.pointer? "223e4567-e89b-42d3-a456-426614174000" =
      some "123e4567-e89b-42d3-a456-426614174000" := by decide
  have recovered := recover_restores_bijection .refl lists
  cases result : recover interrupted interruptedListing with
  | mk outcome after =>
      rw [result] at recovered returns
      cases outcome with
      | error => simp [Except.toOption] at returns
      | ok => exact ⟨after, rfl, recovered.1, (recovered.2.1 _ _ (.inl points)).2⟩

end Cairn.Storage.Environments

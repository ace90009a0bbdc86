import Cairn.Beacon.Database
import Cairn.Library.Histories
import Mathlib.Logic.Function.Basic

/-!
Owns what the ownership of installations is for, apart from the tables: a machine that takes the
events of a history in which an installation gets an owner only by a claim code or by a device claim
the account has approved, and what its runs say in terms of their events alone.

Does not own the tables, or how a transaction brings an event about.
-/

set_option autoImplicit false

namespace Cairn.Beacon

open Cairn.Library.Histories Cairn.Library.Steps

/-- A device claim that can still be delivered. -/
structure Pending where
  installation : String
  review : Option (String × String)
  approvedBy : Option String
deriving DecidableEq

/-- The owners, the claim codes that were not used, and the device claims. -/
structure Ownership where
  owner : String → Option String
  codes : String → Option String
  pending : String → Option Pending

namespace Ownership

/-- Nobody owns anything. -/
def initial : Ownership := ⟨fun _ => none, fun _ => none, fun _ => none⟩

/-- The device claims of an installation end. -/
def clear (installation : String) (pending : String → Option Pending) : String → Option Pending :=
  fun device => (pending device).filter fun claim => claim.installation ≠ installation

/-- An event, if it may happen. -/
def step (state : Ownership) : Event → Option Ownership
  | .codeCreated code account =>
      some { state with codes := Function.update state.codes code (some account) }
  | .claimed code installation owner =>
      if state.codes code = some owner ∧ state.owner installation = none then
        some { state with
          owner := Function.update state.owner installation (some owner)
          codes := Function.update state.codes code none }
      else none
  | .started device installation _ =>
      some { state with
        pending := Function.update (clear installation state.pending) device
          (some ⟨installation, none, none⟩) }
  | .reviewed device account confirmation =>
      match state.pending device with
      | none => none
      | some claim =>
          if claim.approvedBy = none then
            some { state with
              pending := Function.update state.pending device
                (some { claim with review := some (account, confirmation) }) }
          else none
  | .approved device account confirmation =>
      match state.pending device with
      | none => none
      | some claim =>
          if claim.review = some (account, confirmation) ∧ claim.approvedBy = none then
            some { state with
              pending := Function.update state.pending device
                (some { claim with approvedBy := some account }) }
          else none
  | .delivered device installation owner _ =>
      match state.pending device with
      | none => none
      | some claim =>
          if claim.installation = installation ∧ claim.approvedBy = some owner ∧
              state.owner installation = none then
            some { state with
              owner := Function.update state.owner installation (some owner)
              pending := Function.update state.pending device none }
          else none
  | .rotated installation => some { state with pending := clear installation state.pending }
  | .released installation owner =>
      if state.owner installation = some owner then
        some { state with
          owner := Function.update state.owner installation none
          pending := clear installation state.pending }
      else none
  | _ => some state

end Ownership

/-! ### The same, in terms of events -/

/-- An event that gives an installation to an account. -/
def Event.gives (installation account : String) : Event → Prop
  | .claimed _ other owner => other = installation ∧ owner = account
  | .delivered _ other owner _ => other = installation ∧ owner = account
  | _ => False

/-- An event after which an earlier owner is not the owner anymore. -/
def Event.takes (installation : String) : Event → Prop
  | .claimed _ other _ => other = installation
  | .delivered _ other _ _ => other = installation
  | .released other _ => other = installation
  | _ => False

/-- An event that ends a device claim of an installation. -/
def Event.closes (device installation : String) : Event → Prop
  | .started other target _ => other = device ∨ target = installation
  | .delivered other _ _ _ => other = device
  | .rotated other => other = installation
  | .released other _ => other = installation
  | _ => False

/-- An event that reviews a device claim, or starts another of the same device. -/
def Event.reviews (device : String) : Event → Prop
  | .started other _ _ => other = device
  | .reviewed other _ _ => other = device
  | _ => False

/-- An event that starts a device claim. -/
def Event.starts (device : String) : Event → Prop
  | .started other _ _ => other = device
  | _ => False

/-- An event that names a claim code or a device. -/
def Event.names (value : String) : Event → Prop
  | .codeCreated code _ => code = value
  | .claimed code _ _ => code = value
  | .started device _ _ => device = value
  | .reviewed device _ _ => device = value
  | .approved device _ _ => device = value
  | .delivered device _ _ _ => device = value
  | _ => False

section Histories

variable (log : List Event)

/-- The account got the installation, and it was not released since. -/
def HeldBy (installation account : String) : Prop :=
  Since (fun _ event => event.gives installation account) (fun event => event.takes installation) log

/-- The account created the code, and it was not used since. -/
def CodeOf (code account : String) : Prop :=
  Since (fun _ event => event = .codeCreated code account)
    (fun event => ∃ installation owner, event = .claimed code installation owner) log

/-- The device has claimed the installation, and nothing has ended the claim since. -/
def Opened (device installation : String) : Prop :=
  Since (fun _ event => ∃ recovering, event = .started device installation recovering)
    (fun event => event.closes device installation) log

/-- The latest review of the device's claim. -/
def Reviewed (device account confirmation : String) : Prop :=
  Since (fun _ event => event = .reviewed device account confirmation)
    (fun event => event.reviews device) log

/-- The account has approved the device's claim, with the confirmation of the latest review, which
was its own. -/
def Approved (device account : String) : Prop :=
  Since (fun before event => ∃ confirmation, event = .approved device account confirmation ∧
    Reviewed before device account confirmation) (fun event => event.starts device) log

/-- What must have happened before an event. -/
def Event.Rightful (before : List Event) : Event → Prop
  | .codeCreated code _ => ∀ earlier ∈ before, ¬ earlier.names code
  | .started device _ _ => ∀ earlier ∈ before, ¬ earlier.names device
  | .claimed code installation owner =>
      CodeOf before code owner ∧ ∀ account, ¬ HeldBy before installation account
  | .reviewed device _ _ => ∀ account, ¬ Approved before device account
  | .approved device account confirmation =>
      Reviewed before device account confirmation ∧ ∀ other, ¬ Approved before device other
  | .delivered device installation owner _ =>
      Opened before device installation ∧ Approved before device owner ∧
        ∀ account, ¬ HeldBy before installation account
  | .released installation owner => HeldBy before installation owner
  | _ => True

end Histories

/-! ### What a run says -/

namespace Ownership
variable {state next : Ownership}

theorem step_claimed {code installation owner : String} :
    state.step (.claimed code installation owner) = some next ↔
      (state.codes code = some owner ∧ state.owner installation = none) ∧
        next = { state with
          owner := Function.update state.owner installation (some owner)
          codes := Function.update state.codes code none } := by
  simp only [step, Option.ite_none_right_eq_some, Option.some.injEq, eq_comm (b := next)]

theorem step_reviewed {device account confirmation : String} :
    state.step (.reviewed device account confirmation) = some next ↔
      ∃ claim, state.pending device = some claim ∧ claim.approvedBy = none ∧
        next = { state with
          pending := Function.update state.pending device
            (some { claim with review := some (account, confirmation) }) } := by
  cases found : state.pending device <;> simp [step, found, eq_comm]

theorem step_approved {device account confirmation : String} :
    state.step (.approved device account confirmation) = some next ↔
      ∃ claim, state.pending device = some claim ∧
        (claim.review = some (account, confirmation) ∧ claim.approvedBy = none) ∧
        next = { state with
          pending := Function.update state.pending device
            (some { claim with approvedBy := some account }) } := by
  cases found : state.pending device <;> simp [step, found, eq_comm]

theorem step_delivered {device installation owner : String} {now : Nat} :
    state.step (.delivered device installation owner now) = some next ↔
      ∃ claim, state.pending device = some claim ∧
        (claim.installation = installation ∧ claim.approvedBy = some owner ∧
          state.owner installation = none) ∧
        next = { state with
          owner := Function.update state.owner installation (some owner)
          pending := Function.update state.pending device none } := by
  cases found : state.pending device <;> simp [step, found, eq_comm]

theorem step_released {installation owner : String} :
    state.step (.released installation owner) = some next ↔
      state.owner installation = some owner ∧
        next = { state with
          owner := Function.update state.owner installation none
          pending := clear installation state.pending } := by
  simp only [step, Option.ite_none_right_eq_some, Option.some.injEq, eq_comm (b := next)]

theorem clear_eq_some {installation device : String} {pending : String → Option Pending}
    {claim : Pending} : clear installation pending device = some claim ↔
      pending device = some claim ∧ claim.installation ≠ installation := by
  simp [clear, Option.filter_eq_some_iff]
end Ownership

/-- What the state after a history says of its events. -/
structure Traced (log : List Event) (state : Ownership) : Prop where
  owner : ∀ installation account,
    state.owner installation = some account ↔ HeldBy log installation account
  codes : ∀ code account, state.codes code = some account → CodeOf log code account
  opened : ∀ device claim, state.pending device = some claim → Opened log device claim.installation
  reviewed : ∀ device claim account confirmation, state.pending device = some claim →
    claim.review = some (account, confirmation) → Reviewed log device account confirmation
  approved : ∀ device claim account, state.pending device = some claim →
    (claim.approvedBy = some account ↔ Approved log device account)

namespace Traced

open Ownership

variable {log : List Event} {state next : Ownership} {event : Event}

theorem empty : Traced [] .initial where
  owner installation account := by
    constructor
    · intro owned
      cases owned
    · exact fun held => absurd held not_since_nil
  codes code account known := by cases known
  opened device claim found := by cases found
  reviewed device claim account confirmation found := by cases found
  approved device claim account found := by cases found

/-- An unowned installation is held by nobody. -/
theorem free (traced : Traced log state) {installation : String}
    (unowned : state.owner installation = none) (account : String) :
    ¬ HeldBy log installation account := by
  rw [← traced.owner, unowned]
  exact fun owned => by cases owned

/-- A claim that nobody has approved. -/
theorem unapproved (traced : Traced log state) {device : String} {claim : Pending}
    (found : state.pending device = some claim) (open' : claim.approvedBy = none) (account : String) :
    ¬ Approved log device account := by
  rw [← traced.approved device claim account found, open']
  exact fun approved => by cases approved

/-- The event was rightful, except for its names. -/
theorem rightful (traced : Traced log state) (stepped : state.step event = some next)
    (named : ∀ value, (∃ account, event = .codeCreated value account) ∨
      (∃ installation recovering, event = .started value installation recovering) →
        ∀ earlier ∈ log, ¬ earlier.names value) : event.Rightful log := by
  cases event with
  | codeCreated code account => exact named code (.inl ⟨account, rfl⟩)
  | started device installation recovering =>
      exact named device (.inr ⟨installation, recovering, rfl⟩)
  | claimed code installation owner =>
      obtain ⟨⟨known, free⟩, -⟩ := step_claimed.mp stepped
      exact ⟨traced.codes code owner known, traced.free free⟩
  | reviewed device account confirmation =>
      obtain ⟨claim, found, open', -⟩ := step_reviewed.mp stepped
      exact traced.unapproved found open'
  | approved device account confirmation =>
      obtain ⟨claim, found, ⟨isReview, open'⟩, -⟩ := step_approved.mp stepped
      exact ⟨traced.reviewed device claim account confirmation found isReview,
        traced.unapproved found open'⟩
  | delivered device installation owner now =>
      obtain ⟨claim, found, ⟨rfl, isApproved, free⟩, -⟩ := step_delivered.mp stepped
      exact ⟨traced.opened device claim found,
        (traced.approved device claim owner found).mp isApproved, traced.free free⟩
  | released installation owner =>
      obtain ⟨owned, -⟩ := step_released.mp stepped
      exact (traced.owner installation owner).mp owned
  | _ => trivial

theorem owner_step (traced : Traced log state) (stepped : state.step event = some next)
    (installation account : String) :
    next.owner installation = some account ↔ HeldBy (log ++ [event]) installation account := by
  have held : HeldBy (log ++ [event]) installation account ↔ event.gives installation account ∨
      HeldBy log installation account ∧ ¬ event.takes installation := since_concat
  rw [held, ← traced.owner]
  cases event with
  | claimed code other owner =>
      obtain ⟨-, rfl⟩ := step_claimed.mp stepped
      simp only [Event.gives, Event.takes, Function.update_apply]
      grind
  | delivered device other owner now =>
      obtain ⟨claim, -, -, rfl⟩ := step_delivered.mp stepped
      simp only [Event.gives, Event.takes, Function.update_apply]
      grind
  | released other owner =>
      obtain ⟨-, rfl⟩ := step_released.mp stepped
      simp only [Event.gives, Event.takes, Function.update_apply]
      grind
  | reviewed device reviewer confirmation =>
      obtain ⟨claim, -, -, rfl⟩ := step_reviewed.mp stepped
      simp [Event.gives, Event.takes]
  | approved device reviewer confirmation =>
      obtain ⟨claim, -, -, rfl⟩ := step_approved.mp stepped
      simp [Event.gives, Event.takes]
  | _ =>
      obtain rfl := Option.some.inj stepped
      simp [Event.gives, Event.takes]

theorem codes_step (traced : Traced log state) (stepped : state.step event = some next)
    (code account : String) (known : next.codes code = some account) :
    CodeOf (log ++ [event]) code account := by
  have codeOf : CodeOf (log ++ [event]) code account ↔ event = .codeCreated code account ∨
      CodeOf log code account ∧ ¬ ∃ installation owner, event = .claimed code installation owner :=
    since_concat
  rw [codeOf]
  have old := traced.codes code account
  cases event with
  | codeCreated other owner =>
      obtain rfl := Option.some.inj stepped
      simp only [Function.update_apply] at known
      grind
  | claimed other installation owner =>
      obtain ⟨-, rfl⟩ := step_claimed.mp stepped
      simp only [Function.update_apply] at known
      grind
  | delivered device other owner now =>
      obtain ⟨claim, -, -, rfl⟩ := step_delivered.mp stepped
      exact .inr ⟨old known, by simp⟩
  | released other owner =>
      obtain ⟨-, rfl⟩ := step_released.mp stepped
      exact .inr ⟨old known, by simp⟩
  | reviewed device reviewer confirmation =>
      obtain ⟨claim, -, -, rfl⟩ := step_reviewed.mp stepped
      exact .inr ⟨old known, by simp⟩
  | approved device reviewer confirmation =>
      obtain ⟨claim, -, -, rfl⟩ := step_approved.mp stepped
      exact .inr ⟨old known, by simp⟩
  | _ =>
      obtain rfl := Option.some.inj stepped
      exact .inr ⟨old known, by simp⟩

/-- What a step leaves of a device claim. -/
theorem pending_cases {device : String} {claim : Pending} (stepped : state.step event = some next)
    (found : next.pending device = some claim) :
    (∃ recovering, event = .started device claim.installation recovering ∧ claim.review = none ∧
        claim.approvedBy = none) ∨
      ∃ before, state.pending device = some before ∧ before.installation = claim.installation ∧
        ¬ event.closes device claim.installation ∧
          ((∃ account confirmation, event = .reviewed device account confirmation ∧
              before.approvedBy = none ∧ claim.review = some (account, confirmation) ∧
                claim.approvedBy = none) ∨
            (∃ account confirmation, event = .approved device account confirmation ∧
              before.review = some (account, confirmation) ∧ claim.review = before.review ∧
                claim.approvedBy = some account ∧ before.approvedBy = none) ∨
            (claim = before ∧ ∀ account confirmation, event ≠ .reviewed device account confirmation ∧
              event ≠ .approved device account confirmation)) := by
  cases event with
  | started other installation recovering =>
      obtain rfl := Option.some.inj stepped
      simp only [Function.update_apply] at found
      split at found
      · rename_i same
        obtain rfl := Option.some.inj found
        exact .inl ⟨recovering, by rw [same], rfl, rfl⟩
      · rename_i different
        obtain ⟨old, apart⟩ := clear_eq_some.mp found
        refine .inr ⟨claim, old, rfl, ?_, .inr (.inr ⟨rfl, by simp⟩)⟩
        rintro (same | same)
        · exact different same.symm
        · exact apart same.symm
  | delivered other installation owner now =>
      obtain ⟨delivered, -, -, rfl⟩ := step_delivered.mp stepped
      simp only [Function.update_apply] at found
      split at found
      · cases found
      · rename_i different
        exact .inr ⟨claim, found, rfl, fun same => different same.symm, .inr (.inr ⟨rfl, by simp⟩)⟩
  | released installation owner =>
      obtain ⟨-, rfl⟩ := step_released.mp stepped
      obtain ⟨old, apart⟩ := clear_eq_some.mp found
      exact .inr ⟨claim, old, rfl, fun same => apart same.symm, .inr (.inr ⟨rfl, by simp⟩)⟩
  | rotated installation =>
      obtain rfl := Option.some.inj stepped
      obtain ⟨old, apart⟩ := clear_eq_some.mp found
      exact .inr ⟨claim, old, rfl, fun same => apart same.symm, .inr (.inr ⟨rfl, by simp⟩)⟩
  | reviewed other account confirmation =>
      obtain ⟨before, isBefore, unapproved, rfl⟩ := step_reviewed.mp stepped
      simp only [Function.update_apply] at found
      split at found
      · rename_i same
        obtain rfl := Option.some.inj found
        rw [← same] at isBefore
        exact .inr ⟨before, isBefore, rfl, id,
          .inl ⟨account, confirmation, by rw [same], unapproved, rfl, unapproved⟩⟩
      · rename_i different
        refine .inr ⟨claim, found, rfl, id, .inr (.inr ⟨rfl, fun _ _ => ⟨?_, by simp⟩⟩)⟩
        exact fun same => different (Event.reviewed.inj same).1.symm
  | approved other account confirmation =>
      obtain ⟨before, isBefore, ⟨isReview, unapproved⟩, rfl⟩ := step_approved.mp stepped
      simp only [Function.update_apply] at found
      split at found
      · rename_i same
        obtain rfl := Option.some.inj found
        rw [← same] at isBefore
        exact .inr ⟨before, isBefore, rfl, id,
          .inr (.inl ⟨account, confirmation, by rw [same], isReview, rfl, rfl, unapproved⟩)⟩
      · rename_i different
        refine .inr ⟨claim, found, rfl, id, .inr (.inr ⟨rfl, fun _ _ => ⟨by simp, ?_⟩⟩)⟩
        exact fun same => different (Event.approved.inj same).1.symm
  | claimed code installation owner =>
      obtain ⟨-, rfl⟩ := step_claimed.mp stepped
      exact .inr ⟨claim, found, rfl, id, .inr (.inr ⟨rfl, by simp⟩)⟩
  | _ =>
      obtain rfl := Option.some.inj stepped
      exact .inr ⟨claim, found, rfl, id, .inr (.inr ⟨rfl, by simp⟩)⟩

theorem opened_step (traced : Traced log state) (stepped : state.step event = some next)
    (device : String) (claim : Pending) (found : next.pending device = some claim) :
    Opened (log ++ [event]) device claim.installation := by
  refine since_concat.mpr ?_
  rcases pending_cases stepped found with ⟨recovering, isStart, -⟩ | ⟨before, old, same, stays, -⟩
  · exact .inl ⟨recovering, isStart⟩
  · have opened := traced.opened device before old
    rw [same] at opened
    exact .inr ⟨opened, stays⟩

/-- A claim that goes on was not started again. -/
theorem not_starts {device installation : String} (stays : ¬ event.closes device installation) :
    ¬ event.starts device := by
  cases event with
  | started other target recovering => exact fun same => stays (.inl same)
  | _ => exact id

theorem reviewed_step (traced : Traced log state) (stepped : state.step event = some next)
    (device : String) (claim : Pending) (account confirmation : String)
    (found : next.pending device = some claim) (isReview : claim.review = some (account, confirmation)) :
    Reviewed (log ++ [event]) device account confirmation := by
  refine since_concat.mpr ?_
  rcases pending_cases stepped found with ⟨recovering, -, unreviewed, -⟩ |
    ⟨before, old, same, stays, ⟨reviewer, other, rfl, -, newReview, -⟩ |
      ⟨approver, other, rfl, -, sameReview, -⟩ | ⟨rfl, different⟩⟩
  · rw [unreviewed] at isReview
    cases isReview
  · rw [newReview] at isReview
    obtain ⟨rfl, rfl⟩ := Prod.mk.inj (Option.some.inj isReview)
    exact .inl rfl
  · rw [sameReview] at isReview
    exact .inr ⟨traced.reviewed device before account confirmation old isReview, id⟩
  · refine .inr ⟨traced.reviewed device claim account confirmation old isReview, ?_⟩
    cases event with
    | started other target recovering => exact not_starts stays
    | reviewed other reviewer review => exact fun same => (different reviewer review).1 (by rw [same])
    | _ => exact id

theorem approved_step (traced : Traced log state) (stepped : state.step event = some next)
    (device : String) (claim : Pending) (account : String)
    (found : next.pending device = some claim) :
    claim.approvedBy = some account ↔ Approved (log ++ [event]) device account := by
  have approved : Approved (log ++ [event]) device account ↔
      (∃ confirmation, event = .approved device account confirmation ∧
        Reviewed log device account confirmation) ∨
          Approved log device account ∧ ¬ event.starts device := since_concat
  rw [approved]
  rcases pending_cases stepped found with ⟨recovering, rfl, -, unapproved⟩ |
    ⟨before, old, same, stays, ⟨reviewer, other, rfl, wasNone, -, isNone⟩ |
      ⟨approver, other, rfl, isReview, -, isApproved, wasNone⟩ | ⟨rfl, different⟩⟩
  · rw [unapproved]
    simp [Event.starts]
  · rw [isNone]
    have none := traced.unapproved old wasNone account
    simp [none]
  · rw [isApproved]
    have none := traced.unapproved old wasNone account
    constructor
    · intro same
      obtain rfl := Option.some.inj same
      exact .inl ⟨other, rfl, traced.reviewed device before approver other old isReview⟩
    · rintro (⟨confirmation, same, -⟩ | ⟨held, -⟩)
      · rw [(Event.approved.inj same).2.1]
      · exact absurd held none
  · rw [traced.approved device claim account old]
    constructor
    · exact fun held => .inr ⟨held, not_starts stays⟩
    · rintro (⟨confirmation, same, -⟩ | ⟨held, -⟩)
      · exact absurd same (different account confirmation).2
      · exact held

/-- One more event. -/
theorem step (traced : Traced log state) (stepped : state.step event = some next) :
    Traced (log ++ [event]) next :=
  ⟨traced.owner_step stepped, traced.codes_step stepped, traced.opened_step stepped,
    traced.reviewed_step stepped, traced.approved_step stepped⟩

/-- Every history says what its state is. -/
theorem of_execute {log : List Event} (executed : execute Ownership.step .initial log = some state) :
    Traced log state :=
  execute_history empty (fun _ _ _ _ traced stepped => traced.step stepped) executed

end Traced

end Cairn.Beacon

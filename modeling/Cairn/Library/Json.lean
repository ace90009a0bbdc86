import Mathlib.Data.List.Basic

/-!
Owns JSON values: their decidable equality, the members of objects, and the reads that treat
a missing member as null.
-/

set_option autoImplicit false

namespace Cairn.Library.Json

/-- A JSON value. An object lists each of its keys once. -/
inductive Value where
  | null
  | bool (value : Bool)
  | number (value : Int)
  | string (value : String)
  | array (items : List Value)
  | object (members : List (String × Value))

namespace Value

/-! ### Equality -/

mutual

def beq : Value → Value → Bool
  | .null, .null => true
  | .bool first, .bool second => first == second
  | .number first, .number second => first == second
  | .string first, .string second => first == second
  | .array first, .array second => beqItems first second
  | .object first, .object second => beqMembers first second
  | _, _ => false

def beqItems : List Value → List Value → Bool
  | [], [] => true
  | first :: firsts, second :: seconds => beq first second && beqItems firsts seconds
  | _, _ => false

def beqMembers : List (String × Value) → List (String × Value) → Bool
  | [], [] => true
  | (key, first) :: firsts, (other, second) :: seconds =>
      key == other && beq first second && beqMembers firsts seconds
  | _, _ => false

end

mutual

theorem beq_iff (first second : Value) : beq first second = true ↔ first = second := by
  cases first <;> cases second <;> simp [beq]
  case array.array firsts seconds => exact beqItems_iff firsts seconds
  case object.object firsts seconds => exact beqMembers_iff firsts seconds

theorem beqItems_iff (firsts seconds : List Value) :
    beqItems firsts seconds = true ↔ firsts = seconds := by
  match firsts, seconds with
  | [], [] => simp [beqItems]
  | [], _ :: _ => simp [beqItems]
  | _ :: _, [] => simp [beqItems]
  | first :: firsts, second :: seconds =>
      simp [beqItems, beq_iff first second, beqItems_iff firsts seconds]

theorem beqMembers_iff (firsts seconds : List (String × Value)) :
    beqMembers firsts seconds = true ↔ firsts = seconds := by
  match firsts, seconds with
  | [], [] => simp [beqMembers]
  | [], _ :: _ => simp [beqMembers]
  | _ :: _, [] => simp [beqMembers]
  | (key, first) :: firsts, (other, second) :: seconds =>
      simp [beqMembers, beq_iff first second, beqMembers_iff firsts seconds]

end

instance : DecidableEq Value := fun first second =>
  decidable_of_iff (beq first second = true) (beq_iff first second)

/-! ### Reads -/

def isNull : Value → Bool
  | .null => true
  | _ => false

def isObject : Value → Bool
  | .object _ => true
  | _ => false

def isString : Value → Bool
  | .string _ => true
  | _ => false

def isBool : Value → Bool
  | .bool _ => true
  | _ => false

/-- `as_str`. -/
def asString : Value → Option String
  | .string value => some value
  | _ => none

/-- `as_array`. -/
def asArray : Value → Option (List Value)
  | .array items => some items
  | _ => none

/-- `as_object`. -/
def asObject : Value → Option (List (String × Value))
  | .object members => some members
  | _ => none

/-- `get` of a key. -/
def member (value : Value) (key : String) : Option Value :=
  match value with
  | .object members => members.lookup key
  | _ => none

/-- `value[key]`, null where there is no such member. -/
def get (value : Value) (key : String) : Value := (value.member key).getD .null

/-! ### Writes -/

/-- Set a member of an object, in its place or at the end. -/
def setMember (key : String) (value : Value) : List (String × Value) → List (String × Value)
  | [] => [(key, value)]
  | (other, old) :: rest =>
      if other = key then (key, value) :: rest else (other, old) :: setMember key value rest

/-- `value[key] = …` of an object. -/
def set (value : Value) (key : String) (stored : Value) : Value :=
  match value with
  | .object members => .object (setMember key stored members)
  | _ => value

/-- `merge`: the members of one object extend another. -/
def merge (value patch : Value) : Value :=
  match value, patch with
  | .object target, .object members =>
      .object (members.foldl (fun target entry => setMember entry.1 entry.2 target) target)
  | _, _ => value

theorem eq_of_isNull {value : Value} (null : value.isNull) : value = .null := by
  cases value <;> first | rfl | cases null

theorem lookup_setMember (key other : String) (value : Value) (members : List (String × Value)) :
    (setMember key value members).lookup other =
      if other = key then some value else members.lookup other := by
  induction members with
  | nil =>
      by_cases same : other = key
      · simp [setMember, same]
      · have different : (other == key) = false := by simpa using same
        simp only [setMember, List.lookup_cons, different, if_neg same]
  | cons entry rest inductionHypothesis =>
      obtain ⟨name, old⟩ := entry
      rw [setMember]
      by_cases here : name = key
      · rw [if_pos here]
        subst here
        by_cases same : other = name
        · simp [same]
        · have different : (other == name) = false := by simpa using same
          simp only [List.lookup_cons, different, if_neg same]
      · rw [if_neg here, List.lookup_cons, List.lookup_cons, inductionHypothesis]
        by_cases same : other = name
        · subst same
          simp [here]
        · have different : (other == name) = false := by simpa using same
          simp only [different]

/-- A member of merged objects is one of the first, or is given by the second. -/
theorem lookup_merge (key : String) (target members : List (String × Value)) :
    (members.foldl (fun target entry => setMember entry.1 entry.2 target) target).lookup key =
        target.lookup key ∨
      ∃ value, (key, value) ∈ members ∧
        (members.foldl (fun target entry => setMember entry.1 entry.2 target) target).lookup key =
          some value := by
  induction members generalizing target with
  | nil => exact .inl rfl
  | cons entry rest inductionHypothesis =>
      obtain ⟨name, value⟩ := entry
      rw [List.foldl_cons]
      rcases inductionHypothesis (setMember name value target) with kept | ⟨given, member, found⟩
      · rw [lookup_setMember] at kept
        split at kept
        · rename_i same
          exact .inr ⟨value, by simp [same], kept⟩
        · exact .inl kept
      · exact .inr ⟨given, List.mem_cons_of_mem _ member, found⟩

/-- The keys of an object with distinct keys find their own values. -/
theorem lookup_of_mem {members : List (String × Value)} (distinct : (members.map Prod.fst).Nodup)
    {key : String} {value : Value} (member : (key, value) ∈ members) :
    members.lookup key = some value := by
  induction members with
  | nil => cases member
  | cons entry rest inductionHypothesis =>
      obtain ⟨name, stored⟩ := entry
      obtain ⟨fresh, others⟩ := List.nodup_cons.mp distinct
      rw [List.lookup_cons]
      rcases List.mem_cons.mp member with same | later
      · obtain ⟨rfl, rfl⟩ := Prod.mk.inj same
        simp
      · have different : (key == name) = false := beq_eq_false_iff_ne.mpr fun same =>
          fresh (List.mem_map.mpr ⟨(key, value), later, same⟩)
        simp only [different]
        exact inductionHypothesis others later

theorem mem_of_lookup {members : List (String × Value)} {key : String} {value : Value}
    (found : members.lookup key = some value) : (key, value) ∈ members := by
  obtain ⟨before, behind, split, _⟩ := List.lookup_eq_some_iff.mp found
  rw [split]
  exact List.mem_append_right before List.mem_cons_self

end Value

end Cairn.Library.Json

import Mathlib.Algebra.BigOperators.Group.List.Basic
import Mathlib.Algebra.Order.Ring.Nat
import Cairn.Library.Steps

/-!
Owns the cache of verified bytes that a disk keeps in memory: its entries from the most
to the least recently used, the loops that evict, and what holds after every sequence of
operations.

Does not own: the working set of extents, the registry of caches, and the locks of
transfers in flight.
-/

set_option autoImplicit false

namespace Cairn.Storage.Lazy

open Cairn.Library.Steps

/-- The entries that a cache may have. -/
def maxEntries : Nat := 8192

/-- `BytesCache`. The entries stand from the most to the least recently used. -/
structure BytesCache where
  entries : List (String × List UInt8)
  used : Nat
  budget : Nat
  evictions : Nat

namespace BytesCache

/-! ### Operations -/

def new (budget : Nat) : BytesCache := ⟨[], 0, budget, 0⟩

/-- The bytes of a key. -/
def peek (cache : BytesCache) (key : String) : Option (List UInt8) := cache.entries.lookup key

/-- The entries without a key. -/
def without (entries : List (String × List UInt8)) (key : String) : List (String × List UInt8) :=
  entries.filter fun entry => entry.1 != key

/-- `get`: a foreground read makes its entry the most recently used. -/
def get (cache : BytesCache) (key : String) (foreground : Bool) :
    BytesCache × Option (List UInt8) :=
  match cache.peek key with
  | none => (cache, none)
  | some bytes =>
      if foreground then
        ({ cache with entries := (key, bytes) :: without cache.entries key }, some bytes)
      else (cache, some bytes)

/-- `evict`: the least recently used entry goes. -/
def evict (cache : BytesCache) : BytesCache :=
  match cache.entries.getLast? with
  | none => cache
  | some entry =>
      { cache with
        entries := cache.entries.dropLast
        used := cache.used - entry.2.length
        evictions := cache.evictions + 1 }

/-- `while … { self.evict() }`. Every round but those on an empty cache removes an entry,
so a loop that is not over after one round more than there are entries never ends. -/
def evictWhile (exceeds : BytesCache → Bool) : Nat → BytesCache → Option BytesCache
  | 0, _ => none
  | rounds + 1, cache =>
      if exceeds cache then evictWhile exceeds rounds cache.evict else some cache

/-- `entries.pop`, and what it gives back of the budget. -/
def pop (cache : BytesCache) (key : String) : BytesCache :=
  match cache.peek key with
  | none => cache
  | some previous =>
      { cache with
        entries := without cache.entries key
        used := cache.used - previous.length }

/-- There is no room for so many bytes. -/
def full (length : Nat) (cache : BytesCache) : Bool :=
  cache.used + length > cache.budget || cache.entries.length ≥ maxEntries

/-- `entries.put` of a key that has no entry. -/
def put (cache : BytesCache) (key : String) (bytes : List UInt8) : BytesCache :=
  { cache with entries := (key, bytes) :: cache.entries, used := cache.used + bytes.length }

/-- `insert`, `none` when its loop does not end. -/
def insert (cache : BytesCache) (key : String) (bytes : List UInt8) (foreground : Bool) :
    Option BytesCache :=
  if !foreground || bytes.length > cache.budget then some cache
  else
    let popped := cache.pop key
    (evictWhile (full bytes.length) (popped.entries.length + 1) popped).map fun room =>
      room.put key bytes

/-- `resize`, `none` when its loop does not end. -/
def resize (cache : BytesCache) (budget : Nat) : Option BytesCache :=
  evictWhile (fun cache => cache.used > cache.budget) (cache.entries.length + 1)
    { cache with budget }

/-- What a disk asks of its cache. -/
inductive Operation where
  | get (key : String) (foreground : Bool)
  | insert (key : String) (bytes : List UInt8) (foreground : Bool)
  | resize (budget : Nat)

/-- The cache after an operation, `none` when a loop does not end. -/
def step (cache : BytesCache) : Operation → Option BytesCache
  | .get key foreground => some (cache.get key foreground).1
  | .insert key bytes foreground => cache.insert key bytes foreground
  | .resize budget => cache.resize budget

/-! ### What holds of a cache -/

/-- The bytes of entries. -/
def bytesOf (entries : List (String × List UInt8)) : Nat :=
  (entries.map fun entry => entry.2.length).sum

/-- A key has one entry, and the counter is the total of the entries. -/
structure Counted (cache : BytesCache) : Prop where
  keyed : (cache.entries.map Prod.fst).Nodup
  used : cache.used = bytesOf cache.entries

/-- The counter is right, and within both limits. -/
structure Bounded (cache : BytesCache) : Prop extends Counted cache where
  budgeted : cache.used ≤ cache.budget
  few : cache.entries.length ≤ maxEntries

theorem Bounded.new (budget : Nat) : (new budget).Bounded where
  keyed := List.nodup_nil
  used := rfl
  budgeted := Nat.zero_le budget
  few := Nat.zero_le maxEntries

theorem bytesOf_cons (entry : String × List UInt8) (entries : List (String × List UInt8)) :
    bytesOf (entry :: entries) = entry.2.length + bytesOf entries := rfl

/-- A key that has an entry takes its bytes away. -/
theorem bytesOf_without {entries : List (String × List UInt8)} {key : String}
    {bytes : List UInt8} (keyed : (entries.map Prod.fst).Nodup)
    (found : entries.lookup key = some bytes) :
    bytesOf entries = bytes.length + bytesOf (without entries key) := by
  induction entries with
  | nil => contradiction
  | cons entry rest inductionHypothesis =>
      obtain ⟨name, stored⟩ := entry
      obtain ⟨fresh, keyed⟩ := List.nodup_cons.mp keyed
      rw [List.lookup_cons] at found
      by_cases same : key = name
      · subst same
        simp only [beq_self_eq_true] at found
        obtain rfl := Option.some.inj found
        have kept : without rest key = rest := by
          refine List.filter_eq_self.mpr fun other member => ?_
          have different : other.1 ≠ key := fun same =>
            fresh (List.mem_map.mpr ⟨other, member, same⟩)
          simpa using different
        have gone : without ((key, stored) :: rest) key = without rest key := by
          simp [without]
        rw [gone, kept, bytesOf_cons]
      · have kept : without ((name, stored) :: rest) key = (name, stored) :: without rest key := by
          have different : ¬ name = key := fun equal => same equal.symm
          simp [without, different]
        have other : (key == name) = false := by simpa using same
        rw [other] at found
        rw [kept, bytesOf_cons, bytesOf_cons, inductionHypothesis keyed found]
        omega

theorem without_nodup {entries : List (String × List UInt8)} (key : String)
    (keyed : (entries.map Prod.fst).Nodup) : ((without entries key).map Prod.fst).Nodup :=
  keyed.sublist (List.filter_sublist.map Prod.fst)

theorem notMem_without (entries : List (String × List UInt8)) (key : String) :
    key ∉ (without entries key).map Prod.fst := by
  simp [without]

/-- An entry that is there is not among the others. -/
theorem length_without {entries : List (String × List UInt8)} {key : String}
    {bytes : List UInt8} (found : entries.lookup key = some bytes) :
    (without entries key).length < entries.length := by
  obtain ⟨before, behind, split, _⟩ := List.lookup_eq_some_iff.mp found
  have member : (key, bytes) ∈ entries := by
    rw [split]
    exact List.mem_append_right before List.mem_cons_self
  exact List.length_filter_lt_length_iff_exists.mpr ⟨(key, bytes), member, by simp⟩

/-! ### One operation -/

theorem Counted.pop {cache : BytesCache} (counted : cache.Counted) (key : String) :
    (cache.pop key).Counted ∧ key ∉ (cache.pop key).entries.map Prod.fst := by
  unfold BytesCache.pop
  cases found : cache.peek key with
  | none => exact ⟨counted, fun member => by
      obtain ⟨entry, inside, same⟩ := List.mem_map.mp member
      have absent := List.lookup_eq_none_iff.mp found entry inside
      rw [same] at absent
      simp at absent⟩
  | some previous =>
      refine ⟨⟨without_nodup key counted.keyed, ?_⟩, notMem_without _ _⟩
      have total := bytesOf_without counted.keyed found
      show cache.used - previous.length = bytesOf (without cache.entries key)
      rw [counted.used]
      omega

/-- An eviction of a cache with entries takes the last one and its bytes. -/
theorem Counted.evict {cache : BytesCache} (counted : cache.Counted)
    (nonempty : cache.entries ≠ []) :
    cache.evict.Counted ∧ cache.evict.entries = cache.entries.dropLast ∧
      cache.evict.budget = cache.budget := by
  unfold BytesCache.evict
  rw [List.getLast?_eq_some_getLast nonempty]
  have split := List.dropLast_concat_getLast nonempty
  refine ⟨⟨counted.keyed.sublist ((List.dropLast_sublist _).map Prod.fst), ?_⟩, rfl, rfl⟩
  show cache.used - (cache.entries.getLast nonempty).2.length = bytesOf cache.entries.dropLast
  have total : bytesOf cache.entries =
      bytesOf cache.entries.dropLast + (cache.entries.getLast nonempty).2.length := by
    conv_lhs => rw [← split]
    simp [bytesOf]
  rw [counted.used]
  omega

/-- The rule of the loops: where nothing exceeds on an empty cache, a loop ends with a cache
that is counted, does not exceed, and has the first of the entries. -/
theorem Counted.evictWhile {exceeds : BytesCache → Bool} {rounds : Nat} {cache : BytesCache}
    (counted : cache.Counted) (enough : cache.entries.length < rounds)
    (fits : ∀ other : BytesCache, other.Counted → other.budget = cache.budget →
      other.entries = [] → exceeds other = false) :
    ∃ final, BytesCache.evictWhile exceeds rounds cache = some final ∧ final.Counted ∧
      exceeds final = false ∧ final.budget = cache.budget ∧ final.entries <+: cache.entries := by
  induction rounds generalizing cache with
  | zero => omega
  | succ rounds inductionHypothesis =>
      rw [BytesCache.evictWhile]
      cases exceeded : exceeds cache with
      | false => exact ⟨cache, rfl, counted, exceeded, rfl, List.prefix_refl _⟩
      | true =>
          have nonempty : cache.entries ≠ [] := fun empty => by
            rw [fits cache counted rfl empty] at exceeded
            cases exceeded
          obtain ⟨evicted, entries, budget⟩ := counted.evict nonempty
          have fewer : cache.evict.entries.length < rounds := by
            have positive := List.length_pos_of_ne_nil nonempty
            rw [entries, List.length_dropLast]
            omega
          obtain ⟨final, ended, counted, ends, same, starts⟩ :=
            inductionHypothesis evicted fewer fun other counted equal =>
              fits other counted (equal.trans budget)
          rw [entries] at starts
          exact ⟨final, ended, counted, ends, same.trans budget,
            starts.trans (List.dropLast_prefix _)⟩

/-- A read in the background changes nothing, and one in the foreground only the order. -/
theorem Bounded.get {cache : BytesCache} (bounded : cache.Bounded) (key : String)
    (foreground : Bool) : (cache.get key foreground).1.Bounded := by
  unfold BytesCache.get
  cases found : cache.peek key with
  | none => exact bounded
  | some bytes =>
      cases foreground with
      | false => exact bounded
      | true =>
          have total := bytesOf_without bounded.keyed found
          refine ⟨⟨List.nodup_cons.mpr ⟨notMem_without _ _, without_nodup key bounded.keyed⟩, ?_⟩,
            bounded.budgeted, ?_⟩
          · exact bounded.used.trans total
          · have shorter := length_without found
            have few := bounded.few
            show (without cache.entries key).length + 1 ≤ maxEntries
            omega

/-- An insertion ends, within the limits. -/
theorem Bounded.insert {cache : BytesCache} (bounded : cache.Bounded) (key : String)
    (bytes : List UInt8) (foreground : Bool) :
    ∃ next, cache.insert key bytes foreground = some next ∧ next.Bounded := by
  unfold BytesCache.insert
  by_cases retained : (!foreground || bytes.length > cache.budget) = true
  · rw [if_pos retained]
    exact ⟨cache, rfl, bounded⟩
  rw [if_neg retained]
  have fits : bytes.length ≤ cache.budget := by
    simp only [Bool.or_eq_true, decide_eq_true_eq, not_or] at retained
    omega
  obtain ⟨counted, absent⟩ := bounded.toCounted.pop key
  have budget : (cache.pop key).budget = cache.budget := by
    unfold BytesCache.pop
    split <;> rfl
  obtain ⟨room, ended, counted, roomy, same, starts⟩ :=
    @Counted.evictWhile (full bytes.length) _ _ counted (Nat.lt_succ_self _)
      fun other counted equal empty => by
        have nothing : other.used = 0 := by
          rw [counted.used, empty]
          rfl
        unfold full
        rw [nothing, empty, equal, budget]
        simpa [maxEntries] using fits
  simp only [ended, Option.map_some]
  unfold full at roomy
  rw [Bool.or_eq_false_iff, decide_eq_false_iff_not, decide_eq_false_iff_not] at roomy
  refine ⟨_, rfl, ⟨⟨List.nodup_cons.mpr ⟨fun member => ?_, counted.keyed⟩, ?_⟩, ?_, ?_⟩⟩
  · exact absent ((starts.sublist.map Prod.fst).mem member)
  · show room.used + bytes.length = bytes.length + bytesOf room.entries
    rw [counted.used, Nat.add_comm]
  · show room.used + bytes.length ≤ room.budget
    omega
  · show room.entries.length + 1 ≤ maxEntries
    omega

/-- A change of the budget ends, within the new one. -/
theorem Bounded.resize {cache : BytesCache} (bounded : cache.Bounded) (budget : Nat) :
    ∃ next, cache.resize budget = some next ∧ next.Bounded ∧ next.budget = budget ∧
      next.entries <+: cache.entries := by
  have counted : ({ cache with budget } : BytesCache).Counted := ⟨bounded.keyed, bounded.used⟩
  obtain ⟨room, ended, counted, roomy, same, starts⟩ :=
    @Counted.evictWhile (fun cache => cache.used > cache.budget) _ _ counted (Nat.lt_succ_self _)
      fun other counted equal empty => by
        have nothing : other.used = 0 := by
          rw [counted.used, empty]
          rfl
        rw [nothing]
        exact decide_eq_false (Nat.not_lt_zero _)
  rw [decide_eq_false_iff_not] at roomy
  refine ⟨room, ended, ⟨counted, Nat.le_of_not_lt roomy, ?_⟩, same, starts⟩
  exact starts.length_le.trans bounded.few

/-! ### Every sequence of operations -/

theorem Bounded.step {cache : BytesCache} (bounded : cache.Bounded) (operation : Operation) :
    ∃ next, cache.step operation = some next ∧ next.Bounded := by
  cases operation with
  | get key foreground => exact ⟨_, rfl, bounded.get key foreground⟩
  | insert key bytes foreground => exact bounded.insert key bytes foreground
  | resize budget =>
      obtain ⟨next, resized, bounded, _⟩ := bounded.resize budget
      exact ⟨next, resized, bounded⟩

/-- Every sequence of operations ends, with a cache that is within its limits. -/
theorem Bounded.execute {cache : BytesCache} (bounded : cache.Bounded)
    (operations : List Operation) :
    ∃ final, execute BytesCache.step cache operations = some final ∧ final.Bounded := by
  induction operations generalizing cache with
  | nil => exact ⟨cache, rfl, bounded⟩
  | cons operation rest inductionHypothesis =>
      obtain ⟨next, stepped, bounded⟩ := bounded.step operation
      obtain ⟨final, executed, bounded⟩ := inductionHypothesis bounded
      exact ⟨final, execute_cons.mpr ⟨next, stepped, executed⟩, bounded⟩

/-- What the background does leaves the cache as it is. -/
theorem background (cache : BytesCache) (key : String) (bytes : List UInt8) :
    cache.insert key bytes false = some cache ∧ (cache.get key false).1 = cache := by
  refine ⟨rfl, ?_⟩
  unfold BytesCache.get
  cases cache.peek key with
  | none => rfl
  | some found => rfl

end BytesCache

end Cairn.Storage.Lazy

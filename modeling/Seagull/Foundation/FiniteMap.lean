import Mathlib.Data.Finset.Card

/-!
# Finite maps

A finite map is an association list whose keys do not repeat.  The order of the entries carries no
meaning: whoever ranges over a map visits its keys in an order of its own, which `Range` makes a
parameter.
-/

namespace Seagull

/-- A finite map from keys to values. -/
structure FiniteMap (κ ν : Type) where
  entries : List (κ × ν)
  keys_nodup : (entries.map Prod.fst).Nodup

namespace FiniteMap

variable {κ ν : Type}

def empty : FiniteMap κ ν := ⟨[], List.nodup_nil⟩

def keys (map : FiniteMap κ ν) : List κ := map.entries.map Prod.fst

/-- How many keys are bound. -/
def size (map : FiniteMap κ ν) : ℕ := map.entries.length

@[simp]
theorem size_empty : (empty : FiniteMap κ ν).size = 0 := rfl

def mapValues {μ : Type} (map : FiniteMap κ ν) (replaced : ν → μ) : FiniteMap κ μ where
  entries := map.entries.map fun entry => (entry.1, replaced entry.2)
  keys_nodup := by
    rw [List.map_map]
    exact map.keys_nodup

/-- What a fallible function makes of the values of bindings. -/
def readEntries {μ ε : Type} (read : ν → Except ε μ) : List (κ × ν) → Except ε (List (κ × μ))
  | [] => .ok []
  | (key, value) :: entries => do
      let made ← read value
      let rest ← readEntries read entries
      return (key, made) :: rest

theorem readEntries_keys {μ ε : Type} {read : ν → Except ε μ} {entries : List (κ × ν)}
    {made : List (κ × μ)} (reads : readEntries read entries = .ok made) :
    made.map Prod.fst = entries.map Prod.fst := by
  induction entries generalizing made with
  | nil =>
    cases reads
    rfl
  | cons entry entries ih =>
    obtain ⟨key, value⟩ := entry
    unfold readEntries at reads
    cases first : read value with
    | error refused => rw [first] at reads; cases reads
    | ok value =>
      cases later : readEntries read entries with
      | error refused => rw [first, later] at reads; cases reads
      | ok rest =>
        rw [first, later] at reads
        cases reads
        rw [List.map_cons, List.map_cons, ih later]

theorem readEntries_map {μ ε : Type} {write : ν → μ} {read : μ → Except ε ν}
    {entries : List (κ × ν)} (reads_back : ∀ entry ∈ entries, read (write entry.2) = .ok entry.2) :
    readEntries read (entries.map fun entry => (entry.1, write entry.2)) = .ok entries := by
  induction entries with
  | nil => rfl
  | cons entry entries ih =>
    obtain ⟨first, later⟩ := List.forall_mem_cons.mp reads_back
    simp only [List.map_cons, readEntries, first, ih later]
    rfl

/-- Replace every value by what a fallible function makes of it. -/
def traverse {μ ε : Type} (map : FiniteMap κ ν) (read : ν → Except ε μ) :
    Except ε (FiniteMap κ μ) :=
  match reads : readEntries read map.entries with
  | .error refused => .error refused
  | .ok entries => .ok ⟨entries, by rw [readEntries_keys reads]; exact map.keys_nodup⟩

theorem traverse_mapValues {μ ε : Type} {map : FiniteMap κ ν} {write : ν → μ}
    {read : μ → Except ε ν}
    (reads_back : ∀ entry ∈ map.entries, read (write entry.2) = .ok entry.2) :
    (map.mapValues write).traverse read = .ok map := by
  have entries_back : readEntries read (map.mapValues write).entries = .ok map.entries :=
    readEntries_map reads_back
  unfold traverse
  split
  · rename_i refused
    rw [entries_back] at refused
    cases refused
  · rename_i made
    rw [entries_back] at made
    cases made
    rfl

variable [DecidableEq κ]

def lookup (map : FiniteMap κ ν) (key : κ) : Option ν := map.entries.lookup key

def erase (map : FiniteMap κ ν) (key : κ) : FiniteMap κ ν where
  entries := map.entries.filter fun entry => entry.1 ≠ key
  keys_nodup := by
    rw [show (fun entry : κ × ν => decide (entry.1 ≠ key)) =
      (fun bound => decide (bound ≠ key)) ∘ Prod.fst from rfl, ← List.filter_map]
    exact map.keys_nodup.filter _

def insert (map : FiniteMap κ ν) (key : κ) (value : ν) : FiniteMap κ ν where
  entries := (key, value) :: (map.erase key).entries
  keys_nodup := by
    rw [List.map_cons, List.nodup_cons]
    refine ⟨?_, (map.erase key).keys_nodup⟩
    simp [erase]

def domain (map : FiniteMap κ ν) : Finset κ := map.keys.toFinset

variable (map : FiniteMap κ ν) (key : κ)

theorem mem_entries_iff (value : ν) :
    (key, value) ∈ map.entries ↔ map.lookup key = some value := by
  obtain ⟨entries, keys_nodup⟩ := map
  change (key, value) ∈ entries ↔ entries.lookup key = some value
  induction entries with
  | nil => simp
  | cons entry entries ih =>
    obtain ⟨first, bound⟩ := entry
    rw [List.map_cons, List.nodup_cons] at keys_nodup
    rw [List.mem_cons, List.lookup_cons]
    by_cases same : key = first
    · subst same
      have unbound : (key, value) ∉ entries := fun member =>
        keys_nodup.1 (List.mem_map.mpr ⟨(key, value), member, rfl⟩)
      simp [unbound, eq_comm]
    · have differ : (key == first) = false := by simpa using same
      rw [differ]
      simp [same, ih keys_nodup.2]

theorem mem_domain :
    key ∈ map.domain ↔ ∃ value, map.lookup key = some value := by
  simp [domain, keys, mem_entries_iff]

theorem mem_keys :
    key ∈ map.keys ↔ ∃ value, map.lookup key = some value := by
  rw [← mem_domain, domain, List.mem_toFinset]

theorem notMem_domain :
    key ∉ map.domain ↔ map.lookup key = none := by
  rw [mem_domain]
  cases map.lookup key <;> simp

theorem card_domain : map.domain.card = map.size := by
  rw [domain, keys, List.toFinset_card_of_nodup map.keys_nodup, List.length_map, size]

@[simp]
theorem lookup_empty : (empty : FiniteMap κ ν).lookup key = none := rfl

@[simp]
theorem domain_empty : (empty : FiniteMap κ ν).domain = ∅ := rfl

theorem lookup_erase (other : κ) :
    (map.erase key).lookup other = if other = key then none else map.lookup other := by
  apply Option.ext
  intro value
  rw [← mem_entries_iff]
  by_cases same : other = key
  · simp [erase, same]
  · simp [erase, same, mem_entries_iff]

theorem lookup_insert (other : κ) (value : ν) :
    (map.insert key value).lookup other = if other = key then some value else map.lookup other := by
  apply Option.ext
  intro bound
  rw [← mem_entries_iff]
  by_cases same : other = key
  · simp [insert, erase, same, eq_comm (a := bound)]
  · simp [insert, erase, same, mem_entries_iff]

@[simp]
theorem lookup_mapValues {μ : Type} (replaced : ν → μ) (key : κ) :
    (map.mapValues replaced).lookup key = (map.lookup key).map replaced := by
  obtain ⟨entries, keys_nodup⟩ := map
  change (entries.map _).lookup key = (entries.lookup key).map replaced
  clear keys_nodup
  induction entries with
  | nil => rfl
  | cons entry entries ih =>
    rw [List.map_cons, List.lookup_cons, List.lookup_cons]
    split
    · rfl
    · exact ih

theorem lookup_foldl_insert {added : List (κ × ν)} (distinct : (added.map Prod.fst).Nodup)
    (map : FiniteMap κ ν) (key : κ) (value : ν) :
    (added.foldl (fun held entry => held.insert entry.1 entry.2) map).lookup key = some value ↔
      (key, value) ∈ added ∨ (key ∉ added.map Prod.fst ∧ map.lookup key = some value) := by
  induction added generalizing map with
  | nil => simp
  | cons entry added ih =>
    obtain ⟨fresh, distinct⟩ := List.nodup_cons.mp distinct
    rw [List.foldl_cons, ih distinct, lookup_insert]
    by_cases same : key = entry.1
    · subst same
      have unbound : (entry.1, value) ∉ added := fun member =>
        fresh (List.mem_map.mpr ⟨_, member, rfl⟩)
      simp [unbound, fresh, Prod.ext_iff, eq_comm]
    · simp [same, Prod.ext_iff]

@[simp]
theorem lookup_erase_self : (map.erase key).lookup key = none := by
  simp [lookup_erase]

@[simp]
theorem lookup_insert_self (value : ν) :
    (map.insert key value).lookup key = some value := by
  simp [lookup_insert]

theorem domain_insert (value : ν) :
    (map.insert key value).domain = Insert.insert key map.domain := by
  ext other
  simp only [mem_domain, Finset.mem_insert, lookup_insert]
  by_cases same : other = key <;> simp [same]

/-- The number a map counts to under a key, zero where it counts nothing. -/
def counted (map : FiniteMap κ ℤ) (key : κ) : ℤ := (map.lookup key).getD 0

def increment (map : FiniteMap κ ℤ) (key : κ) : FiniteMap κ ℤ :=
  map.insert key (map.counted key + 1)

def decrement (map : FiniteMap κ ℤ) (key : κ) : FiniteMap κ ℤ :=
  if map.counted key - 1 ≤ 0 then map.erase key else map.insert key (map.counted key - 1)

/-- A map counts what a function says, and holds no key it says zero of. -/
def Counts (map : FiniteMap κ ℤ) (number : κ → ℕ) : Prop :=
  ∀ key, map.lookup key = if number key = 0 then none else some (number key : ℤ)

namespace Counts

variable {map : FiniteMap κ ℤ} {number : κ → ℕ}

theorem counted_eq (counts : map.Counts number) (key : κ) : map.counted key = number key := by
  rw [counted, counts key]
  split
  · rename_i none_left
    simp [none_left]
  · rfl

theorem increment {more : κ → ℕ} {key : κ} (counts : map.Counts number)
    (more_eq : ∀ other, more other = if other = key then number other + 1 else number other) :
    (map.increment key).Counts more := by
  intro other
  rw [FiniteMap.increment, lookup_insert, counts.counted_eq, more_eq]
  split
  · rename_i same
    simp [same]
  · exact counts other

theorem decrement {fewer : κ → ℕ} {key : κ} (counts : map.Counts number)
    (number_eq : ∀ other, number other = if other = key then fewer other + 1 else fewer other) :
    (map.decrement key).Counts fewer := by
  have key_eq : map.counted key - 1 = fewer key := by
    rw [counts.counted_eq, number_eq key, if_pos rfl]
    simp
  have elsewhere : ∀ other, other ≠ key →
      map.lookup other = if fewer other = 0 then none else some (fewer other : ℤ) := by
    intro other differs
    rw [counts other, number_eq other, if_neg differs]
  intro other
  rw [FiniteMap.decrement, key_eq]
  by_cases same : other = key
  · subst same
    by_cases none_left : fewer other = 0
    · rw [if_pos (by omega), if_pos none_left, lookup_erase_self]
    · rw [if_neg (by omega), if_neg none_left, lookup_insert_self]
  · split
    · rw [lookup_erase, if_neg same, elsewhere other same]
    · rw [lookup_insert, if_neg same, elsewhere other same]

end Counts
end FiniteMap

/-- An order in which the keys of a map are visited: all of them, each once. -/
structure Range (κ ν : Type) where
  /-- The visited keys, in the order of the visit. -/
  visit : FiniteMap κ ν → List κ
  /-- Nothing is skipped and nothing is visited twice. -/
  visit_perm : ∀ map, (visit map).Perm map.keys

namespace Range

variable {κ ν : Type}

/-- The visit that follows the entries. -/
def inOrder : Range κ ν := ⟨FiniteMap.keys, fun _ => List.Perm.refl _⟩

theorem mem_visit [DecidableEq κ] (range : Range κ ν) (map : FiniteMap κ ν) (key : κ) :
    key ∈ range.visit map ↔ ∃ value, map.lookup key = some value := by
  rw [(range.visit_perm map).mem_iff, FiniteMap.mem_keys]

end Range
end Seagull

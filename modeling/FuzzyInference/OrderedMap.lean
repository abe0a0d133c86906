/-!
# Maps in order of insertion

A finite map that remembers the order in which its keys were first inserted. A new value for a key
takes the old value's place; erasing a key keeps the others in order. No key occurs twice, which the
type carries.

The maps of the library are those of `indexmap`. Assumed of it is this order, that a map collected from
entries or extended by them inserts one after the other, and that equality disregards the order; how keys are
hashed shows in none of these.

## Contents
- `insert`, `erase`, `get?`, `ofList`, `insertAll`, `mapValues`.
- `agrees`: equality of maps regardless of order.
- `keys_insert`, `get?_insert`, `get?_erase`: what the operations do to the view by keys.
- `get?_eq_some_iff`, `entries_ofList`, `mem_of_mem_ofList`: the view by keys and the entries.
-/

namespace FuzzyInference

/-- The entries of a map, in order of insertion. -/
structure OrderedMap (κ ν : Type) where
  entries : List (κ × ν)
  distinct : (entries.map Prod.fst).Nodup

namespace OrderedMap

variable {κ ν μ : Type}

/-- The map without entries. -/
def empty : OrderedMap κ ν := ⟨[], by simp⟩

instance : EmptyCollection (OrderedMap κ ν) := ⟨empty⟩

instance : Inhabited (OrderedMap κ ν) := ⟨empty⟩

/-- The keys in order. -/
def keys (m : OrderedMap κ ν) : List κ := m.entries.map Prod.fst

/-- The values in the order of their keys. -/
def values (m : OrderedMap κ ν) : List ν := m.entries.map Prod.snd

/-- The number of entries. -/
def size (m : OrderedMap κ ν) : Nat := m.entries.length

/-- Whether there are no entries. -/
def isEmpty (m : OrderedMap κ ν) : Bool := m.entries.isEmpty

/-! ## Entries as lists -/

section Entries

variable [DecidableEq κ]

/-- The value beside a key. -/
def lookup (k : κ) : List (κ × ν) → Option ν
  | [] => none
  | (k', v) :: rest => if k' = k then some v else lookup k rest

/-- Replaces the value beside a key, or appends the entry. -/
def put (k : κ) (v : ν) : List (κ × ν) → List (κ × ν)
  | [] => [(k, v)]
  | (k', v') :: rest => if k' = k then (k, v) :: rest else (k', v') :: put k v rest

/-- Takes out the entry of a key. -/
def drop (k : κ) (entries : List (κ × ν)) : List (κ × ν) := entries.filter (·.1 ≠ k)

/-- Putting keeps the place of a key that is there and appends one that is not. -/
theorem map_fst_put (k : κ) (v : ν) (entries : List (κ × ν)) :
    (put k v entries).map Prod.fst =
      if k ∈ entries.map Prod.fst then entries.map Prod.fst else entries.map Prod.fst ++ [k] := by
  induction entries with
  | nil => simp [put]
  | cons e rest ih =>
    obtain ⟨k', v'⟩ := e
    by_cases h : k' = k
    · simp [put, h]
    · have hne : ¬k = k' := fun e => h e.symm
      simp only [put, h, if_false, List.map_cons, List.mem_cons, hne, false_or, ih]
      split <;> simp

/-- Keys stay distinct when one is put or dropped. -/
theorem nodup_put (k : κ) (v : ν) {entries : List (κ × ν)}
    (h : (entries.map Prod.fst).Nodup) : ((put k v entries).map Prod.fst).Nodup := by
  rw [map_fst_put]
  split
  · exact h
  · rename_i hk
    refine List.nodup_append.2 ⟨h, by simp, ?_⟩
    intro a ha b hb
    simp only [List.mem_singleton] at hb
    exact fun e => hk (hb ▸ e ▸ ha)

theorem nodup_drop (k : κ) {entries : List (κ × ν)} (h : (entries.map Prod.fst).Nodup) :
    ((drop k entries).map Prod.fst).Nodup :=
  h.sublist (List.filter_sublist.map Prod.fst)

/-- The key that was put has its value, every other the one it had. -/
theorem lookup_put (k j : κ) (v : ν) (entries : List (κ × ν)) :
    lookup j (put k v entries) = if k = j then some v else lookup j entries := by
  induction entries with
  | nil => simp [put, lookup]
  | cons e rest ih =>
    obtain ⟨k', v'⟩ := e
    by_cases h : k' = k
    · subst h
      by_cases hj : k' = j <;> simp [put, lookup, hj]
    · by_cases hj : k' = j
      · subst hj
        simp [put, lookup, h, Ne.symm h]
      · simp [put, lookup, h, hj, ih]

/-- A dropped key has no value, every other the one it had. -/
theorem lookup_drop (k j : κ) (entries : List (κ × ν)) :
    lookup j (drop k entries) = if k = j then none else lookup j entries := by
  induction entries with
  | nil => simp [drop, lookup]
  | cons e rest ih =>
    obtain ⟨k', v'⟩ := e
    simp only [drop] at ih
    by_cases h : k' = k
    · subst h
      by_cases hj : k' = j
      · subst hj; simpa [drop] using ih
      · simpa [drop, lookup, hj] using ih
    · by_cases hj : k' = j
      · subst hj; simp [drop, lookup, h, Ne.symm h]
      · simpa [drop, lookup, h, hj] using ih

/-- With distinct keys, each entry is what its key finds. -/
theorem lookup_eq_some_iff {k : κ} {v : ν} {entries : List (κ × ν)}
    (h : (entries.map Prod.fst).Nodup) : lookup k entries = some v ↔ (k, v) ∈ entries := by
  induction entries with
  | nil => simp [lookup]
  | cons e rest ih =>
    obtain ⟨k', v'⟩ := e
    simp only [List.map_cons, List.nodup_cons] at h
    by_cases hk : k' = k
    · subst hk
      have hnot : (k', v) ∉ rest := fun hmem => h.1 (List.mem_map_of_mem hmem)
      simp only [lookup, if_true, List.mem_cons, Prod.mk.injEq, true_and, hnot, or_false,
        Option.some.injEq]
      exact eq_comm
    · simp [lookup, hk, Ne.symm hk, ih h.2]

theorem put_of_not_mem {k : κ} (v : ν) {entries : List (κ × ν)}
    (h : k ∉ entries.map Prod.fst) : put k v entries = entries ++ [(k, v)] := by
  induction entries with
  | nil => rfl
  | cons e rest ih =>
    obtain ⟨k', v'⟩ := e
    simp only [List.map_cons, List.mem_cons, not_or] at h
    simp [put, Ne.symm h.1, ih h.2]

end Entries

/-! ## Operations on maps -/

section Operations

variable [DecidableEq κ]

/-- The value of a key. -/
def get? (m : OrderedMap κ ν) (k : κ) : Option ν := lookup k m.entries

/-- Gives a key a value: at the key's old place, or at the end for a new key. -/
def insert (m : OrderedMap κ ν) (k : κ) (v : ν) : OrderedMap κ ν :=
  ⟨put k v m.entries, nodup_put k v m.distinct⟩

/-- Takes a key out and leaves the others in order. -/
def erase (m : OrderedMap κ ν) (k : κ) : OrderedMap κ ν :=
  ⟨drop k m.entries, nodup_drop k m.distinct⟩

/-- Inserts entries one after the other. -/
def insertAll (m : OrderedMap κ ν) (entries : List (κ × ν)) : OrderedMap κ ν :=
  entries.foldl (fun m e => m.insert e.1 e.2) m

/-- The map of a list of entries; of two entries with one key the later value stands at the earlier
    place. -/
def ofList (entries : List (κ × ν)) : OrderedMap κ ν := empty.insertAll entries

/-- Whether two maps have the same keys with values that `same` accepts, in whatever order. -/
def agrees (same : ν → ν → Bool) (m n : OrderedMap κ ν) : Bool :=
  m.size == n.size && m.entries.all fun (k, v) => (n.get? k).any (same v)

@[simp] theorem get?_empty (k : κ) : (empty : OrderedMap κ ν).get? k = none := rfl

/-- The order of keys is that of their first insertion. -/
theorem keys_insert (m : OrderedMap κ ν) (k : κ) (v : ν) :
    (m.insert k v).keys = if k ∈ m.keys then m.keys else m.keys ++ [k] :=
  map_fst_put k v m.entries

@[simp] theorem get?_insert (m : OrderedMap κ ν) (k j : κ) (v : ν) :
    (m.insert k v).get? j = if k = j then some v else m.get? j :=
  lookup_put k j v m.entries

@[simp] theorem get?_erase (m : OrderedMap κ ν) (k j : κ) :
    (m.erase k).get? j = if k = j then none else m.get? j :=
  lookup_drop k j m.entries

/-- The entries are what the keys find. -/
theorem get?_eq_some_iff {m : OrderedMap κ ν} {k : κ} {v : ν} :
    m.get? k = some v ↔ (k, v) ∈ m.entries :=
  lookup_eq_some_iff m.distinct

theorem mem_entries_insert {m : OrderedMap κ ν} {k j : κ} {v w : ν} :
    (j, w) ∈ (m.insert k v).entries ↔ k = j ∧ v = w ∨ k ≠ j ∧ (j, w) ∈ m.entries := by
  rw [← get?_eq_some_iff, get?_insert, ← get?_eq_some_iff]
  split <;> simp [*]

theorem mem_entries_erase {m : OrderedMap κ ν} {k j : κ} {w : ν} :
    (j, w) ∈ (m.erase k).entries ↔ k ≠ j ∧ (j, w) ∈ m.entries := by
  rw [← get?_eq_some_iff, get?_erase, ← get?_eq_some_iff]
  split <;> simp [*]

/-- Entries with new, distinct keys are appended as they are. -/
theorem entries_insertAll (m : OrderedMap κ ν) {entries : List (κ × ν)}
    (h : ((m.entries ++ entries).map Prod.fst).Nodup) :
    (m.insertAll entries).entries = m.entries ++ entries := by
  induction entries generalizing m with
  | nil => simp [insertAll]
  | cons e rest ih =>
    have hk : e.1 ∉ m.entries.map Prod.fst := by
      simp only [List.map_append, List.map_cons, List.nodup_append] at h
      intro hmem
      exact h.2.2 _ hmem _ (by simp) rfl
    have hput : (m.insert e.1 e.2).entries = m.entries ++ [e] := put_of_not_mem e.2 hk
    have hrest := ih (m.insert e.1 e.2) (by rw [hput]; simpa using h)
    simpa [insertAll, hput] using hrest

/-- Entries with distinct keys are a map as they stand. -/
theorem entries_ofList {entries : List (κ × ν)} (h : (entries.map Prod.fst).Nodup) :
    (ofList entries).entries = entries :=
  entries_insertAll empty h

/-- A map is built again from its own entries. -/
theorem ofList_entries (m : OrderedMap κ ν) : ofList m.entries = m := by
  obtain ⟨entries, distinct⟩ := m
  have h : (ofList entries).entries = entries := entries_ofList distinct
  show ofList entries = ⟨entries, distinct⟩
  generalize ofList entries = n at h ⊢
  obtain ⟨entries', distinct'⟩ := n
  obtain rfl : entries' = entries := h
  rfl

/-- Whatever a map of a list holds was in the list. -/
theorem mem_of_mem_insertAll {m : OrderedMap κ ν} {entries : List (κ × ν)} {e : κ × ν}
    (h : e ∈ (m.insertAll entries).entries) : e ∈ m.entries ∨ e ∈ entries := by
  induction entries generalizing m with
  | nil => exact Or.inl h
  | cons first rest ih =>
    rcases ih (m := m.insert first.1 first.2) h with h | h
    · rcases mem_entries_insert.mp h with ⟨hk, hv⟩ | ⟨-, h⟩
      · exact Or.inr (List.mem_cons.mpr (Or.inl (Prod.ext hk.symm hv.symm)))
      · exact Or.inl h
    · exact Or.inr (List.mem_cons_of_mem _ h)

/-- Building a map invents no entry. -/
theorem mem_of_mem_ofList {entries : List (κ × ν)} {e : κ × ν} (h : e ∈ (ofList entries).entries) :
    e ∈ entries :=
  (mem_of_mem_insertAll h).resolve_left (by intro h; cases h)

end Operations

/-- Changes every value and no key. -/
def mapValues (f : ν → μ) (m : OrderedMap κ ν) : OrderedMap κ μ :=
  ⟨m.entries.map fun (k, v) => (k, f v), by
    simpa [List.map_map, Function.comp_def] using m.distinct⟩

end OrderedMap

end FuzzyInference

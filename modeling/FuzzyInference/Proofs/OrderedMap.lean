import FuzzyInference.OrderedMap
import Mathlib.Data.List.Basic
import Mathlib.Data.List.Induction

/-!
# Maps in order, by keys and by values

A map is its keys in order and what is beside each, and so is what becomes of it: of a list of entries the
keys stay in the order in which they first came up, and the last entry of a key counts.

## Contents
- `mapValues_insert`, `get?_mapValues`, `mapValues_congr`: maps value by value.
- `ext_keys`, `insertAll_insertAll`: maps key by key.
- `keys_ofList`, `get?_ofList`: the map of a list of entries.
-/

namespace FuzzyInference.OrderedMap

variable {κ ν μ : Type}

/-! ## Value by value -/

theorem eq_of_entries_eq {m n : OrderedMap κ ν} (h : m.entries = n.entries) : m = n := by
  obtain ⟨entries, distinct⟩ := m
  obtain ⟨entries', distinct'⟩ := n
  obtain rfl : entries = entries' := h
  rfl

/-- Changing all values commutes with inserting one. -/
theorem mapValues_insert [DecidableEq κ] (f : ν → μ) (m : OrderedMap κ ν) (k : κ) (v : ν) :
    (m.insert k v).mapValues f = (m.mapValues f).insert k (f v) := by
  apply eq_of_entries_eq
  show (put k v m.entries).map (fun e => (e.1, f e.2)) = put k (f v) (m.entries.map _)
  induction m.entries with
  | nil => rfl
  | cons e rest ih =>
    obtain ⟨k', v'⟩ := e
    by_cases h : k' = k
    · simp [put, h]
    · simpa [put, h] using ih

theorem get?_mapValues [DecidableEq κ] (f : ν → μ) (m : OrderedMap κ ν) (k : κ) :
    (m.mapValues f).get? k = (m.get? k).map f := by
  show lookup k (m.entries.map fun e => (e.1, f e.2)) = (lookup k m.entries).map f
  induction m.entries with
  | nil => rfl
  | cons e rest ih =>
    obtain ⟨k', v⟩ := e
    by_cases h : k' = k
    · simp [lookup, h]
    · simpa [lookup, h] using ih

theorem keys_mapValues (f : ν → μ) (m : OrderedMap κ ν) : (m.mapValues f).keys = m.keys := by
  simp [keys, mapValues, List.map_map, Function.comp_def]

theorem mapValues_congr {f g : ν → μ} {m : OrderedMap κ ν} (h : ∀ v ∈ m.values, f v = g v) :
    m.mapValues f = m.mapValues g := by
  apply eq_of_entries_eq
  refine List.map_congr_left fun e he => ?_
  exact congrArg (Prod.mk e.1) (h e.2 (List.mem_map_of_mem he))

theorem mem_values_insert [DecidableEq κ] {m : OrderedMap κ ν} {k : κ} {v w : ν}
    (h : w ∈ (m.insert k v).values) : w = v ∨ w ∈ m.values := by
  obtain ⟨⟨j, u⟩, he, rfl⟩ := List.mem_map.mp h
  rcases mem_entries_insert.mp he with ⟨-, rfl⟩ | ⟨-, hold⟩
  · exact Or.inl rfl
  · exact Or.inr (List.mem_map.mpr ⟨(j, u), hold, rfl⟩)

/-! ## Key by key -/

section Keys

variable [DecidableEq κ]

theorem entries_eq_map_keys (m : OrderedMap κ ν) :
    (m.entries.map fun e => (e.1, some e.2)) = m.keys.map fun k => (k, m.get? k) := by
  rw [keys, List.map_map]
  refine List.map_congr_left fun e he => ?_
  rw [Function.comp_apply, get?_eq_some_iff.mpr he]

/-- A map is its keys in order and what is beside each. -/
theorem ext_keys {m n : OrderedMap κ ν} (hkeys : m.keys = n.keys)
    (hget : ∀ k, m.get? k = n.get? k) : m = n := by
  have hinjective : Function.Injective fun e : κ × ν => (e.1, some e.2) := by
    rintro ⟨k, v⟩ ⟨j, w⟩ h
    simpa using h
  refine eq_of_entries_eq (List.map_injective_iff.mpr hinjective ?_)
  rw [entries_eq_map_keys, entries_eq_map_keys, hkeys]
  exact List.map_congr_left fun k _ => by rw [hget]

theorem insertAll_append (m : OrderedMap κ ν) (es fs : List (κ × ν)) :
    m.insertAll (es ++ fs) = (m.insertAll es).insertAll fs :=
  List.foldl_append

/-! ## Entries with keys of their own -/

/-- New keys follow the old ones, in their order. -/
theorem keys_insertAll_of_nodup {es : List (κ × ν)} (h : (es.map Prod.fst).Nodup)
    (m : OrderedMap κ ν) :
    (m.insertAll es).keys = m.keys ++ (es.map Prod.fst).filter (· ∉ m.keys) := by
  induction es generalizing m with
  | nil => simp [insertAll]
  | cons e es ih =>
    rw [List.map_cons, List.nodup_cons] at h
    change ((m.insert e.1 e.2).insertAll es).keys = _
    rw [ih h.2, keys_insert, List.map_cons]
    by_cases hk : e.1 ∈ m.keys
    · simp [hk]
    · have hrest : (es.map Prod.fst).filter (· ∉ m.keys ++ [e.1]) =
          (es.map Prod.fst).filter (· ∉ m.keys) := by
        refine List.filter_congr fun k hmem => ?_
        have hne : k ≠ e.1 := fun heq => h.1 (heq ▸ hmem)
        simp [hne]
      simp only [hk, if_false, hrest]
      simp [hk]

/-- Inserted values win over old ones. -/
theorem get?_insertAll_of_nodup {es : List (κ × ν)} (h : (es.map Prod.fst).Nodup)
    (m : OrderedMap κ ν) (k : κ) :
    (m.insertAll es).get? k = (lookup k es).or (m.get? k) := by
  induction es generalizing m with
  | nil => rfl
  | cons e es ih =>
    rw [List.map_cons, List.nodup_cons] at h
    change ((m.insert e.1 e.2).insertAll es).get? k = _
    rw [ih h.2, get?_insert, lookup]
    by_cases hk : e.1 = k
    · have hrest : lookup k es = none := by
        refine Option.eq_none_iff_forall_ne_some.mpr fun v hv => h.1 ?_
        exact hk ▸ List.mem_map_of_mem ((lookup_eq_some_iff h.2).mp hv)
      simp [hk, hrest]
    · simp [hk]

/-- Inserting into the inserted map is inserting at the end. -/
theorem insertAll_insert (m n : OrderedMap κ ν) (k : κ) (v : ν) :
    m.insertAll (n.insert k v).entries = (m.insertAll n.entries).insert k v := by
  have hkeys : ∀ n : OrderedMap κ ν,
      (m.insertAll n.entries).keys = m.keys ++ n.keys.filter (· ∉ m.keys) :=
    fun n => keys_insertAll_of_nodup n.distinct m
  have hget : ∀ (n : OrderedMap κ ν) (j : κ),
      (m.insertAll n.entries).get? j = (n.get? j).or (m.get? j) :=
    fun n => get?_insertAll_of_nodup n.distinct m
  refine ext_keys ?_ fun j => ?_
  · rw [hkeys, keys_insert, keys_insert, hkeys]
    by_cases hn : k ∈ n.keys <;> by_cases hm : k ∈ m.keys <;> simp [hn, hm]
  · rw [hget, get?_insert, get?_insert, hget]
    split <;> rfl

/-- Inserting entries one after the other is the same as inserting them into a second map first. -/
theorem insertAll_insertAll (m n : OrderedMap κ ν) (es : List (κ × ν)) :
    m.insertAll (n.insertAll es).entries = (m.insertAll n.entries).insertAll es := by
  induction es generalizing n with
  | nil => rfl
  | cons e es ih =>
    change m.insertAll ((n.insert e.1 e.2).insertAll es).entries = _
    rw [ih, insertAll_insert]
    rfl

/-- The keys of a list of entries come in the order in which they first came up. -/
theorem keys_ofList (es : List (κ × ν)) : (ofList es).keys = (es.map Prod.fst).eraseDups := by
  induction es using List.reverseRecOn with
  | nil => rfl
  | append_singleton es e ih =>
    have hlast : ofList (es ++ [e]) = (ofList es).insert e.1 e.2 := insertAll_append empty es [e]
    rw [hlast, keys_insert, ih, List.map_append, List.eraseDups_append]
    by_cases hk : e.1 ∈ es.map Prod.fst <;> simp [List.removeAll, hk, List.eraseDups_cons]

/-- The last entry of a key counts. -/
theorem get?_ofList (es : List (κ × ν)) (k : κ) :
    (ofList es).get? k = ((es.filter (·.1 = k)).getLast?).map Prod.snd := by
  induction es using List.reverseRecOn with
  | nil => rfl
  | append_singleton es e ih =>
    have hlast : ofList (es ++ [e]) = (ofList es).insert e.1 e.2 := insertAll_append empty es [e]
    rw [hlast, get?_insert, ih, List.filter_append]
    by_cases hk : e.1 = k <;> simp [hk]

end Keys

end FuzzyInference.OrderedMap

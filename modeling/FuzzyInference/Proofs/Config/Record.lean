import FuzzyInference.Config.Decode
import FuzzyInference.Config.Encode
import FuzzyInference.Proofs.Json.Document
import FuzzyInference.Proofs.Json.Number

/-!
# Records as documents

A record is written as an object with its family and its fields by name. Since no two fields share a
name, and none is named as the family is, the reader finds every value where the writer put it.

## Contents
- `Kept`: trees that are written, read back and sound.
- `depth_record`, `depth_le_of_record`: how deep a record nests.
- `values?_record`: the values of a written record.
-/

namespace FuzzyInference

namespace Json

/-- Trees that come back from their text, with a double for every number. -/
structure Kept (j : Json) : Prop where
  writable : Writable j
  sound : j.isSound = true

theorem ofDouble_eq {x : Float} (h : Scalar.isFinite x = true) :
    ofDouble x = .number (NumberStyle.document.render x).toList := by
  have hfinite : (x.isNaN || x.isInf) = false := by
    change (!x.isNaN && !x.isInf) = true at h
    simpa using h
  rw [ofDouble, if_neg (by rw [hfinite]; exact Bool.false_ne_true)]

/-- A finite number is read back from the digits it is written with. -/
theorem toDouble?_ofDouble {x : Float} (h : Scalar.isFinite x = true) : (ofDouble x).toDouble? = some x := by
  rw [ofDouble_eq h]
  exact doubleOf?_render h

theorem kept_ofDouble {x : Float} (h : Scalar.isFinite x = true) : Kept (ofDouble x) := by
  rw [ofDouble_eq h]
  constructor
  · obtain ⟨n, htext, -⟩ := exists_numeral_render h
    apply Writable.number
    refine ⟨n, ?_⟩
    rw [htext]
    cases (Double.unpack x).negative
    · exact Or.inl rfl
    · exact Or.inr rfl
  · rw [isSound, doubleOf?_render h]
    rfl

theorem kept_ofText (s : String) : Kept (ofText s) := ⟨.text s, rfl⟩

theorem kept_bool (b : Bool) : Kept (.bool b) := ⟨.bool b, rfl⟩

theorem areSoundItems_iff {items : List Json} :
    areSoundItems items = true ↔ ∀ item ∈ items, item.isSound = true := by
  induction items with
  | nil => simp [areSoundItems]
  | cons item items ih => simp [areSoundItems, ih]

/-- Members are sound when their values are, as every name can be written. -/
theorem areSoundMembers_ofMembers {members : List (String × Json)} :
    areSoundMembers (members.map fun (name, value) => (some name, value)) = true ↔
      ∀ member ∈ members, member.2.isSound = true := by
  induction members with
  | nil => simp [areSoundMembers]
  | cons member members ih => simp [areSoundMembers, ih]

/-- A list of documents that survive being written and read is one that does. -/
theorem kept_array {items : List Json} (h : ∀ item ∈ items, Kept item) : Kept (.array items) :=
  ⟨.array fun item hitem => (h item hitem).writable,
    areSoundItems_iff.mpr fun item hitem => (h item hitem).sound⟩

theorem kept_ofMembers {members : List (String × Json)} (h : ∀ member ∈ members, Kept member.2) :
    Kept (ofMembers members) := by
  constructor
  · apply Writable.object
    · intro member hmember
      obtain ⟨m, -, rfl⟩ := List.mem_map.mp hmember
      rfl
    · intro member hmember
      obtain ⟨m, hm, rfl⟩ := List.mem_map.mp hmember
      exact (h m hm).writable
  · exact areSoundMembers_ofMembers.mpr fun member hmember => (h member hmember).sound

/-! ## Depth -/

theorem depth_ofDouble (x : Float) : (ofDouble x).depth = 0 := by
  unfold ofDouble
  split <;> rfl

theorem depth_le_depthOfItems {item : Json} {items : List Json} (h : item ∈ items) :
    item.depth ≤ depthOfItems items := by
  induction items with
  | nil => cases h
  | cons first items ih =>
    rw [depthOfItems]
    rcases List.mem_cons.mp h with rfl | h
    · exact Nat.le_max_left _ _
    · exact Nat.le_trans (ih h) (Nat.le_max_right _ _)

theorem depthOfItems_le {items : List Json} {n : Nat} (h : ∀ item ∈ items, item.depth ≤ n) :
    depthOfItems items ≤ n := by
  induction items with
  | nil => exact Nat.zero_le n
  | cons first items ih =>
    rw [depthOfItems]
    exact Nat.max_le.mpr ⟨h first List.mem_cons_self, ih fun item hitem => h item (List.mem_cons_of_mem _ hitem)⟩

theorem depthOfMembers_eq (members : List (Option String × Json)) :
    depthOfMembers members = depthOfItems (members.map Prod.snd) := by
  induction members with
  | nil => rfl
  | cons member members ih => rw [depthOfMembers, List.map_cons, depthOfItems, ih]

theorem depth_ofMembers (members : List (String × Json)) :
    (ofMembers members).depth = depthOfItems (members.map Prod.snd) + 1 := by
  rw [ofMembers, depth, depthOfMembers_eq, List.map_map]
  rfl

/-! ## Lists of documents -/

theorem exists_of_mapM {α β : Type} {f : α → Option β} {items : List α} {results : List β}
    (h : items.mapM f = some results) : ∀ b ∈ results, ∃ a ∈ items, f a = some b := by
  induction items generalizing results with
  | nil =>
    obtain rfl : [] = results := Option.some.inj h
    intro b hb
    cases hb
  | cons a items ih =>
    rw [List.mapM_cons] at h
    obtain ⟨b, hb, hrest⟩ := Option.bind_eq_some_iff.mp h
    obtain ⟨bs, hbs, heq⟩ := Option.bind_eq_some_iff.mp hrest
    obtain rfl := Option.some.inj heq
    intro c hc
    rcases List.mem_cons.mp hc with rfl | hc
    · exact ⟨a, List.mem_cons_self, hb⟩
    · obtain ⟨d, hd, heq⟩ := ih hbs c hc
      exact ⟨d, List.mem_cons_of_mem _ hd, heq⟩

/-- Items that are each written no deeper than they were read. -/
theorem depthOfItems_map_le {β : Type} {f : Json → Option β} {items : List Json} {results : List β}
    (h : items.mapM f = some results) {g : β → Json}
    (hdepth : ∀ item ∈ items, ∀ b, f item = some b → (g b).depth ≤ item.depth) :
    depthOfItems (results.map g) ≤ depthOfItems items := by
  apply depthOfItems_le
  intro written hwritten
  obtain ⟨b, hb, rfl⟩ := List.mem_map.mp hwritten
  obtain ⟨item, hitem, hread⟩ := exists_of_mapM h b hb
  exact (hdepth item hitem b hread).trans (depth_le_depthOfItems hitem)

end Json

open Json

/-! ## Fields by name -/

namespace Fields

/-- No name stands before two members if the names are distinct. -/
theorem repeatsAny_eq_false {members : List (String × Json)} (h : (members.map Prod.fst).Nodup)
    (names : List String) :
    repeatsAny names (members.map fun (name, value) => (some name, value)) = false := by
  rw [repeatsAny, List.any_eq_false]
  intro name _
  have hcount := List.nodup_iff_count_le_one.mp h name
  rw [List.count, List.countP_map, List.countP_eq_length_filter] at hcount
  rw [List.filter_map, List.length_map]
  have hsame : (fun m : Option String × Json => m.1 == some name) ∘
      (fun (m : String × Json) => (some m.1, m.2)) = (fun x => x == name) ∘ Prod.fst := by
    funext m
    rfl
  rw [hsame]
  simpa using hcount

/-- A member is found under its name. -/
theorem find?_eq {members : List (String × Json)} (h : (members.map Prod.fst).Nodup) {name : String}
    {value : Json} (hmem : (name, value) ∈ members) :
    (members.map fun (name, value) => (some name, value)).find? (·.1 == some name) =
      some (some name, value) := by
  induction members with
  | nil => cases hmem
  | cons member members ih =>
    rw [List.map_cons, List.nodup_cons] at h
    rcases List.mem_cons.mp hmem with rfl | hmem
    · rw [List.map_cons, List.find?_cons_of_pos (by simp)]
    · have hne : member.1 ≠ name := by
        rintro rfl
        exact h.1 (List.mem_map.mpr ⟨_, hmem, rfl⟩)
      rw [List.map_cons, List.find?_cons_of_neg (by simpa using hne)]
      exact ih h.2 hmem

/-- A name given once is found with its value. -/
theorem member?_ofMembers {members : List (String × Json)} (h : (members.map Prod.fst).Nodup) {name : String}
    {value : Json} (hmem : (name, value) ∈ members) : (ofMembers members).member? name = some value := by
  show ((members.map fun (name, value) => (some name, value)).find? _).map Prod.snd = _
  rw [find?_eq h hmem]
  rfl

theorem mapM_eq_some {f : String → Option Json} {names : List String} {values : List Json}
    (hlength : names.length = values.length) (h : ∀ p ∈ names.zip values, f p.1 = some p.2) :
    names.mapM f = some values := by
  induction names generalizing values with
  | nil =>
    obtain rfl := List.length_eq_zero_iff.mp hlength.symm
    rfl
  | cons name names ih =>
    cases values with
    | nil => cases hlength
    | cons value values =>
      have hfirst : f name = some value := h (name, value) List.mem_cons_self
      have hrest := ih (Nat.succ.inj hlength) fun p hp => h p (List.mem_cons_of_mem _ hp)
      rw [List.mapM_cons, hfirst, hrest]
      rfl

end Fields

namespace Family

/-- No family names a field twice, or calls one `family`. -/
theorem nodup_names (family : Family) : ("family" :: family.fields).Nodup := by
  cases family <;> decide

theorem map_fst_record {family : Family} {values : List Json}
    (hlength : family.fields.length = values.length) :
    (("family", ofText family.name) :: family.fields.zip values).map Prod.fst =
      "family" :: family.fields := by
  rw [List.map_cons, List.map_fst_zip (Nat.le_of_eq hlength)]

/-- A function's record is one deeper than the deepest of its values. -/
theorem depth_record {family : Family} {values : List Json}
    (hlength : family.fields.length = values.length) :
    (family.record values).depth = depthOfItems values + 1 := by
  rw [record, depth_ofMembers, List.map_cons, List.map_snd_zip (Nat.le_of_eq hlength.symm), depthOfItems]
  exact congrArg (· + 1) (Nat.zero_max _)

/-- Levels that suffice for a record leave one less for what lies in it. -/
theorem depth_le_of_record {family : Family} {values : List Json} {level : Nat}
    (h : (family.record values).depth ≤ level + 1) (hlength : family.fields.length = values.length)
    {inner : Json} (hinner : inner ∈ values) : inner.depth ≤ level := by
  rw [depth_record hlength] at h
  exact (depth_le_depthOfItems hinner).trans (Nat.le_of_succ_le_succ h)

/-- A family's record survives being written and read when its values do. -/
theorem kept_record {family : Family} {values : List Json} (h : ∀ value ∈ values, Kept value) :
    Kept (family.record values) := by
  apply kept_ofMembers
  intro member hmember
  rcases List.mem_cons.mp hmember with rfl | hmember
  · exact kept_ofText _
  · exact h member.2 (List.of_mem_zip hmember).2

/-- A written record has its family, and under the names of the fields the values. -/
theorem values?_record (byPlace : Bool) {family : Family} {values : List Json}
    (hlength : family.fields.length = values.length) :
    ∃ fields, familyAndFields? byPlace (family.record values) = some (family, fields) ∧
      fields.values? family.fields = some values := by
  have hfst := map_fst_record hlength
  have hnodup : ((("family", ofText family.name) :: family.fields.zip values).map Prod.fst).Nodup := by
    rw [hfst]
    exact family.nodup_names
  refine ⟨.named ((("family", ofText family.name) :: family.fields.zip values).map
    fun (name, value) => (some name, value)), ?_, ?_⟩
  · rw [record, ofMembers, familyAndFields?, if_neg (by rw [Fields.repeatsAny_eq_false hnodup]; simp)]
    show (Family.ofName? family.name).bind _ = _
    rw [ofName?_name]
    rfl
  · rw [Fields.values?, if_neg (by rw [Fields.repeatsAny_eq_false hnodup]; simp)]
    apply Fields.mapM_eq_some hlength
    intro p hp
    rw [Fields.find?_eq hnodup (List.mem_cons_of_mem _ hp)]
    rfl

end Family

end FuzzyInference

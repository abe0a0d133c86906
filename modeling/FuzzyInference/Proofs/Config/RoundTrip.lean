import FuzzyInference.Proofs.Config.Reading

/-!
# Descriptions read back from their texts

A description whose numbers are finite and whose text does not nest too deep is read back from it, with
its sets in order. Everything that is read meets both conditions, in whatever form the text gave it, so
what was read once can be written and read any number of times.

## Contents
- `DomainConfig.numbers`: all numbers of a description.
- `ofJson?_toJson`: a description comes back. `writable_of_ofJson?`: what was read can be written.
- `read?_write`: the round trip, run on `nestedExample`.
-/

namespace FuzzyInference

open Json

namespace DomainConfig

/-- The numbers of a description and of the functions of its sets. -/
def numbers {α : Type} (config : DomainConfig α) : List α :=
  config.low :: config.high :: config.res :: config.sets.values.flatMap Membership.numbers

/-- Whether no number is infinite or NaN. -/
def IsFinite (config : DomainConfig Float) : Prop := ∀ x ∈ config.numbers, Scalar.isFinite x = true

variable {config : DomainConfig Float}

/-! ## Writing, then reading -/

/-- The functions of a finite configuration have finite numbers. -/
theorem IsFinite.func (h : config.IsFinite) {name : String} {func : Membership Float}
    (hmem : (name, func) ∈ config.sets.entries) : ∀ x ∈ func.numbers, Scalar.isFinite x = true := by
  simp only [IsFinite, numbers, List.forall_mem_cons] at h
  intro x hx
  exact h.2.2.2 x (List.mem_flatMap.mpr ⟨func, List.mem_map.mpr ⟨_, hmem, rfl⟩, hx⟩)

/-- The members of a written description. -/
def members (config : DomainConfig Float) : List (String × Json) :=
  [("name", ofText config.name), ("low", ofDouble config.low), ("high", ofDouble config.high),
   ("res", ofDouble config.res),
   ("sets", ofMembers (config.sets.entries.map fun (name, func) => (name, func.toJson)))]

theorem nodup_members (config : DomainConfig Float) : (config.members.map Prod.fst).Nodup := by
  show ["name", "low", "high", "res", "sets"].Nodup
  decide

theorem kept_toJson (h : config.IsFinite) : Kept config.toJson := by
  have hnumbers := h
  simp only [IsFinite, numbers, List.forall_mem_cons] at hnumbers
  have hsets : Kept (ofMembers (config.sets.entries.map fun (name, func) => (name, func.toJson))) := by
    apply kept_ofMembers
    intro member hmember
    obtain ⟨⟨name, func⟩, hmem, rfl⟩ := List.mem_map.mp hmember
    exact Membership.kept_toJson func (h.func hmem)
  apply kept_ofMembers
  simp [kept_ofText, kept_ofDouble, hnumbers, hsets]

/-- A configuration is written two levels deeper than its deepest function. -/
theorem depth_toJson (config : DomainConfig Float) :
    config.toJson.depth = depthOfItems (config.sets.values.map Membership.toJson) + 2 := by
  have hsets : (ofMembers (config.sets.entries.map fun (name, func) => (name, func.toJson))).depth =
      depthOfItems (config.sets.values.map Membership.toJson) + 1 := by
    rw [depth_ofMembers, List.map_map, OrderedMap.values, List.map_map]
    rfl
  show (ofMembers config.members).depth = _
  rw [depth_ofMembers]
  simp only [members, List.map_cons, List.map_nil, depthOfItems, depth_ofDouble, hsets]
  show max 0 (max 0 (max 0 (max 0 (max (_ + 1) 0)))) + 1 = _ + 2
  omega

/-- Each member of a configuration is found under its name. -/
theorem values?_toJson (config : DomainConfig Float) :
    values? config.toJson = some (ofText config.name, ofDouble config.low, ofDouble config.high,
      some (ofDouble config.res),
      some (ofMembers (config.sets.entries.map fun (name, func) => (name, func.toJson)))) := by
  have hfield : ∀ {name value}, (name, value) ∈ config.members → config.toJson.member? name = some value :=
    fun hmem => Fields.member?_ofMembers config.nodup_members hmem
  have hname : config.toJson.member? "name" = some (ofText config.name) := hfield (by simp [members])
  have hlow : config.toJson.member? "low" = some (ofDouble config.low) := hfield (by simp [members])
  have hhigh : config.toJson.member? "high" = some (ofDouble config.high) := hfield (by simp [members])
  have hres : config.toJson.member? "res" = some (ofDouble config.res) := hfield (by simp [members])
  have hsets : config.toJson.member? "sets" =
      some (ofMembers (config.sets.entries.map fun (name, func) => (name, func.toJson))) :=
    hfield (by simp [members])
  obtain ⟨fields, hobject, hvalued, hrepeats⟩ : ∃ fields, config.toJson = .object fields ∧
      fields.any (·.1.isNone) = false ∧ Fields.repeatsAny fieldNames fields = false :=
    ⟨_, rfl, rfl, Fields.repeatsAny_eq_false config.nodup_members fieldNames⟩
  rw [hobject] at hname hlow hhigh hres hsets ⊢
  rw [values?, hvalued, hrepeats]
  simp only [Bool.or_self, Bool.false_eq_true, if_false, hname, hlow, hhigh, hres, hsets]
  rfl

/-- The sets come back one after the other, each within its share of the depth. -/
theorem mapM_sets {entries : List (String × Membership Float)}
    (hfinite : ∀ e ∈ entries, ∀ x ∈ e.2.numbers, Scalar.isFinite x = true)
    (hdepth : ∀ e ∈ entries, e.2.toJson.depth + 2 ≤ maxDepth) :
    (entries.map fun (name, func) => (some name, func.toJson)).mapM (fun (name, value) => do
      if 1 + 1 + value.depth ≤ maxDepth then return (← name, ← Membership.ofJson? value)
      else none) = some entries := by
  induction entries with
  | nil => rfl
  | cons e entries ih =>
    obtain ⟨name, func⟩ := e
    have hfunc := Membership.ofJson?_toJson (hfinite _ List.mem_cons_self)
    have hfirst := hdepth _ List.mem_cons_self
    have hrest := ih (fun e he => hfinite e (List.mem_cons_of_mem _ he))
      (fun e he => hdepth e (List.mem_cons_of_mem _ he))
    dsimp only at hfunc hfirst
    rw [List.map_cons, List.mapM_cons, hrest]
    simp only [if_pos (show 1 + 1 + func.toJson.depth ≤ maxDepth by omega), hfunc]
    rfl

/-- The functions are read back, in order and under their names. -/
theorem setsOfJson?_toJson (h : config.IsFinite) (hdepth : config.toJson.depth ≤ maxDepth) :
    setsOfJson? 1 (ofMembers (config.sets.entries.map fun (name, func) => (name, func.toJson))) =
      some config.sets := by
  have hentries : ∀ e ∈ config.sets.entries, e.2.toJson.depth + 2 ≤ maxDepth := by
    intro e he
    have hle : e.2.toJson.depth ≤ depthOfItems (config.sets.values.map Membership.toJson) :=
      depth_le_depthOfItems (List.mem_map.mpr ⟨e.2, List.mem_map.mpr ⟨e, he, rfl⟩, rfl⟩)
    rw [depth_toJson] at hdepth
    omega
  have hmap := mapM_sets (fun e he => h.func he) hentries
  rw [setsOfJson?, ofMembers, List.map_map]
  refine (congrArg (Option.bind · fun sets => some (OrderedMap.ofList sets)) hmap).trans ?_
  rw [Option.bind_some, OrderedMap.ofList_entries]

/-- A configuration is read back from its document, if that is not nested deeper than the reader
goes. -/
theorem ofJson?_toJson (h : config.IsFinite) (hdepth : config.toJson.depth ≤ maxDepth) :
    ofJson? 0 config.toJson = some config := by
  have hsets := setsOfJson?_toJson h hdepth
  simp only [IsFinite, numbers, List.forall_mem_cons] at h
  rw [ofJson?, values?_toJson]
  simp [toDouble?_ofDouble, h, hsets, ofText, toText?]

/-- A description is read back from its text. -/
theorem read?_write_of_isFinite (h : config.IsFinite) (hdepth : config.toJson.depth ≤ maxDepth) :
    read? config.write = some config := by
  rw [read?, write, read?_toIndented (kept_toJson h).writable]
  exact ofJson?_toJson h hdepth

/-! ## Reading, then writing -/

theorem isFinite_defaultRes : Scalar.isFinite (defaultRes : Float) = true := by
  decide +kernel

/-- The functions that were read, each within its share of the depth. -/
theorem sized_of_setsOfJson? {j : Json} {sets : OrderedMap String (Membership Float)}
    (h : setsOfJson? 1 j = some sets) : ∀ func ∈ sets.values, func.Sized (maxDepth - 2) := by
  obtain ⟨members, -, h⟩ := Option.bind_eq_some_iff.mp h
  obtain ⟨entries, hentries, h⟩ := Option.bind_eq_some_iff.mp h
  obtain rfl := Option.some.inj h
  intro func hfunc
  obtain ⟨e, he, rfl⟩ := List.mem_map.mp hfunc
  obtain ⟨⟨name, value⟩, -, hread⟩ := exists_of_mapM hentries e (OrderedMap.mem_of_mem_ofList he)
  dsimp only at hread
  split at hread
  next hdepth =>
    obtain ⟨n, -, hread⟩ := Option.bind_eq_some_iff.mp hread
    obtain ⟨f, hf, hread⟩ := Option.bind_eq_some_iff.mp hread
    obtain rfl := Option.some.inj hread
    unfold Membership.ofJson? at hf
    split at hf
    · have hsized := Membership.sized_of_ofLevels? hf
      exact ⟨hsized.isFinite, hsized.depth_le.trans (by omega)⟩
    · cases hf
  next => cases hread

/-- The parts of a description that was read. -/
theorem exists_of_ofJson? {j : Json} (h : ofJson? 0 j = some config) :
    ∃ (low high : Json) (res sets : Option Json), low.toDouble? = some config.low ∧
      high.toDouble? = some config.high ∧
      (match res with | some res => res.toDouble? | none => some defaultRes) = some config.res ∧
      (match sets with | some sets => setsOfJson? 1 sets | none => some OrderedMap.empty) =
        some config.sets := by
  obtain ⟨⟨nameJson, lowJson, highJson, resJson, setsJson⟩, -, h⟩ := Option.bind_eq_some_iff.mp h
  refine ⟨lowJson, highJson, resJson, setsJson, ?_⟩
  -- both the resolution and the sets may be missing
  cases resJson <;> cases setsJson <;>
  · dsimp only at h
    obtain ⟨res, hres, h⟩ := Option.bind_eq_some_iff.mp h
    obtain ⟨sets, hsets, h⟩ := Option.bind_eq_some_iff.mp h
    obtain ⟨name, -, h⟩ := Option.bind_eq_some_iff.mp h
    obtain ⟨low, hlow, h⟩ := Option.bind_eq_some_iff.mp h
    obtain ⟨high, hhigh, h⟩ := Option.bind_eq_some_iff.mp h
    obtain rfl := Option.some.inj h
    exact ⟨hlow, hhigh, hres, hsets⟩

/-- What was read has finite numbers, and its text does not nest too deep. -/
theorem writable_of_ofJson? {j : Json} (h : ofJson? 0 j = some config) :
    config.IsFinite ∧ config.toJson.depth ≤ maxDepth := by
  obtain ⟨lowJson, highJson, resJson, setsJson, hlow, hhigh, hres, hsets⟩ := exists_of_ofJson? h
  -- a missing resolution or missing sets are defaults, which are writable too
  have hresFinite : Scalar.isFinite config.res = true := by
    cases resJson with
    | some resJson => exact isFinite_of_toDouble? hres
    | none => exact Option.some.inj hres ▸ isFinite_defaultRes
  have hsized : ∀ func ∈ config.sets.values, func.Sized (maxDepth - 2) := by
    cases setsJson with
    | some setsJson => exact sized_of_setsOfJson? hsets
    | none =>
      rw [← Option.some.inj hsets]
      intro func hfunc
      cases hfunc
  constructor
  · simp only [IsFinite, numbers, List.forall_mem_cons]
    refine ⟨isFinite_of_toDouble? hlow, isFinite_of_toDouble? hhigh, hresFinite, ?_⟩
    intro x hx
    obtain ⟨func, hfunc, hx⟩ := List.mem_flatMap.mp hx
    exact (hsized func hfunc).isFinite x hx
  · have hle : depthOfItems (config.sets.values.map Membership.toJson) ≤ maxDepth - 2 := by
      apply depthOfItems_le
      intro written hwritten
      obtain ⟨func, hfunc, rfl⟩ := List.mem_map.mp hwritten
      exact (hsized func hfunc).depth_le
    rw [depth_toJson]
    exact Nat.add_le_of_le_sub (by decide) hle

/-! ## The round trip -/

/-- A description with finite numbers and a text that does not nest too deep is read back from it, and so is
    every description that was read from any text. -/
theorem read?_write :
    (∀ config : DomainConfig Float, config.IsFinite → config.toJson.depth ≤ maxDepth →
      read? config.write = some config) ∧
    ∀ (text : String) (config : DomainConfig Float), read? text = some config →
      read? config.write = some config := by
  refine ⟨fun config hfinite hdepth => read?_write_of_isFinite hfinite hdepth, ?_⟩
  intro text config h
  obtain ⟨j, -, hj⟩ := Option.bind_eq_some_iff.mp h
  obtain ⟨hfinite, hdepth⟩ := writable_of_ofJson? hj
  exact read?_write_of_isFinite hfinite hdepth

/-- A description with escapes in its name, numbers of every layout and functions within functions. -/
def nestedExample : DomainConfig Float where
  name := "\"speed\"\x01"
  low := -2.5
  high := 1e22
  res := 1e-7
  sets := OrderedMap.ofList
    [("fast", .combination (.lambda 0.25)
      [.inv (.shape (.piecewise [(0.0, -0.0), (1.5, 1.0)])), .power 2.0 (.shape (.rising 0.0 10.0))]),
     ("slow", .alpha 0.1 0.9 0.0 1.0 (.combination .max []))]

theorem isFinite_nestedExample : nestedExample.IsFinite := by
  show ∀ x ∈ nestedExample.numbers, Scalar.isFinite x = true
  decide +kernel

theorem isSome_read?_array : (read? "[\"x\", 0, 1e1]").isSome = true := by
  decide +kernel

/-- The example comes back, and so does what an array with whole numbers says. -/
theorem read?_write_nestedExample :
    nestedExample.IsFinite ∧ nestedExample.toJson.depth ≤ maxDepth ∧
      read? nestedExample.write = some nestedExample ∧
      ∃ config, read? "[\"x\", 0, 1e1]" = some config ∧ read? config.write = some config := by
  have hdepth : nestedExample.toJson.depth ≤ maxDepth := by decide +kernel
  obtain ⟨config, hread⟩ := Option.isSome_iff_exists.mp isSome_read?_array
  exact ⟨isFinite_nestedExample, hdepth, read?_write.1 nestedExample isFinite_nestedExample hdepth, config,
    hread, read?_write.2 _ config hread⟩

end DomainConfig

end FuzzyInference

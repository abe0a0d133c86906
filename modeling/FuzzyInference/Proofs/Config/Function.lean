import FuzzyInference.Proofs.Config.Record

/-!
# Functions as documents

A function whose numbers are all finite is written as a sound document and read back from it, as deep
as the functions in it stand.

## Contents
- `Shape.numbers`, `Membership.numbers`: all numbers of a function.
- `kept_toJson`: the document is sound and has a text.
- `ofLevels?_toJson`: writing, then reading. `ofJson?_toJson`: with the check of the document.
-/

namespace FuzzyInference

open Json

/-! ## Numbers -/

/-- The numbers of a shape. -/
def Shape.numbers {α : Type} : Shape α → List α
  | identity => []
  | constant membership => [membership]
  | linear gradient offset => [gradient, offset]
  | rectangular low high core unsupported => [low, high, core, unsupported]
  | triangular low high peak core unsupported => [low, high, peak, core, unsupported]
  | trapezoid low coreLow coreHigh high core unsupported =>
    [low, coreLow, coreHigh, high, core, unsupported]
  | boundedLinear low high core unsupported _ => [low, high, core, unsupported]
  | rising low high | falling low high => [low, high]
  | sigmoid limit steepness midpoint => [limit, steepness, midpoint]
  | boundedSigmoid low high _ => [low, high]
  | simpleSigmoid steepness => [steepness]
  | triangularSigmoid low high peak => [low, high, peak]
  | gauss center sharpness height => [center, sharpness, height]
  | boundedExponential rate limit => [rate, limit]
  | singleton location elsewhere height => [location, elsewhere, height]
  | piecewise points => points.flatMap fun (x, m) => [x, m]

namespace Membership

mutual

/-- The numbers of a function, with those of its operands and the weights of its combinators. -/
def numbers {α : Type} : Membership α → List α
  | shape curve => curve.numbers
  | inv func | moderate func | intensify func => numbers func
  | alpha floor ceiling floorClip ceilingClip func =>
    floor :: ceiling :: floorClip :: ceilingClip :: numbers func
  | normalize height func => height :: numbers func
  | power exponent func => exponent :: numbers func
  | combination op operands => op.weight?.toList ++ numbersOfAll operands

/-- The numbers of several functions. -/
def numbersOfAll {α : Type} : List (Membership α) → List α
  | [] => []
  | func :: funcs => numbers func ++ numbersOfAll funcs

end

end Membership

/-! ## Shapes -/

namespace Shape

theorem length_fieldValues (curve : Shape Float) : curve.family.fields.length = curve.fieldValues.length := by
  cases curve <;> rfl

/-- Rows of finite numbers, written as pairs, are read back. -/
theorem mapM_pair? {points : List (Float × Float)}
    (h : ∀ p ∈ points, Scalar.isFinite p.1 = true ∧ Scalar.isFinite p.2 = true) :
    (points.map fun (x, m) => array [ofDouble x, ofDouble m]).mapM pair? = some points := by
  induction points with
  | nil => rfl
  | cons p points ih =>
    have hfirst := h p List.mem_cons_self
    rw [List.map_cons, List.mapM_cons, ih fun q hq => h q (List.mem_cons_of_mem _ hq)]
    simp [pair?, toDouble?_ofDouble hfirst.1, toDouble?_ofDouble hfirst.2]

theorem isFinite_points {points : List (Float × Float)}
    (h : ∀ x ∈ (piecewise points).numbers, Scalar.isFinite x = true) :
    ∀ p ∈ points, Scalar.isFinite p.1 = true ∧ Scalar.isFinite p.2 = true := by
  intro p hp
  constructor
  · exact h p.1 (List.mem_flatMap.mpr ⟨p, hp, List.mem_cons_self⟩)
  · exact h p.2 (List.mem_flatMap.mpr ⟨p, hp, List.mem_cons_of_mem _ List.mem_cons_self⟩)

/-- The values of a shape's fields give that shape again. One case for each family. -/
theorem ofValues?_fieldValues {curve : Shape Float} (h : ∀ x ∈ curve.numbers, Scalar.isFinite x = true) :
    ofValues? curve.family curve.fieldValues = some curve := by
  cases curve with
  | piecewise points =>
    show ((points.map fun (x, m) => array [ofDouble x, ofDouble m]).mapM pair?).bind _ = _
    rw [mapM_pair? (isFinite_points h)]
    rfl
  | _ =>
    simp only [numbers, List.forall_mem_cons] at h
    simp [family, fieldValues, ofValues?, toDouble?_ofDouble, toBool?, h]

/-- Every field's value survives being written and read. -/
theorem kept_fieldValues {curve : Shape Float} (h : ∀ x ∈ curve.numbers, Scalar.isFinite x = true) :
    ∀ value ∈ curve.fieldValues, Kept value := by
  cases curve with
  | piecewise points =>
    intro value hvalue
    rw [List.mem_singleton.mp hvalue]
    apply kept_array
    intro item hitem
    obtain ⟨p, hp, rfl⟩ := List.mem_map.mp hitem
    have hfinite := isFinite_points h p hp
    apply kept_array
    simp [kept_ofDouble hfinite.1, kept_ofDouble hfinite.2]
  | _ =>
    simp only [numbers, List.forall_mem_cons] at h
    simp [fieldValues, kept_ofDouble, kept_bool, h]

end Shape

/-! ## Combinators -/

namespace Combinator

/-- A combinator is read back from the document it is written as. -/
theorem ofJson?_toJson {op : Combinator Float} (h : ∀ x ∈ op.weight?.toList, Scalar.isFinite x = true) :
    ofJson? op.toJson = some op := by
  cases op with
  | lambda weight =>
    have hread := toDouble?_ofDouble (h weight List.mem_cons_self)
    show ((ofDouble weight).toDouble?).bind _ = _
    rw [hread]
    rfl
  | gamma weight =>
    have hread := toDouble?_ofDouble (h weight List.mem_cons_self)
    show ((ofDouble weight).toDouble?).bind _ = _
    rw [hread]
    rfl
  | _ => rfl

theorem kept_toJson {op : Combinator Float} (h : ∀ x ∈ op.weight?.toList, Scalar.isFinite x = true) :
    Kept op.toJson := by
  have hweighted : ∀ (name : String) (weight : Float), Scalar.isFinite weight = true →
      Kept (ofMembers [(name, ofMembers [("weight", ofDouble weight)])]) := by
    intro name weight hweight
    have hinner : Kept (ofMembers [("weight", ofDouble weight)]) := by
      apply kept_ofMembers
      intro member hmember
      rw [List.mem_singleton.mp hmember]
      exact kept_ofDouble hweight
    apply kept_ofMembers
    intro member hmember
    rw [List.mem_singleton.mp hmember]
    exact hinner
  cases op with
  | lambda weight => exact hweighted _ weight (h weight List.mem_cons_self)
  | gamma weight => exact hweighted _ weight (h weight List.mem_cons_self)
  | _ => exact kept_ofText _

end Combinator

/-! ## Functions -/

namespace Membership

/-- The record of a function over another one: its numbers, then the inner document. -/
theorem kept_nested {family : Family} {inner : Json} (numbers : List Float)
    (hnumbers : ∀ x ∈ numbers, Scalar.isFinite x = true) (hinner : Kept inner) :
    Kept (family.record (numbers.map ofDouble ++ [inner])) := by
  apply Family.kept_record
  rw [List.forall_mem_append, List.forall_mem_map, List.forall_mem_singleton]
  exact ⟨fun x hx => kept_ofDouble (hnumbers x hx), hinner⟩

mutual

/-- The document of a function survives being written and read, by induction over its operands. -/
theorem kept_toJson : ∀ (func : Membership Float), (∀ x ∈ func.numbers, Scalar.isFinite x = true) →
    Kept func.toJson
  | shape curve, h => Family.kept_record (Shape.kept_fieldValues h)
  | inv func, h | moderate func, h | intensify func, h =>
    kept_nested [] (List.forall_mem_nil _) (kept_toJson func h)
  | normalize x func, h | power x func, h => by
    obtain ⟨hx, hnumbers⟩ := List.forall_mem_cons.mp h
    exact kept_nested [x] (List.forall_mem_singleton.mpr hx) (kept_toJson func hnumbers)
  | alpha floor ceiling floorClip ceilingClip func, h => by
    obtain ⟨hclips, hnumbers⟩ : (∀ x ∈ [floor, ceiling, floorClip, ceilingClip], Scalar.isFinite x = true) ∧
        ∀ x ∈ func.numbers, Scalar.isFinite x = true := List.forall_mem_append.mp h
    exact kept_nested _ hclips (kept_toJson func hnumbers)
  | combination op operands, h => by
    rw [numbers, List.forall_mem_append] at h
    have hop := Combinator.kept_toJson h.1
    have hoperands := kept_array (kept_toJsons operands h.2)
    exact Family.kept_record (by simp [hop, hoperands])

theorem kept_toJsons : ∀ (funcs : List (Membership Float)),
    (∀ x ∈ numbersOfAll funcs, Scalar.isFinite x = true) → ∀ j ∈ toJsons funcs, Kept j
  | [], _ => by simp [toJsons]
  | func :: funcs, h => by
    rw [numbersOfAll, List.forall_mem_append] at h
    rw [toJsons, List.forall_mem_cons]
    exact ⟨kept_toJson func h.1, kept_toJsons funcs h.2⟩

end

/-- A function of a family from the values of its fields, given how inner functions are read. -/
def ofValues? (inner : Json → Option (Membership Float)) : Family → List Json → Option (Membership Float)
  | .inv, [func] => return .inv (← inner func)
  | .alpha, [floor, ceiling, floorClip, ceilingClip, func] =>
    return .alpha (← floor.toDouble?) (← ceiling.toDouble?) (← floorClip.toDouble?)
      (← ceilingClip.toDouble?) (← inner func)
  | .normalize, [height, func] => return .normalize (← height.toDouble?) (← inner func)
  | .moderate, [func] => return .moderate (← inner func)
  | .power, [exponent, func] => return .power (← exponent.toDouble?) (← inner func)
  | .intensify, [func] => return .intensify (← inner func)
  | .combination, [op, operands] =>
    return .combination (← Combinator.ofJson? op) (← (← operands.toItems?).mapM inner)
  | family, values => return .shape (← Shape.ofValues? family values)

/-- The seven families of built functions are no shape's. -/
theorem ofValues?_shape (inner : Json → Option (Membership Float)) (curve : Shape Float) (values : List Json) :
    ofValues? inner curve.family values =
      (Shape.ofValues? curve.family values).bind fun curve => some (shape curve) := by
  cases curve <;> rfl

/-- Reading goes one level down for the fields of a record. -/
theorem ofLevels?_succ (level : Nat) (byPlace : Bool) (j : Json) :
    ofLevels? (level + 1) byPlace j = (familyAndFields? byPlace j).bind fun record =>
      (record.2.values? record.1.fields).bind (ofValues? (ofLevels? level true) record.1) := by
  rw [ofLevels?]
  rfl

/-- A record is read by the names of its family's fields. -/
theorem ofLevels?_record {family : Family} {values : List Json}
    (hlength : family.fields.length = values.length) (level : Nat) (byPlace : Bool) :
    ofLevels? (level + 1) byPlace (family.record values) =
      ofValues? (ofLevels? level true) family values := by
  obtain ⟨fields, hfamily, hvalues⟩ := Family.values?_record byPlace hlength
  rw [ofLevels?_succ, hfamily, Option.bind_some, hvalues, Option.bind_some]

/-- A function is written as a record, so reading it takes a level. -/
theorem depth_toJson_pos (func : Membership Float) : 0 < func.toJson.depth := by
  cases func <;> exact Nat.succ_pos _

mutual

/-- With enough levels a function is read back. The induction is on the function, a level each. -/
theorem ofLevels?_toJson : ∀ (func : Membership Float), (∀ x ∈ func.numbers, Scalar.isFinite x = true) →
    ∀ (level : Nat) (byPlace : Bool), func.toJson.depth ≤ level → ofLevels? level byPlace func.toJson = some func
  | func, h, 0, _, hlevel => by
    have := func.depth_toJson_pos
    omega
  | shape curve, h, level + 1, byPlace, _ => by
    rw [toJson, ofLevels?_record curve.length_fieldValues, ofValues?_shape, Shape.ofValues?_fieldValues h]
    rfl
  | inv func, h, level + 1, byPlace, hlevel | moderate func, h, level + 1, byPlace, hlevel
  | intensify func, h, level + 1, byPlace, hlevel => by
    rw [toJson] at hlevel ⊢
    have hdepth : func.toJson.depth ≤ level := Family.depth_le_of_record hlevel rfl (by simp)
    rw [ofLevels?_record rfl]
    simp [ofValues?, ofLevels?_toJson func h level true hdepth]
  | normalize x func, h, level + 1, byPlace, hlevel | power x func, h, level + 1, byPlace, hlevel => by
    rw [toJson] at hlevel ⊢
    obtain ⟨hx, hnumbers⟩ := List.forall_mem_cons.mp h
    have hdepth : func.toJson.depth ≤ level := Family.depth_le_of_record hlevel rfl (by simp)
    rw [ofLevels?_record rfl]
    simp [ofValues?, toDouble?_ofDouble hx, ofLevels?_toJson func hnumbers level true hdepth]
  | alpha floor ceiling floorClip ceilingClip func, h, level + 1, byPlace, hlevel => by
    rw [toJson] at hlevel ⊢
    simp only [numbers, List.forall_mem_cons] at h
    obtain ⟨hfloor, hceiling, hfloorClip, hceilingClip, hnumbers⟩ := h
    have hdepth : func.toJson.depth ≤ level := Family.depth_le_of_record hlevel rfl (by simp)
    have hfunc := ofLevels?_toJson func hnumbers level true hdepth
    rw [ofLevels?_record rfl]
    simp [ofValues?, hfunc, toDouble?_ofDouble hfloor, toDouble?_ofDouble hceiling,
      toDouble?_ofDouble hfloorClip, toDouble?_ofDouble hceilingClip]
  | combination op operands, h, level + 1, byPlace, hlevel => by
    rw [toJson] at hlevel ⊢
    rw [numbers, List.forall_mem_append] at h
    have hdepth : (array (toJsons operands)).depth ≤ level := Family.depth_le_of_record hlevel rfl (by simp)
    rw [depth] at hdepth
    have hoperands := mapM_toJsons operands h.2 level (by omega)
    rw [ofLevels?_record rfl]
    simp [ofValues?, Combinator.ofJson?_toJson h.1, toItems?, hoperands]

/-- The operands of a fold are read back, by the same induction. -/
theorem mapM_toJsons : ∀ (funcs : List (Membership Float)),
    (∀ x ∈ numbersOfAll funcs, Scalar.isFinite x = true) → ∀ (level : Nat),
      depthOfItems (toJsons funcs) ≤ level → (toJsons funcs).mapM (ofLevels? level true) = some funcs
  | [], _, _, _ => rfl
  | func :: funcs, h, level, hlevel => by
    rw [numbersOfAll, List.forall_mem_append] at h
    rw [toJsons, depthOfItems] at hlevel
    have hfunc := ofLevels?_toJson func h.1 level true (by omega)
    have hfuncs := mapM_toJsons funcs h.2 level (by omega)
    rw [toJsons, List.mapM_cons, hfunc, hfuncs]
    rfl

end

/-- A function is read back from its document, whose own depth says how many levels that takes. -/
theorem ofJson?_toJson {func : Membership Float} (h : ∀ x ∈ func.numbers, Scalar.isFinite x = true) :
    ofJson? func.toJson = some func := by
  rw [ofJson?, if_pos (kept_toJson func h).sound]
  exact ofLevels?_toJson func h _ false (Nat.le_refl _)

end Membership

end FuzzyInference

import FuzzyInference.Proofs.Membership.Accepted

/-!
# Functions and their rows

A function that is written as a row of numbers is its family and that row. Writing is injective, and reading
inverts it: what a name and a row are read as has that name and is written as that row again, with 0 or 1
where the row has a flag. So a name and a row are refused for three reasons only. No function with this name
is written as a row, or those that are have longer or shorter rows, or the one with this row breaks a
condition on its parameters.

## Contents
- `Family.normalRow`: a row with its flags as 0 and 1.
- `Shape.ofRow?_of_parameters`, `Shape.parameters_of_ofRow?`: reading inverts writing, and writing reading.
  `Shape.exists_ofRow?`: every row of the right length is read.
- `Refused`: the three reasons.
- `ofParameters_roundTrip`: all of it for accepted functions.
-/

namespace FuzzyInference

open Scalar

/-! ## Flags -/

theorem toFlag_ofFlag (flag : Bool) : toFlag (ofFlag flag : Float) = flag := by
  cases flag <;> decide +kernel

/-- A row of a family in which 1 stands for every number that is read as true. -/
def Family.normalRow (family : Family) (row : List Float) : List Float :=
  row.mapIdx fun i x => if family.fields[i]? = some "inverse" then (if x == 0.0 then 0.0 else 1.0) else x

/-- Every number but 0 is taken for a set flag, so a row is read back with 1 in its place. -/
theorem ofFlag_toFlag (x : Float) : (ofFlag (toFlag x) : Float) = if x == 0.0 then 0.0 else 1.0 := by
  unfold ofFlag toFlag
  cases x == 0.0 <;> rfl

/-! ## Shapes -/

namespace Shape

variable {family : Family} {row : List Float} {curve : Shape Float}

/-- Reading inverts writing. -/
theorem ofRow?_of_parameters (h : curve.parameters? = some row) : ofRow? curve.family row = some curve := by
  cases curve <;> cases h <;> simp [family, ofRow?, toFlag_ofFlag]

/-- A row has a number for each field. -/
theorem length_of_parameters (h : curve.parameters? = some row) : row.length = curve.family.fields.length := by
  cases curve <;> cases h <;> rfl

/-- Writing inverts reading up to the flags. -/
theorem parameters_of_ofRow? (h : ofRow? family row = some curve) :
    curve.family = family ∧ curve.parameters? = some (family.normalRow row) := by
  unfold ofRow? at h
  split at h <;> cases h
  any_goals exact ⟨rfl, rfl⟩
  -- the families with a flag
  all_goals
    refine ⟨rfl, ?_⟩
    rw [parameters?, ofFlag_toFlag]
    rfl

/-- A row of the right length is read. -/
theorem exists_ofRow? (hrows : family.hasRows = true) (hlength : row.length = family.fields.length) :
    ∃ curve, ofRow? family row = some curve := by
  cases family <;> cases hrows <;> simp only [Family.fields, List.length_cons, List.length_nil] at hlength
  case identity => match row with | [] => exact ⟨_, rfl⟩
  case constant | simpleSigmoid => match row with | [_] => exact ⟨_, rfl⟩
  case linear | rising | falling | boundedExponential => match row with | [_, _] => exact ⟨_, rfl⟩
  case sigmoid | boundedSigmoid | triangularSigmoid | gauss | singleton =>
    match row with | [_, _, _] => exact ⟨_, rfl⟩
  case rectangular => match row with | [_, _, _, _] => exact ⟨_, rfl⟩
  case triangular | boundedLinear => match row with | [_, _, _, _, _] => exact ⟨_, rfl⟩
  case trapezoid => match row with | [_, _, _, _, _, _] => exact ⟨_, rfl⟩

/-- Only a row with a number for each field is read. -/
theorem length_of_ofRow? (h : ofRow? family row = some curve) : row.length = family.fields.length := by
  obtain ⟨rfl, hrow⟩ := parameters_of_ofRow? h
  have hlength := length_of_parameters hrow
  rwa [Family.normalRow, List.length_mapIdx] at hlength

/-- The flags of a row that was written are 0 or 1 already. -/
theorem normalRow_of_parameters (h : curve.parameters? = some row) : curve.family.normalRow row = row := by
  obtain ⟨-, hrow⟩ := parameters_of_ofRow? (ofRow?_of_parameters h)
  rw [h] at hrow
  exact (Option.some.inj hrow).symm

end Shape

/-! ## Functions -/

theorem Family.ofName?_eq_some_iff {name : String} {family : Family} :
    ofName? name = some family ↔ family.name = name := by
  constructor
  · intro h
    simpa using List.find?_some h
  · rintro rfl
    exact ofName?_name family

/-- A family whose functions are not written as rows has a function. -/
theorem Family.exists_composite {family : Family} (h : family.hasRows = false) :
    ∃ func : Membership Float, func.family = family ∧ func.parameters? = none := by
  cases family <;> cases h
  case piecewise => exact ⟨.shape (.piecewise []), rfl, rfl⟩
  case inv => exact ⟨.inv default, rfl, rfl⟩
  case alpha => exact ⟨.alpha 0.0 1.0 0.0 1.0 default, rfl, rfl⟩
  case normalize => exact ⟨.normalize 1.0 default, rfl, rfl⟩
  case moderate => exact ⟨.moderate default, rfl, rfl⟩
  case power => exact ⟨.power 1.0 default, rfl, rfl⟩
  case intensify => exact ⟨.intensify default, rfl, rfl⟩
  case combination => exact ⟨.combination .max [], rfl, rfl⟩

namespace Membership

variable {family : Family} {name : String} {row : List Float} {func : Membership Float}
  {fault : FunctionFault Float}

theorem exists_shape (h : func.parameters? = some row) :
    ∃ curve, func = .shape curve ∧ curve.parameters? = some row := by
  cases func with
  | shape curve => exact ⟨curve, rfl, h⟩
  | _ => cases h

theorem hasRows_eq (func : Membership Float) : func.family.hasRows = func.parameters?.isSome := by
  cases func with
  | shape curve => cases curve <;> rfl
  | _ => rfl

theorem checked_eq_error_iff : func.checked = .error fault ↔ func.validate = .error fault := by
  unfold checked
  rw [bind_eq_error_iff]
  exact or_iff_left fun ⟨_, _, h⟩ => by cases h

/-! ### What is read -/

/-- A name of no family is refused as it stands. -/
theorem ofParameters_of_unknown (h : ∀ family : Family, family.name ≠ name) :
    ofParameters name row = .error (.unknownFamily name) := by
  have hnone : Family.ofName? name = none :=
    Option.eq_none_iff_forall_ne_some.mpr fun family hname => h family (Family.ofName?_eq_some_iff.mp hname)
  unfold ofParameters
  rw [hnone]

/-- The name of a family without rows is refused like an unknown one. -/
theorem ofParameters_of_composite (h : family.hasRows = false) :
    ofParameters family.name row = .error (.unknownFamily family.name) := by
  unfold ofParameters
  rw [Family.ofName?_name]
  exact if_neg (Bool.eq_false_iff.mp h)

/-- A row of the wrong length is refused with both lengths. -/
theorem ofParameters_of_length_ne (hrows : family.hasRows = true) (h : row.length ≠ family.fields.length) :
    ofParameters family.name row = .error (.parameterCount family.name family.fields.length row.length) := by
  have hnone : Shape.ofRow? family row = none :=
    Option.eq_none_iff_forall_ne_some.mpr fun curve hcurve => h (Shape.length_of_ofRow? hcurve)
  unfold ofParameters
  rw [Family.ofName?_name]
  dsimp only
  rw [if_pos hrows, hnone]

/-- A row of the right length is checked as the function that is written as this row. -/
theorem ofParameters_of_length (hrows : family.hasRows = true) (h : row.length = family.fields.length) :
    ∃ func : Membership Float, func.family = family ∧ func.parameters? = some (family.normalRow row) ∧
      ofParameters family.name row = func.checked := by
  obtain ⟨curve, hcurve⟩ := Shape.exists_ofRow? hrows h
  obtain ⟨hfamily, hrow⟩ := Shape.parameters_of_ofRow? hcurve
  refine ⟨.shape curve, hfamily, hrow, ?_⟩
  unfold ofParameters
  rw [Family.ofName?_name]
  dsimp only
  rw [if_pos hrows, hcurve]

/-- Functions of one family with one row are one function. -/
theorem eq_of_parameters {other : Membership Float} (hfamily : func.family = other.family)
    (hfunc : func.parameters? = some row) (hother : other.parameters? = some row) : func = other := by
  obtain ⟨curve, rfl, hcurve⟩ := exists_shape hfunc
  obtain ⟨curve', rfl, hcurve'⟩ := exists_shape hother
  have hfamily : curve.family = curve'.family := hfamily
  have h := Shape.ofRow?_of_parameters hcurve
  rw [hfamily, Shape.ofRow?_of_parameters hcurve'] at h
  rw [Option.some.inj h]

theorem length_of_parameters (h : func.parameters? = some row) : row.length = func.family.fields.length := by
  obtain ⟨curve, rfl, hcurve⟩ := exists_shape h
  exact Shape.length_of_parameters hcurve

theorem hasRows_of_parameters (h : func.parameters? = some row) : func.family.hasRows = true := by
  rw [hasRows_eq, h]
  rfl

/-- A name and a row that a function is written as, up to flags, are checked as this function. -/
theorem ofParameters_of_parameters (h : func.parameters? = some (func.family.normalRow row)) :
    ofParameters func.family.name row = func.checked := by
  have hlength := length_of_parameters h
  rw [Family.normalRow, List.length_mapIdx] at hlength
  obtain ⟨other, hfamily, hother, hchecked⟩ := ofParameters_of_length (hasRows_of_parameters h) hlength
  rw [hchecked, eq_of_parameters hfamily hother h]

/-- Why a name and a row make no function. -/
inductive Refused (name : String) (row : List Float) : FunctionFault Float → Prop where
  /-- no family has the name -/
  | unknown (h : ∀ family : Family, family.name ≠ name) : Refused name row (.unknownFamily name)
  /-- the functions of the family are not written as rows -/
  | composite (func : Membership Float) (hname : func.family.name = name) (h : func.parameters? = none) :
      Refused name row (.unknownFamily name)
  /-- they are, but the rows are longer or shorter -/
  | length (func : Membership Float) {written : List Float} (hname : func.family.name = name)
      (h : func.parameters? = some written) (hlength : row.length ≠ written.length) :
      Refused name row (.parameterCount name written.length row.length)
  /-- the function that is written as the row breaks a condition -/
  | rejected (func : Membership Float) {fault : FunctionFault Float} (hname : func.family.name = name)
      (hrow : func.parameters? = some (func.family.normalRow row)) (h : func.validate = .error fault) :
      Refused name row fault

/-- These are all the ways to be refused, beside the validation of the curve itself. -/
theorem ofParameters_eq_error_iff : ofParameters name row = .error fault ↔ Refused name row fault := by
  constructor
  · intro h
    -- the checks in their order: the name, the length of the row, the curve itself
    by_cases hname : ∃ family : Family, family.name = name
    · obtain ⟨family, rfl⟩ := hname
      cases hrows : family.hasRows with
      | false =>
        obtain ⟨func, rfl, hnone⟩ := Family.exists_composite hrows
        rw [ofParameters_of_composite hrows] at h
        cases h
        exact .composite func rfl hnone
      | true =>
        by_cases hlength : row.length = family.fields.length
        · obtain ⟨func, rfl, hrow, hchecked⟩ := ofParameters_of_length hrows hlength
          rw [hchecked, checked_eq_error_iff] at h
          exact .rejected func rfl hrow h
        · -- any row of the right length shows how long the rows of the family are
          have hzeros : (List.replicate family.fields.length (0.0 : Float)).length = family.fields.length :=
            List.length_replicate
          obtain ⟨func, rfl, hrow, -⟩ := ofParameters_of_length hrows hzeros
          rw [ofParameters_of_length_ne hrows hlength] at h
          cases h
          rw [← length_of_parameters hrow] at hlength ⊢
          exact .length func rfl hrow hlength
    · have hname : ∀ family : Family, family.name ≠ name := fun family h => hname ⟨family, h⟩
      rw [ofParameters_of_unknown hname] at h
      cases h
      exact .unknown hname
  · intro h
    cases h with
    | unknown h => exact ofParameters_of_unknown h
    | composite func hname h =>
      subst hname
      exact ofParameters_of_composite (by rw [hasRows_eq, h]; rfl)
    | length func hname h hlength =>
      subst hname
      rw [length_of_parameters h] at hlength ⊢
      exact ofParameters_of_length_ne (hasRows_of_parameters h) hlength
    | rejected func hname hrow h =>
      subst hname
      rw [ofParameters_of_parameters hrow]
      exact checked_eq_error_iff.mpr h

/-- What is read passes the conditions, and is written as the row that was read. -/
theorem parameters_of_ofParameters (h : ofParameters name row = .ok func) :
    func.validate = .ok () ∧ func.family.name = name ∧ func.parameters? = some (func.family.normalRow row) := by
  have hname : ∃ family : Family, family.name = name := by
    by_contra hname
    rw [ofParameters_of_unknown fun family h => hname ⟨family, h⟩] at h
    cases h
  obtain ⟨family, rfl⟩ := hname
  have hrows : family.hasRows = true := by
    by_contra hrows
    rw [ofParameters_of_composite (Bool.eq_false_iff.mpr hrows)] at h
    cases h
  have hlength : row.length = family.fields.length := by
    by_contra hlength
    rw [ofParameters_of_length_ne hrows hlength] at h
    cases h
  obtain ⟨made, rfl, hrow, hchecked⟩ := ofParameters_of_length hrows hlength
  rw [hchecked] at h
  obtain ⟨hvalid, rfl⟩ := checked_eq_ok_iff.mp h
  exact ⟨hvalid, rfl, hrow⟩

/-- **Accepted functions and their rows are two forms of the same,** for every name and every list of
    doubles, and what is refused is refused for one of the three reasons. -/
theorem ofParameters_roundTrip :
    (∀ (func : Membership Float) (row : List Float), func.validate = .ok () → func.parameters? = some row →
      ofParameters func.family.name row = .ok func) ∧
    (∀ (name : String) (row : List Float) (func : Membership Float), ofParameters name row = .ok func →
      func.validate = .ok () ∧ func.family.name = name ∧
        func.parameters? = some (func.family.normalRow row)) ∧
    ∀ (name : String) (row : List Float) (fault : FunctionFault Float),
      ofParameters name row = .error fault ↔ Refused name row fault := by
  refine ⟨fun func row hvalid hrow => ?_, fun _ _ _ => parameters_of_ofParameters,
    fun _ _ _ => ofParameters_eq_error_iff⟩
  obtain ⟨curve, rfl, hcurve⟩ := exists_shape hrow
  have hnormal : curve.family.normalRow row = row := Shape.normalRow_of_parameters hcurve
  have hrow : (shape curve).parameters? = some ((shape curve).family.normalRow row) :=
    hrow.trans (congrArg some hnormal.symm)
  rw [ofParameters_of_parameters hrow]
  exact checked_eq_ok_iff.mpr ⟨hvalid, rfl⟩

/-- A falling ramp, from the row that it is written as and from one with another flag. -/
theorem ofParameters_roundTrip_flag :
    let func : Membership Float := .shape (.boundedLinear (-5.0) 10.0 0.8 0.2 true)
    func.validate = .ok () ∧ func.parameters? = some [-5.0, 10.0, 0.8, 0.2, 1.0] ∧
      ofParameters "bounded_linear" [-5.0, 10.0, 0.8, 0.2, 1.0] = .ok func ∧
      ofParameters "bounded_linear" [-5.0, 10.0, 0.8, 0.2, -7.5] = .ok func ∧
      func.family.normalRow [-5.0, 10.0, 0.8, 0.2, -7.5] = [-5.0, 10.0, 0.8, 0.2, 1.0] := by
  intro func
  have hvalid : func.validate = .ok () := outcome_of_toOption (by decide +kernel)
  have hread : ofParameters "bounded_linear" [-5.0, 10.0, 0.8, 0.2, -7.5] = .ok func := by
    rw [ofParameters, show Family.ofName? "bounded_linear" = some .boundedLinear by decide]
    exact checked_eq_ok_iff.mpr ⟨hvalid, rfl⟩
  obtain ⟨hwrite, hrow, -⟩ := ofParameters_roundTrip
  obtain ⟨-, -, hnormal⟩ := hrow _ _ _ hread
  exact ⟨hvalid, rfl, hwrite func _ hvalid rfl, hread, (Option.some.inj hnormal).symm⟩

end Membership

end FuzzyInference

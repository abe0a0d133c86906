import FuzzyInference.Membership.Expression
import FuzzyInference.Membership.Parameters
import FuzzyInference.Proofs.Config.Function
import FuzzyInference.Proofs.Double.Order
import FuzzyInference.Proofs.Store.Action

/-!
# Accepted functions

A function that was made by the constructors passes the conditions on functions, although some of the
constructors check nothing: what they add has no parameters, or parameters that are known to be in
order. And a function that passes the conditions holds no NaN, since every number of it was compared or
asked for.

## Contents
- `Crafted`: made by constructors from functions that are there already. `crafted_of_build`,
  `crafted_of_ofParameters`: requests and rows make such functions.
- `Crafted.accepted`: these pass the conditions.
- `not_isNaN_of_accepted`: no NaN in a function that passes them.
-/

namespace FuzzyInference

open Scalar

/-! ## Conditions -/

namespace Membership

section Conditions

variable {α : Type} [Scalar α]

theorem checked_eq_ok_iff {func made : Membership α} :
    func.checked = .ok made ↔ func.validate = .ok () ∧ made = func := by
  unfold checked
  rw [check_bind_eq_ok_iff]
  exact and_congr_right' ⟨fun h => (Except.ok.inj h).symm, fun h => congrArg Except.ok h.symm⟩

/-- A combination is made exactly when its operator accepts that many operands. -/
theorem combined_eq_ok_iff {op : Combinator α} {operands : List (Membership α)}
    {made : Membership α} :
    combined op operands = .ok made ↔
      op.validate operands.length = .ok () ∧ made = combination op operands := by
  unfold combined
  rw [check_bind_eq_ok_iff]
  exact and_congr_right' ⟨fun h => (Except.ok.inj h).symm, fun h => congrArg Except.ok h.symm⟩

theorem validateAll_eq_ok_iff {funcs : List (Membership α)} :
    validateAll funcs = .ok () ↔ ∀ func ∈ funcs, func.validate = .ok () := by
  induction funcs with
  | nil => simp [validateAll]
  | cons func funcs ih =>
    rw [validateAll, check_bind_eq_ok_iff, ih, List.forall_mem_cons]

end Conditions

end Membership

/-! ## Constructors -/

section Constructors

variable {α : Type} [Scalar α]

/-- A function that is known, or made from such functions by the constructors, checked or not. -/
inductive Crafted (known : Membership α → Prop) : Membership α → Prop where
  | known {func : Membership α} (h : known func) : Crafted known func
  | shape {curve : Shape α} {made : Membership α}
      (h : (Membership.shape curve).checked = .ok made) : Crafted known made
  | inv {func : Membership α} (inner : Crafted known func) : Crafted known (.inv func)
  | cut {floor ceiling : α} {func made : Membership α} {floorClip ceilingClip : Option α}
      (inner : Crafted known func)
      (h : Membership.cut floor ceiling func floorClip ceilingClip = .ok made) : Crafted known made
  | normalized {height : α} {func made : Membership α} (inner : Crafted known func)
      (h : Membership.normalized height func = .ok made) : Crafted known made
  | moderate {func : Membership α} (inner : Crafted known func) : Crafted known (.moderate func)
  | raised {exponent : α} {func made : Membership α} (inner : Crafted known func)
      (h : Membership.raised exponent func = .ok made) : Crafted known made
  | intensify {func : Membership α} (inner : Crafted known func) : Crafted known (.intensify func)
  | hedged (hedge : Hedge) {func : Membership α} (inner : Crafted known func) :
      Crafted known (func.hedged hedge)
  | combined {op : Combinator α} {operands : List (Membership α)} {made : Membership α}
      (inner : ∀ func ∈ operands, Crafted known func)
      (h : Membership.combined op operands = .ok made) : Crafted known made

variable {known : Membership α → Prop}

mutual

/-- What a request builds is made by constructors. -/
theorem crafted_of_build {e : Expression α} {func : Membership α} (h : e.build = .ok func) :
    Crafted known func := by
  -- each constructor builds its operand first and passes its errors on
  cases e with
  | shape curve => exact .shape h
  | triangular low high peak core unsupported => exact .shape h
  | triangularSigmoid low high peak => exact .shape h
  | inv e =>
    obtain ⟨inner, hinner, h⟩ := bind_eq_ok_iff.mp h
    cases h
    exact .inv (crafted_of_build hinner)
  | alpha floor ceiling e floorClip ceilingClip =>
    obtain ⟨inner, hinner, h⟩ := bind_eq_ok_iff.mp h
    exact .cut (crafted_of_build hinner) h
  | normalize height e =>
    obtain ⟨inner, hinner, h⟩ := bind_eq_ok_iff.mp h
    exact .normalized (crafted_of_build hinner) h
  | moderate e =>
    obtain ⟨inner, hinner, h⟩ := bind_eq_ok_iff.mp h
    cases h
    exact .moderate (crafted_of_build hinner)
  | power exponent e =>
    obtain ⟨inner, hinner, h⟩ := bind_eq_ok_iff.mp h
    exact .raised (crafted_of_build hinner) h
  | intensify e =>
    obtain ⟨inner, hinner, h⟩ := bind_eq_ok_iff.mp h
    cases h
    exact .intensify (crafted_of_build hinner)
  | hedged hedge e =>
    obtain ⟨inner, hinner, h⟩ := bind_eq_ok_iff.mp h
    cases h
    exact .hedged hedge (crafted_of_build hinner)
  | combination op es =>
    rw [Expression.build, check_bind_eq_ok_iff] at h
    obtain ⟨operands, hoperands, h⟩ := bind_eq_ok_iff.mp h.2
    exact .combined (crafted_of_buildAll hoperands) h

/-- Functions built from expressions are crafted, by the same induction for all operands. -/
theorem crafted_of_buildAll {es : List (Expression α)} {funcs : List (Membership α)}
    (h : Expression.buildAll es = .ok funcs) : ∀ func ∈ funcs, Crafted known func := by
  cases es with
  | nil =>
    cases h
    simp
  | cons e es =>
    rw [Expression.buildAll] at h
    obtain ⟨func, hfunc, h⟩ := bind_eq_ok_iff.mp h
    obtain ⟨funcs, hfuncs, h⟩ := bind_eq_ok_iff.mp h
    cases h
    exact List.forall_mem_cons.mpr ⟨crafted_of_build hfunc, crafted_of_buildAll hfuncs⟩

end

/-- So is what a row of numbers makes. -/
theorem crafted_of_ofParameters {name : String} {row : List α} {func : Membership α}
    (h : Membership.ofParameters name row = .ok func) : Crafted known func := by
  unfold Membership.ofParameters at h
  split at h
  · cases h
  · split at h
    · split at h
      · exact .shape h
      · cases h
    · cases h

end Constructors

/-! ## Functions made are accepted -/

namespace Membership

/-- A power validates with its base, given a finite exponent that is not negative. -/
theorem validate_power {exponent : Float} {func : Membership Float}
    (hexponent : (isFinite exponent && (0.0 : Float) ≤ exponent) = true)
    (h : func.validate = .ok ()) : (power exponent func).validate = .ok () :=
  check_bind_eq_ok_iff.mpr ⟨ensure_eq_ok_iff.mpr hexponent, h⟩

/-- The exponents of hedges need no check. -/
theorem validate_hedged (hedge : Hedge) {func : Membership Float} (h : func.validate = .ok ()) :
    (func.hedged hedge).validate = .ok () := by
  cases hedge <;> exact validate_power (by decide +kernel) h

end Membership

/-- What constructors make from functions that validate does so too. The induction is on the way the
function was made. -/
theorem Crafted.accepted {known : Membership Float → Prop}
    (hknown : ∀ func, known func → func.validate = .ok ()) {func : Membership Float}
    (h : Crafted known func) : func.validate = .ok () := by
  induction h with
  | known h => exact hknown _ h
  | shape h | cut _ h | normalized _ h | raised _ h =>
    obtain ⟨hvalid, rfl⟩ := Membership.checked_eq_ok_iff.mp h
    exact hvalid
  | inv _ ih | moderate _ ih | intensify _ ih => exact ih
  | hedged hedge _ ih => exact Membership.validate_hedged hedge ih
  | combined _ h ih =>
    obtain ⟨hop, rfl⟩ := Membership.combined_eq_ok_iff.mp h
    exact check_bind_eq_ok_iff.mpr ⟨hop, Membership.validateAll_eq_ok_iff.mpr ih⟩

/-! ## Accepted functions hold no NaN -/

section Numbers

open Double

theorem not_isNaN_of_checkBounds {low high : Float} (h : checkBounds low high = .ok ()) :
    isNaN low = false ∧ isNaN high = false :=
  not_isNaN_of_lt (of_decide_eq_true (ensure_eq_ok_iff.mp h))

theorem not_isNaN_of_checkRamp {low high : Float} (h : checkRamp low high = .ok ()) :
    isNaN low = false ∧ isNaN high = false :=
  not_isNaN_of_le (of_decide_eq_true (ensure_eq_ok_iff.mp h))

theorem not_isNaN_of_checkPeak {low peak high : Float} (h : checkPeak low peak high = .ok ()) :
    isNaN low = false ∧ isNaN peak = false ∧ isNaN high = false := by
  obtain ⟨hlow, hhigh⟩ := Bool.and_eq_true_iff.mp (ensure_eq_ok_iff.mp h)
  have hl := not_isNaN_of_lt (of_decide_eq_true hlow)
  exact ⟨hl.1, not_isNaN_of_lt (of_decide_eq_true hhigh)⟩

theorem not_isNaN_of_inUnit {x : Float} (h : inUnit x = true) : isNaN x = false :=
  (not_isNaN_of_le (of_decide_eq_true (Bool.and_eq_true_iff.mp h).1)).2

theorem not_isNaN_of_isHeight {x : Float} (h : isHeight x = true) : isNaN x = false :=
  (not_isNaN_of_lt (of_decide_eq_true (Bool.and_eq_true_iff.mp h).1)).2

theorem not_isNaN_of_checkHeights {core unsupported : Float} {strict : Bool}
    (h : checkHeights core unsupported strict = .ok ()) :
    isNaN core = false ∧ isNaN unsupported = false := by
  obtain ⟨h, hcore⟩ := Bool.and_eq_true_iff.mp (ensure_eq_ok_iff.mp h)
  have hunsupported := (Bool.and_eq_true_iff.mp h).1
  exact ⟨(not_isNaN_of_le (of_decide_eq_true hcore)).1,
    (not_isNaN_of_le (of_decide_eq_true hunsupported)).2⟩

/-- At least two numbers of which each is less than the next. -/
theorem not_isNaN_of_isIncreasing {xs : List Float} (hlength : 2 ≤ xs.length)
    (h : isIncreasing xs = true) : ∀ x ∈ xs, isNaN x = false := by
  induction xs with
  | nil => simp
  | cons x xs ih =>
    cases xs with
    | nil => simp at hlength
    | cons y rest =>
      obtain ⟨hxy, hrest⟩ := Bool.and_eq_true_iff.mp h
      have hnumbers := not_isNaN_of_lt (of_decide_eq_true hxy)
      refine List.forall_mem_cons.mpr ⟨hnumbers.1, ?_⟩
      -- the last number was compared with the one before it only
      cases rest with
      | nil => exact List.forall_mem_singleton.mpr hnumbers.2
      | cons z rest => exact ih (by simp) hrest

/-- No parameter of an accepted shape is NaN. One case for each family's check. -/
theorem Shape.not_isNaN_of_accepted {curve : Shape Float} (h : curve.validate = .ok ()) :
    ∀ x ∈ curve.numbers, isNaN x = false := by
  -- a comparison with NaN fails, so every check that compares a parameter excludes it
  cases curve with
  | identity => simp [numbers]
  | constant membership => simpa [numbers] using not_isNaN_of_inUnit (ensure_eq_ok_iff.mp h)
  | linear gradient offset =>
    obtain ⟨hgradient, hoffset⟩ := Bool.and_eq_true_iff.mp (ensure_eq_ok_iff.mp h)
    simp [numbers, not_isNaN_of_isFinite hgradient, not_isNaN_of_isFinite hoffset]
  | rectangular low high core unsupported =>
    obtain ⟨hbounds, hheights⟩ := check_bind_eq_ok_iff.mp h
    simp [numbers, not_isNaN_of_checkBounds hbounds, not_isNaN_of_checkHeights hheights]
  | triangular low high peak core unsupported =>
    obtain ⟨hbounds, h⟩ := check_bind_eq_ok_iff.mp h
    obtain ⟨hpeak, hheights⟩ := check_bind_eq_ok_iff.mp h
    simp [numbers, not_isNaN_of_checkPeak hpeak, not_isNaN_of_checkHeights hheights]
  | trapezoid low coreLow coreHigh high core unsupported =>
    obtain ⟨hbounds, hheights⟩ := check_bind_eq_ok_iff.mp h
    obtain ⟨h, hhigh⟩ := Bool.and_eq_true_iff.mp (ensure_eq_ok_iff.mp hbounds)
    have hlow := not_isNaN_of_lt (of_decide_eq_true (Bool.and_eq_true_iff.mp h).1)
    simp [numbers, hlow, not_isNaN_of_lt (of_decide_eq_true hhigh),
      not_isNaN_of_checkHeights hheights]
  | boundedLinear low high core unsupported inverse =>
    obtain ⟨hbounds, hheights⟩ := check_bind_eq_ok_iff.mp h
    simp [numbers, not_isNaN_of_checkRamp hbounds, not_isNaN_of_checkHeights hheights]
  | rising low high => simp [numbers, not_isNaN_of_checkRamp h]
  | falling low high => simp [numbers, not_isNaN_of_checkRamp h]
  | sigmoid limit steepness midpoint =>
    obtain ⟨hlimit, h⟩ := check_bind_eq_ok_iff.mp h
    have hnumbers : isNaN steepness = false ∧ isNaN midpoint = false := by
      simpa using ensure_eq_ok_iff.mp h
    simp [numbers, hnumbers, not_isNaN_of_isHeight (ensure_eq_ok_iff.mp hlimit)]
  | boundedSigmoid low high inverse => simp [numbers, not_isNaN_of_checkBounds h]
  | simpleSigmoid steepness => simpa [numbers] using ensure_eq_ok_iff.mp h
  | triangularSigmoid low high peak =>
    obtain ⟨hbounds, hpeak⟩ := check_bind_eq_ok_iff.mp h
    simp [numbers, not_isNaN_of_checkPeak hpeak]
  | gauss center sharpness height =>
    obtain ⟨hcenter, h⟩ := check_bind_eq_ok_iff.mp h
    obtain ⟨hsharpness, hheight⟩ := check_bind_eq_ok_iff.mp h
    have hcenter' : isNaN center = false := by simpa using ensure_eq_ok_iff.mp hcenter
    simp [numbers, hcenter', not_isNaN_of_lt (of_decide_eq_true (ensure_eq_ok_iff.mp hsharpness)),
      not_isNaN_of_isHeight (ensure_eq_ok_iff.mp hheight)]
  | boundedExponential rate limit =>
    obtain ⟨hrate, hlimit⟩ := check_bind_eq_ok_iff.mp h
    simp [numbers, not_isNaN_of_lt (of_decide_eq_true (ensure_eq_ok_iff.mp hrate)),
      not_isNaN_of_isHeight (ensure_eq_ok_iff.mp hlimit)]
  | singleton location elsewhere height =>
    obtain ⟨hlocation, hheights⟩ := check_bind_eq_ok_iff.mp h
    obtain ⟨h, hheight⟩ := Bool.and_eq_true_iff.mp (ensure_eq_ok_iff.mp hheights)
    have hlocation' : isNaN location = false := by simpa using ensure_eq_ok_iff.mp hlocation
    simp [numbers, hlocation', not_isNaN_of_le (of_decide_eq_true (Bool.and_eq_true_iff.mp h).1),
      not_isNaN_of_le (of_decide_eq_true hheight)]
  | piecewise points =>
    obtain ⟨hlength, h⟩ := check_bind_eq_ok_iff.mp h
    obtain ⟨hincreasing, hunit⟩ := check_bind_eq_ok_iff.mp h
    have hxs : ∀ x ∈ points.map Prod.fst, isNaN x = false := not_isNaN_of_isIncreasing
      (by simpa using ensure_eq_ok_iff.mp hlength) (ensure_eq_ok_iff.mp hincreasing)
    intro x hx
    obtain ⟨⟨y, m⟩, hp, hx⟩ := List.mem_flatMap.mp hx
    rcases List.mem_pair.mp hx with rfl | rfl
    · exact hxs x (List.mem_map_of_mem hp)
    · exact not_isNaN_of_inUnit (List.all_eq_true.mp (ensure_eq_ok_iff.mp hunit) (y, x) hp)

theorem Combinator.not_isNaN_of_validate {op : Combinator Float} {operands : Nat}
    (h : op.validate operands = .ok ()) : ∀ x ∈ op.weight?.toList, isNaN x = false := by
  obtain ⟨hweight, -⟩ := check_bind_eq_ok_iff.mp h
  unfold checkWeight at hweight
  cases hw : op.weight? with
  | none => simp
  | some weight =>
    rw [hw] at hweight
    simpa using not_isNaN_of_inUnit (ensure_eq_ok_iff.mp hweight)

namespace Membership

mutual

/-- **An accepted function holds no NaN,** neither in its own numbers nor in those of its operands. -/
theorem not_isNaN_of_accepted (func : Membership Float) (h : func.validate = .ok ()) :
    ∀ x ∈ func.numbers, isNaN x = false := by
  -- the clips and the height are checked by comparison, as a shape's parameters are
  cases func with
  | shape curve => exact Shape.not_isNaN_of_accepted h
  | inv func => exact not_isNaN_of_accepted func h
  | alpha floor ceiling floorClip ceilingClip func =>
    obtain ⟨hthresholds, h⟩ := check_bind_eq_ok_iff.mp h
    obtain ⟨hclips, h⟩ := check_bind_eq_ok_iff.mp h
    obtain ⟨hboth, hceiling⟩ := Bool.and_eq_true_iff.mp (ensure_eq_ok_iff.mp hthresholds)
    obtain ⟨hfloorClip, hceilingClip⟩ := Bool.and_eq_true_iff.mp (ensure_eq_ok_iff.mp hclips)
    have hthreshold := not_isNaN_of_le (of_decide_eq_true (Bool.and_eq_true_iff.mp hboth).2)
    simp only [numbers, List.forall_mem_cons]
    exact ⟨hthreshold.1, hthreshold.2, not_isNaN_of_inUnit hfloorClip,
      not_isNaN_of_inUnit hceilingClip, not_isNaN_of_accepted func h⟩
  | normalize height func =>
    obtain ⟨hheight, h⟩ := check_bind_eq_ok_iff.mp h
    exact List.forall_mem_cons.mpr ⟨not_isNaN_of_isHeight (ensure_eq_ok_iff.mp hheight),
      not_isNaN_of_accepted func h⟩
  | moderate func => exact not_isNaN_of_accepted func h
  | power exponent func =>
    obtain ⟨hexponent, h⟩ := check_bind_eq_ok_iff.mp h
    have hfinite := (Bool.and_eq_true_iff.mp (ensure_eq_ok_iff.mp hexponent)).1
    exact List.forall_mem_cons.mpr ⟨not_isNaN_of_isFinite hfinite, not_isNaN_of_accepted func h⟩
  | intensify func => exact not_isNaN_of_accepted func h
  | combination op operands =>
    obtain ⟨hop, h⟩ := check_bind_eq_ok_iff.mp h
    intro x hx
    rcases List.mem_append.mp hx with hx | hx
    · exact Combinator.not_isNaN_of_validate hop x hx
    · exact not_isNaN_of_allAccepted operands h x hx

theorem not_isNaN_of_allAccepted (funcs : List (Membership Float))
    (h : validateAll funcs = .ok ()) : ∀ x ∈ numbersOfAll funcs, isNaN x = false := by
  cases funcs with
  | nil => simp [numbersOfAll]
  | cons func funcs =>
    obtain ⟨hfunc, h⟩ := check_bind_eq_ok_iff.mp h
    intro x hx
    rcases List.mem_append.mp hx with hx | hx
    · exact not_isNaN_of_accepted func hfunc x hx
    · exact not_isNaN_of_allAccepted funcs h x hx

end

end Membership

end Numbers

end FuzzyInference

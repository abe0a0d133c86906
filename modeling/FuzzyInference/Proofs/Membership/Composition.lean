import FuzzyInference.Proofs.Combinator.Reduction
import FuzzyInference.Proofs.Double.Elementary
import FuzzyInference.Proofs.Membership.Accepted
import FuzzyInference.Proofs.Membership.Degree

/-!
# Composition keeps degrees

Where the elementary shapes of a function have degrees, the function has one as well. Every operation
rounds, so this is a statement about each connective of two degrees; it then holds of a fold by induction
on the operands and of a function by induction on the tree. The one connective that can leave the unit
interval is the Hamacher sum, and it does so only where the rounded sum of two degrees is more than 1 and
their rounded product together.

## Contents
- `Membership.parts`: a function and all that it is built from.
- `pair_within`, `SumsBounded`, `foldl_pair_within`, `reduce_within`: combinators of degrees.
- `Membership.DegreesAt`, `Membership.evaluate_inUnit`: functions.
- `Membership.hamacherSum_above_one`: a Hamacher sum that is 2.
-/

namespace FuzzyInference

/-! ## What a function is built from -/

namespace Membership

variable {α : Type}

mutual

/-- A function and all that it is built from. -/
def parts : Membership α → List (Membership α)
  | shape curve => [shape curve]
  | inv func => inv func :: parts func
  | alpha floor ceiling floorClip ceilingClip func =>
    alpha floor ceiling floorClip ceilingClip func :: parts func
  | normalize height func => normalize height func :: parts func
  | moderate func => moderate func :: parts func
  | power exponent func => power exponent func :: parts func
  | intensify func => intensify func :: parts func
  | combination op operands => combination op operands :: partsOfAll operands

/-- All that several functions are built from. -/
def partsOfAll : List (Membership α) → List (Membership α)
  | [] => []
  | func :: funcs => parts func ++ partsOfAll funcs

end

end Membership

open Scalar Double

/-! ## Combinators -/

section Reduction

theorem Combinator.weight_within {op : Combinator Float} {operands : Nat} (h : op.validate operands = .ok ()) :
    ∀ w ∈ op.weight?, Within 0 1 w := by
  obtain ⟨hweight, -⟩ := check_bind_eq_ok_iff.mp h
  intro w hw
  unfold checkWeight at hweight
  rw [Option.mem_def.mp hw] at hweight
  exact inUnit_iff.mp (ensure_eq_ok_iff.mp hweight)

variable {E : Elementary Float} {op : Combinator Float} {u v : Float}

/-- The exclusive or of degrees is a degree, since it is one of them or a complement. -/
theorem disjointSum_within (E : Elementary Float) {values : List Float} (h : ∀ u ∈ values, Within 0 1 u) :
    Within 0 1 (@disjointSum Float (withElementary E) values) :=
  @disjointSum_closed Float (withElementary E) values (Within 0 1) (within_zero.mono le_rfl zero_le_one)
    one_sub_within within_of_lesser within_of_greater h

/-- The geometric mean of product and bounded sum of degrees is a degree. -/
theorem gamma_within (hE : PowLaws E) {w : Float} (hw : Within 0 1 w) (hu : Within 0 1 u) (hv : Within 0 1 v) :
    Within 0 1 (E.pow (u * v) (1.0 - w) * E.pow (1.0 - (1.0 - u) * (1.0 - v)) w) := by
  have hpow : ∀ {b e : Float}, Within 0 1 b → Within 0 1 e → Within 0 1 (E.pow b e) := by
    intro b e hb he
    refine inUnit_iff.mp (hE.inUnit (inUnit_iff.mpr hb) he.finite ?_)
    rw [le_iff_value within_zero.finite he.finite, within_zero.value_eq]
    exact he.le
  have hdual := one_sub_within (mul_within (one_sub_within hu) (one_sub_within hv))
  exact mul_within (hpow (mul_within hu hv) (one_sub_within hw)) (hpow hdual hw)

/-- Every connective but one makes a degree of two degrees. -/
theorem pair_within (hE : PowLaws E) (hweight : ∀ w ∈ op.weight?, Within 0 1 w)
    (hop : op = .hamacherSum → value (u + v) ≤ 1 + value (u * v)) (hu : Within 0 1 u) (hv : Within 0 1 v) :
    Within 0 1 (@Combinator.pair Float (withElementary E) op u v) := by
  cases op with
  | min => exact within_of_lesser hu hv
  | max => exact within_of_greater hu hv
  | product => exact mul_within hu hv
  | boundedSum => exact boundedSum_within hu hv
  | lukasiewiczAnd => exact lukasiewiczAnd_within hu hv
  | lukasiewiczOr => exact lukasiewiczOr_within hu hv
  | einsteinProduct => exact einsteinProduct_within hu hv
  | einsteinSum => exact einsteinSum_within hu hv
  | hamacherProduct => exact hamacherProduct_within hu hv
  | hamacherSum => exact hamacherSum_within_one hu hv (hop rfl)
  | lambda w => exact weighted_within (hweight w rfl) (mul_within hu hv) (boundedSum_within hu hv)
  | gamma w => exact gamma_within hE (hweight w rfl) hu hv
  | simpleDisjointSum =>
    exact disjointSum_within E (List.forall_mem_cons.mpr ⟨hu, List.forall_mem_singleton.mpr hv⟩)

/-- While Hamacher sums are folded into a degree, each rounded sum of two degrees is at most 1 and their
    rounded product together. Of the exact ones this is always true. -/
def SumsBounded : Float → List Float → Prop
  | _, [] => True
  | u, v :: rest => value (u + v) ≤ 1 + value (u * v) ∧ SumsBounded (Combinator.hamacherSum.pair u v) rest

/-- One more operand keeps the accumulated value a degree, so all of them do. -/
theorem foldl_pair_within (hE : PowLaws E) (hweight : ∀ w ∈ op.weight?, Within 0 1 w) {vs : List Float}
    (hop : op = .hamacherSum → SumsBounded u vs) (hu : Within 0 1 u) (hvs : ∀ v ∈ vs, Within 0 1 v) :
    Within 0 1 (vs.foldl (@Combinator.pair Float (withElementary E) op) u) := by
  induction vs generalizing u with
  | nil => exact hu
  | cons v vs ih =>
    obtain ⟨hv, hvs⟩ := List.forall_mem_cons.mp hvs
    have hstep := pair_within hE hweight (fun h => (hop h).1) hu hv
    refine ih (fun h => ?_) hstep hvs
    cases h
    exact (hop rfl).2

/-- Every operator keeps degrees, the Hamacher sum where its steps stay bounded. -/
theorem reduce_within (hE : PowLaws E) (hweight : ∀ w ∈ op.weight?, Within 0 1 w) {values : List Float}
    (hop : op = .hamacherSum → ∀ u vs, values = u :: vs → SumsBounded u vs)
    (h : ∀ u ∈ values, Within 0 1 u) :
    Within 0 1 (@Combinator.reduce Float (withElementary E) op values) := by
  by_cases hdisjoint : op = .simpleDisjointSum
  · cases hdisjoint
    exact disjointSum_within E h
  · cases values with
    | nil =>
      cases op with
      | simpleDisjointSum => exact absurd rfl hdisjoint
      | max => exact within_one.mono zero_le_one le_rfl
      | _ => exact within_zero.mono le_rfl zero_le_one
    | cons u vs =>
      obtain ⟨hu, hvs⟩ := List.forall_mem_cons.mp h
      rw [@reduce_cons Float (withElementary E) op hdisjoint]
      exact foldl_pair_within hE hweight (fun h => hop h u vs rfl) hu hvs

end Reduction

/-! ## Trees -/

namespace Membership

section Composition

variable (E : Elementary Float) (x : Float)

/-- At a point the elementary shapes among some functions have degrees, and the Hamacher sums among them add
    up to no more than they should. -/
structure DegreesAt (parts : List (Membership Float)) : Prop where
  shape {curve : Shape Float} (h : Membership.shape curve ∈ parts) :
    inUnit (@Shape.evaluate Float (withElementary E) x curve) = true
  hamacherSum {operands : List (Membership Float)} (h : combination .hamacherSum operands ∈ parts)
    {u : Float} {vs : List Float} (heq : @evaluateAll Float (withElementary E) x operands = u :: vs) :
    SumsBounded u vs

variable {E x}

theorem DegreesAt.mono {ps qs : List (Membership Float)} (h : DegreesAt E x ps) (hsub : ∀ p ∈ qs, p ∈ ps) :
    DegreesAt E x qs :=
  ⟨fun hmem => h.shape (hsub _ hmem), fun hmem => h.hamacherSum (hsub _ hmem)⟩

theorem DegreesAt.tail {p : Membership Float} {ps : List (Membership Float)} (h : DegreesAt E x (p :: ps)) :
    DegreesAt E x ps := h.mono fun _ => List.mem_cons_of_mem _

mutual

/-- A tree of operators keeps what its parts give. The induction is on the tree and, for the
operands of a fold, on their list. -/
theorem evaluate_within (hE : PowLaws E) (func : Membership Float) (hvalid : func.validate = .ok ())
    (h : DegreesAt E x func.parts) : Within 0 1 (@evaluate Float (withElementary E) x func) := by
  cases func with
  | shape curve => exact inUnit_iff.mp (h.shape (List.mem_singleton_self _))
  | inv func => exact one_sub_within (evaluate_within hE func hvalid h.tail)
  | alpha floor ceiling floorClip ceilingClip func =>
    obtain ⟨-, hvalid⟩ := check_bind_eq_ok_iff.mp hvalid
    obtain ⟨hclips, hvalid⟩ := check_bind_eq_ok_iff.mp hvalid
    obtain ⟨hfloor, hceiling⟩ := Bool.and_eq_true_iff.mp (ensure_eq_ok_iff.mp hclips)
    exact clipped_within (inUnit_iff.mp hfloor) (inUnit_iff.mp hceiling)
      (evaluate_within hE func hvalid h.tail)
  | normalize height func =>
    obtain ⟨hheight, hvalid⟩ := check_bind_eq_ok_iff.mp hvalid
    exact normalized_within (evaluate_within hE func hvalid h.tail) (ensure_eq_ok_iff.mp hheight)
  | moderate func => exact moderated_within (evaluate_within hE func hvalid h.tail)
  | power exponent func =>
    obtain ⟨hexponent, hvalid⟩ := check_bind_eq_ok_iff.mp hvalid
    obtain ⟨hfinite, hnonneg⟩ := Bool.and_eq_true_iff.mp (ensure_eq_ok_iff.mp hexponent)
    have hdegree := inUnit_iff.mpr (evaluate_within hE func hvalid h.tail)
    exact inUnit_iff.mp (hE.inUnit hdegree hfinite (of_decide_eq_true hnonneg))
  | intensify func => exact intensified_within (evaluate_within hE func hvalid h.tail)
  -- only the Hamacher sum needs more than degrees for its operands
  | combination op operands =>
    obtain ⟨hop, hvalid⟩ := check_bind_eq_ok_iff.mp hvalid
    refine reduce_within hE (Combinator.weight_within hop) ?_ (evaluateAll_within hE operands hvalid h.tail)
    rintro rfl u vs heq
    exact h.hamacherSum (List.mem_cons_self ..) heq

theorem evaluateAll_within (hE : PowLaws E) (funcs : List (Membership Float))
    (hvalid : validateAll funcs = .ok ()) (h : DegreesAt E x (partsOfAll funcs)) :
    ∀ u ∈ @evaluateAll Float (withElementary E) x funcs, Within 0 1 u := by
  cases funcs with
  | nil => simp [evaluateAll]
  | cons func funcs =>
    obtain ⟨hfunc, hvalid⟩ := check_bind_eq_ok_iff.mp hvalid
    have hfirst := evaluate_within hE func hfunc (h.mono fun _ => List.mem_append_left _)
    exact List.forall_mem_cons.mpr ⟨hfirst,
      evaluateAll_within hE funcs hvalid (h.mono fun _ => List.mem_append_right _)⟩

end

/-- **Composition keeps degrees** in machine numbers, however deep the function is and whatever it is made
    by, as long as its Hamacher sums add up to no more than they should. -/
theorem evaluate_inUnit (hE : PowLaws E) {func : Membership Float} (hvalid : func.validate = .ok ())
    (h : DegreesAt E x func.parts) : inUnit (@evaluate Float (withElementary E) x func) = true :=
  inUnit_iff.mpr (evaluate_within hE func hvalid h)

end Composition

/-- Powers with the exponents 0, 1 and 2. -/
@[reducible] def smallPowers : Elementary Float :=
  ⟨Float.exp, Float.log, Float.sqrt, fun b e => if e == 0.0 then 1.0 else if e == 1.0 then b else b * b⟩

/-- Powers that are 0 or 1 satisfy the laws. -/
theorem powLaws_smallPowers : PowLaws smallPowers := by
  refine ⟨fun {b e} hb _ _ => inUnit_iff.mpr ?_⟩
  have hb := inUnit_iff.mp hb
  show Within 0 1 (if e == 0.0 then 1.0 else if e == 1.0 then b else b * b)
  split
  next => exact within_one.mono zero_le_one le_rfl
  next =>
    split
    next => exact hb
    next => exact mul_within hb hb

/-- Every modifier and two connectives around a Hamacher sum. -/
def nestedSum : Membership Float :=
  .combination (.gamma 1.0)
    [.power 2.0 (.combination .hamacherSum [.shape (.constant 0.5), .moderate (.shape (.constant 0.5))]),
      .normalize 0.75 (.intensify (.alpha 0.25 0.5 0.125 1.0 (.inv (.shape (.rising 0.0 4.0)))))]

theorem evaluate_inUnit_nestedSum :
    nestedSum.validate = .ok () ∧ DegreesAt smallPowers 3.0 nestedSum.parts ∧
      inUnit (@evaluate Float (withElementary smallPowers) 3.0 nestedSum) = true := by
  have hvalid : nestedSum.validate = .ok () := by rfl
  have hdegrees : DegreesAt smallPowers 3.0 nestedSum.parts := by
    constructor
    · intro curve h
      have hcurve : curve = .constant 0.5 ∨ curve = .constant 0.5 ∨ curve = .rising 0.0 4.0 := by
        simpa [nestedSum, parts, partsOfAll] using h
      rcases hcurve with rfl | rfl | rfl <;> decide +kernel
    · intro operands h u vs heq
      have hoperands : operands = [.shape (.constant 0.5), .moderate (.shape (.constant 0.5))] := by
        simpa [nestedSum, parts, partsOfAll] using h
      subst hoperands
      cases heq
      refine ⟨?_, trivial⟩
      have hhalf : Within 0 1 0.5 := within_half.mono (by norm_num) (by norm_num)
      have hproduct := (mul_within hhalf (moderated_within hhalf)).le
      have hsum : (0.5 + moderated 0.5 : Float) = 1.0 := by decide +kernel
      show value (0.5 + moderated 0.5) ≤ 1 + value (0.5 * moderated 0.5)
      rw [hsum, within_one.value_eq]
      linarith
  exact ⟨hvalid, hdegrees, evaluate_inUnit powLaws_smallPowers hvalid hdegrees⟩

/-- **A Hamacher sum of degrees can be 2:** the sum of 1 and the largest degree below it is rounded up. -/
theorem hamacherSum_above_one :
    let func : Membership Float :=
      .combination .hamacherSum [.shape (.constant 0.9999999999999999), .shape (.constant 1.0)]
    func.validate = .ok () ∧ (∀ curve, .shape curve ∈ func.parts → inUnit (curve.evaluate 0.0) = true) ∧
      (func.evaluate 0.0 == 2.0) = true ∧ inUnit (func.evaluate 0.0) = false := by
  refine ⟨rfl, fun curve h => ?_, by decide +kernel, by decide +kernel⟩
  have hcurve : curve = .constant 0.9999999999999999 ∨ curve = .constant 1.0 := by
    simpa [parts, partsOfAll] using h
  rcases hcurve with rfl | rfl <;> decide +kernel

end Membership

end FuzzyInference

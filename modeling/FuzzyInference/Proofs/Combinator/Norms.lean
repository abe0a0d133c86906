import FuzzyInference.Membership.Basic
import FuzzyInference.Proofs.Combinator.Reduction
import FuzzyInference.Proofs.Exact.Norm
import Mathlib.Algebra.Order.Group.MinMax
import Mathlib.Order.Interval.Set.Defs
import Mathlib.Tactic.FieldSimp
import Mathlib.Tactic.Ring

/-!
# Connectives as norms

Five conjunctions are triangular norms and five disjunctions the conorms that are dual to them, read in exact
arithmetic. Commutativity and the rest are shown of each conjunction and carried over to its dual. The
conjunctions that divide are brought into forms in which three operands take the same part, and the special
cases of the code turn out to be the values that these forms leave out. From two operands everything passes
to any number of them by the theory of folds.

## Contents
- `pair_min` and the like: the connectives in exact arithmetic.
- `isNorm_min` and the like: conjunctions. `areDual_min` and the like: disjunctions.
- `NormFamily`: the five pairs. `NormFamily.norm_conorm`: what the two members of a pair are.
- `NormFamily.deMorgan`: each member is what the other one makes of complements, for degrees and functions.
-/

set_option linter.unusedSectionVars false

namespace FuzzyInference

open Scalar

variable {K : Type} [Field K] [LinearOrder K] [IsStrictOrderedRing K] [FloorRing K] [Elementary K]
variable {u v w : K}

/-! ## Connectives in exact arithmetic -/

namespace Combinator

theorem pair_min (u v : K) : pair .min u v = Min.min u v := lesser_eq u v

theorem pair_max (u v : K) : pair .max u v = Max.max u v := greater_eq u v

theorem pair_product (u v : K) : pair .product u v = u * v := rfl

theorem pair_boundedSum (u v : K) : pair .boundedSum u v = u + v - u * v := rfl

theorem pair_lukasiewiczAnd (u v : K) : pair .lukasiewiczAnd u v = Max.max 0 (u + v - 1) := by
  show greater (0.0 : K) (u + v - 1.0) = _
  rw [greater_eq, zero_literal, one_literal]

theorem pair_lukasiewiczOr (u v : K) : pair .lukasiewiczOr u v = Min.min 1 (u + v) := by
  show lesser (1.0 : K) (u + v) = _
  rw [lesser_eq, one_literal]

theorem pair_einsteinProduct (u v : K) :
    pair .einsteinProduct u v = u * v / (2 - (u + v - u * v)) := by
  show u * v / ((2.0 : K) - (u + v - u * v)) = _
  rw [two_literal]

theorem pair_einsteinSum (u v : K) : pair .einsteinSum u v = (u + v) / (1 + u * v) := by
  show (u + v) / ((1.0 : K) + u * v) = _
  rw [one_literal]

theorem pair_hamacherProduct (u v : K) :
    pair .hamacherProduct u v = if u = 0 ∨ v = 0 then 0 else u * v / (u + v - u * v) := by
  show (if (decide (u = (0.0 : K)) || decide (v = (0.0 : K))) = true then (0.0 : K) else _) = _
  simp

theorem pair_hamacherSum (u v : K) :
    pair .hamacherSum u v = if u * v = 1 then 1 else (u + v - 2 * u * v) / (1 - u * v) := by
  show (if decide (u * v = (1.0 : K)) = true then (1.0 : K)
    else (u + v - (2.0 : K) * u * v) / ((1.0 : K) - u * v)) = _
  simp only [two_literal, one_literal, decide_eq_true_eq]

/-! ## Conjunctions are norms -/

theorem isNorm_min : IsNorm (1 : K) (pair .min) where
  neutral_isDegree := isDegree_one
  isDegree {u v} hu hv := by
    rw [pair_min]
    exact ⟨le_min hu.nonneg hv.nonneg, (min_le_left u v).trans hu.le_one⟩
  comm {u v} _ _ := by
    rw [pair_min, pair_min, min_comm]
  assoc {u v w} _ _ _ := by
    simp only [pair_min, min_assoc]
  op_neutral hu := by
    rw [pair_min, min_eq_left hu.le_one]
  mono {u v w} _ _ _ huv := by
    rw [pair_min, pair_min]
    exact min_le_min_right w huv

theorem isNorm_product : IsNorm (1 : K) (pair .product) where
  neutral_isDegree := isDegree_one
  isDegree hu hv := ⟨mul_nonneg hu.nonneg hv.nonneg, mul_le_one₀ hu.le_one hv.nonneg hv.le_one⟩
  comm {u v} _ _ := mul_comm u v
  assoc {u v w} _ _ _ := mul_assoc u v w
  op_neutral {u} _ := mul_one u
  mono _ _ hw huv := mul_le_mul_of_nonneg_right huv hw.nonneg

/-- What three degrees exceed 2 by, however they are taken together. -/
theorem lukasiewicz_three (hw : IsDegree w) :
    Max.max 0 (Max.max 0 (u + v - 1) + w - 1) = Max.max 0 (u + v + w - 2) := by
  rcases max_cases 0 (u + v - 1) with ⟨heq, hle⟩ | ⟨heq, -⟩
  · -- two of them are not above 1 together, so that all three are not above 2
    rw [heq, max_eq_left (by linarith [hw.le_one]), max_eq_left (by linarith [hw.le_one])]
  · rw [heq]
    congr 1
    ring

theorem isNorm_lukasiewiczAnd : IsNorm (1 : K) (pair .lukasiewiczAnd) where
  neutral_isDegree := isDegree_one
  isDegree hu hv := by
    rw [pair_lukasiewiczAnd]
    exact ⟨le_max_left _ _, max_le zero_le_one (by linarith [hu.le_one, hv.le_one])⟩
  comm {u v} _ _ := by
    rw [pair_lukasiewiczAnd, pair_lukasiewiczAnd, add_comm]
  assoc {u v w} hu _ hw := by
    simp only [pair_lukasiewiczAnd]
    rw [lukasiewicz_three hw, add_comm u (Max.max 0 (v + w - 1)), lukasiewicz_three hu]
    congr 1
    ring
  op_neutral hu := by
    rw [pair_lukasiewiczAnd, add_sub_cancel_right, max_eq_right hu.nonneg]
  mono _ _ _ huv := by
    rw [pair_lukasiewiczAnd, pair_lukasiewiczAnd]
    exact max_le_max_left 0 (by linarith)

/-! ### The Einstein product -/

/-- The divisor of the Einstein product, by which it is at least 1. -/
theorem einstein_divisor (u v : K) : 2 - (u + v - u * v) = 1 + (1 - u) * (1 - v) := by ring

theorem one_le_einstein_divisor (hu : IsDegree u) (hv : IsDegree v) : 1 ≤ 2 - (u + v - u * v) := by
  rw [einstein_divisor]
  exact le_add_of_nonneg_right (mul_nonneg hu.complement.nonneg hv.complement.nonneg)

theorem einstein_isDegree (hu : IsDegree u) (hv : IsDegree v) : IsDegree (u * v / (2 - (u + v - u * v))) := by
  have hdivisor := one_le_einstein_divisor hu hv
  have hproduct : u * v ≤ 1 := mul_le_one₀ hu.le_one hv.nonneg hv.le_one
  constructor
  · exact div_nonneg (mul_nonneg hu.nonneg hv.nonneg) (by linarith)
  · exact (div_le_one (by linarith)).mpr (hproduct.trans hdivisor)

/-- Three degrees taken together, in a form that does not show which two were first. -/
theorem einstein_three (hu : IsDegree u) (hv : IsDegree v) (hw : IsDegree w) :
    u * v / (2 - (u + v - u * v)) * w /
        (2 - (u * v / (2 - (u + v - u * v)) + w - u * v / (2 - (u + v - u * v)) * w)) =
      u * v * w / (4 - 2 * (u + v + w) + (u * v + u * w + v * w)) := by
  have hfirst : 2 - (u + v - u * v) ≠ 0 := by linarith [one_le_einstein_divisor hu hv]
  have hsecond := one_le_einstein_divisor (einstein_isDegree hu hv) hw
  have hscaled : 2 - (u * v / (2 - (u + v - u * v)) + w - u * v / (2 - (u + v - u * v)) * w) =
      (4 - 2 * (u + v + w) + (u * v + u * w + v * w)) / (2 - (u + v - u * v)) := by
    field_simp
    ring
  rw [hscaled, div_mul_eq_mul_div, div_div_div_cancel_right₀ hfirst]

/-- Associativity is `einstein_three`, since both bracketings have the same closed form. -/
theorem isNorm_einsteinProduct : IsNorm (1 : K) (pair .einsteinProduct) where
  neutral_isDegree := isDegree_one
  isDegree hu hv := by
    rw [pair_einsteinProduct]
    exact einstein_isDegree hu hv
  comm {u v} _ _ := by
    rw [pair_einsteinProduct, pair_einsteinProduct, mul_comm, add_comm]
  assoc {u v w} hu hv hw := by
    simp only [pair_einsteinProduct]
    rw [einstein_three hu hv hw, mul_comm u (_ / _), add_comm u (_ / _), einstein_three hv hw hu]
    congr 1 <;> ring
  op_neutral {u} _ := by
    rw [pair_einsteinProduct]
    ring_nf
  mono {u v w} hu hv hw huv := by
    rw [pair_einsteinProduct, pair_einsteinProduct]
    have hdividend : u * w ≤ v * w := mul_le_mul_of_nonneg_right huv hw.nonneg
    have hdivisor : 2 - (v + w - v * w) ≤ 2 - (u + w - u * w) := by
      rw [einstein_divisor, einstein_divisor]
      have := mul_le_mul_of_nonneg_right (sub_le_sub_left huv 1) hw.complement.nonneg
      linarith
    have hpos : 0 < 2 - (v + w - v * w) := by linarith [one_le_einstein_divisor hv hw]
    exact div_le_div₀ (mul_nonneg hv.nonneg hw.nonneg) hdividend hpos hdivisor

/-! ### The Hamacher product -/

/-- The Hamacher divisor vanishes only when both operands are 0, which is answered apart. -/
theorem hamacher_divisor_pos (hu : IsDegree u) (hv : IsDegree v) (h0 : u ≠ 0) : 0 < u + v - u * v := by
  have hpos : 0 < u := lt_of_le_of_ne hu.nonneg h0.symm
  have hrest : 0 ≤ v * (1 - u) := mul_nonneg hv.nonneg hu.complement.nonneg
  linarith

/-- Of degrees that are not 0 the reciprocals add up, but for a 1. -/
theorem hamacher_of_ne (hu : u ≠ 0) (hv : v ≠ 0) : pair .hamacherProduct u v = (u⁻¹ + v⁻¹ - 1)⁻¹ := by
  rw [pair_hamacherProduct, if_neg (not_or.mpr ⟨hu, hv⟩)]
  have h : u⁻¹ + v⁻¹ - 1 = (u + v - u * v) / (u * v) := by
    field_simp
    ring
  rw [h, inv_div]

theorem hamacher_zero_left (v : K) : pair .hamacherProduct 0 v = 0 := by
  rw [pair_hamacherProduct, if_pos (Or.inl rfl)]

theorem hamacher_zero_right (u : K) : pair .hamacherProduct u 0 = 0 := by
  rw [pair_hamacherProduct, if_pos (Or.inr rfl)]

/-- The reciprocals of positive degrees are at least 1, so that what they add up to is too. -/
theorem one_le_hamacher_sum (hu : IsDegree u) (hv : IsDegree v) (hu0 : u ≠ 0) (hv0 : v ≠ 0) :
    1 ≤ u⁻¹ + v⁻¹ - 1 := by
  have hu1 := (one_le_inv₀ (lt_of_le_of_ne hu.nonneg hu0.symm)).mpr hu.le_one
  have hv1 := (one_le_inv₀ (lt_of_le_of_ne hv.nonneg hv0.symm)).mpr hv.le_one
  linarith

/-- There are no zero divisors, so no case of the product meets the guard by chance. -/
theorem hamacher_ne_zero (hu : IsDegree u) (hv : IsDegree v) (hu0 : u ≠ 0) (hv0 : v ≠ 0) :
    pair .hamacherProduct u v ≠ 0 := by
  rw [hamacher_of_ne hu0 hv0]
  apply inv_ne_zero
  linarith [one_le_hamacher_sum hu hv hu0 hv0]

theorem hamacher_isDegree (hu : IsDegree u) (hv : IsDegree v) : IsDegree (pair .hamacherProduct u v) := by
  by_cases hu0 : u = 0
  · rw [hu0, hamacher_zero_left]
    exact isDegree_zero
  by_cases hv0 : v = 0
  · rw [hv0, hamacher_zero_right]
    exact isDegree_zero
  rw [hamacher_of_ne hu0 hv0]
  have hsum := one_le_hamacher_sum hu hv hu0 hv0
  exact ⟨inv_nonneg.mpr (zero_le_one.trans hsum), inv_le_one_of_one_le₀ hsum⟩

/-- Associativity goes by cases on zeros, where the guard answers. -/
theorem isNorm_hamacherProduct : IsNorm (1 : K) (pair .hamacherProduct) where
  neutral_isDegree := isDegree_one
  isDegree := hamacher_isDegree
  comm _ _ := by
    simp only [pair_hamacherProduct, or_comm, mul_comm, add_comm]
  assoc {u v w} hu hv hw := by
    -- a 0 among the operands is the result either way
    by_cases hu0 : u = 0
    · simp only [hu0, hamacher_zero_left]
    by_cases hv0 : v = 0
    · simp only [hv0, hamacher_zero_left, hamacher_zero_right]
    by_cases hw0 : w = 0
    · simp only [hw0, hamacher_zero_right]
    rw [hamacher_of_ne (hamacher_ne_zero hu hv hu0 hv0) hw0,
      hamacher_of_ne hu0 (hamacher_ne_zero hv hw hv0 hw0), hamacher_of_ne hu0 hv0,
      hamacher_of_ne hv0 hw0, inv_inv, inv_inv]
    congr 1
    ring
  op_neutral {u} _ := by
    by_cases hu0 : u = 0
    · rw [hu0, hamacher_zero_left]
    · rw [hamacher_of_ne hu0 one_ne_zero, inv_one, add_sub_cancel_right, inv_inv]
  mono {u v w} hu hv hw huv := by
    by_cases hu0 : u = 0
    · rw [hu0, hamacher_zero_left]
      exact (hamacher_isDegree hv hw).nonneg
    by_cases hw0 : w = 0
    · simp only [hw0, hamacher_zero_right, le_refl]
    have hupos : 0 < u := lt_of_le_of_ne hu.nonneg (Ne.symm hu0)
    have hv0 : v ≠ 0 := (hupos.trans_le huv).ne'
    rw [hamacher_of_ne hu0 hw0, hamacher_of_ne hv0 hw0]
    -- what is larger has a smaller reciprocal, and its sum has a larger one again
    apply inv_anti₀
    · linarith [one_le_hamacher_sum hv hw hv0 hw0]
    · linarith [inv_anti₀ hupos huv]

/-! ## Disjunctions are their duals -/

theorem areDual_min : AreDual (pair .min : K → K → K) (pair .max) := by
  constructor
  intro u v _ _
  rw [pair_min, pair_max, min_sub_sub_left, sub_sub_cancel]

theorem areDual_product : AreDual (pair .product : K → K → K) (pair .boundedSum) := by
  constructor
  intro u v _ _
  rw [pair_product, pair_boundedSum]
  ring

theorem areDual_lukasiewicz : AreDual (pair .lukasiewiczAnd : K → K → K) (pair .lukasiewiczOr) := by
  constructor
  intro u v _ _
  have hexcess : 1 - (1 - u + (1 - v) - 1) = u + v := by ring
  rw [pair_lukasiewiczAnd, pair_lukasiewiczOr, ← min_sub_sub_left, sub_zero, hexcess]

theorem one_add_mul_pos (hu : IsDegree u) (hv : IsDegree v) : 0 < 1 + u * v := by
  linarith [mul_nonneg hu.nonneg hv.nonneg]

theorem areDual_einstein : AreDual (pair .einsteinProduct : K → K → K) (pair .einsteinSum) := by
  constructor
  intro u v hu hv
  have hpos := one_add_mul_pos hu hv
  rw [pair_einsteinProduct, pair_einsteinSum, einstein_divisor, sub_sub_cancel, sub_sub_cancel,
    eq_sub_iff_add_eq, ← add_div, div_eq_one_iff_eq hpos.ne']
  ring

/-- Only 1 and 1 have the product 1, and both formulas of the sum are 1 where one operand is. -/
theorem hamacherSum_one_left (v : K) : pair .hamacherSum 1 v = 1 := by
  rw [pair_hamacherSum, one_mul]
  by_cases h : v = 1
  · rw [if_pos h]
  · have hne : 1 - v ≠ 0 := sub_ne_zero.mpr (Ne.symm h)
    rw [if_neg h, div_eq_one_iff_eq hne]
    ring

/-- Complements of 1 and 1 meet the guard on both sides. -/
theorem areDual_hamacher : AreDual (pair .hamacherProduct : K → K → K) (pair .hamacherSum) := by
  constructor
  intro u v hu hv
  by_cases hu1 : u = 1
  · rw [hu1, hamacherSum_one_left v, sub_self, hamacher_zero_left, sub_zero]
  by_cases hv1 : v = 1
  · have hcomm : pair .hamacherSum u 1 = pair .hamacherSum 1 u := by
      simp only [pair_hamacherSum, mul_one, one_mul, add_comm]
    rw [hv1, hcomm, hamacherSum_one_left u, sub_self, hamacher_zero_right, sub_zero]
  have hproduct : u * v < 1 :=
    (mul_le_of_le_one_right hu.nonneg hv.le_one).trans_lt (lt_of_le_of_ne hu.le_one hu1)
  have hdivisor : 1 - u + (1 - v) - (1 - u) * (1 - v) = 1 - u * v := by ring
  have hne : 1 - u * v ≠ 0 := (sub_pos.mpr hproduct).ne'
  have hrest : ¬ (1 - u = 0 ∨ 1 - v = 0) := by
    rw [sub_eq_zero, sub_eq_zero]
    exact not_or.mpr ⟨Ne.symm hu1, Ne.symm hv1⟩
  rw [pair_hamacherProduct, pair_hamacherSum, if_neg hrest, if_neg hproduct.ne, hdivisor,
    eq_sub_iff_add_eq, ← add_div, div_eq_one_iff_eq hne]
  ring

end Combinator

/-! ## Families -/

/-- The families of norms: each has a conjunction and the disjunction that is dual to it. -/
inductive NormFamily where
  | minimum
  | product
  | lukasiewicz
  | einstein
  | hamacher
  deriving DecidableEq, Repr

namespace NormFamily

open Combinator

/-- The conjunction of a family. -/
def conjunction {α : Type} : NormFamily → Combinator α
  | minimum => .min
  | product => .product
  | lukasiewicz => .lukasiewiczAnd
  | einstein => .einsteinProduct
  | hamacher => .hamacherProduct

/-- The disjunction of a family. -/
def disjunction {α : Type} : NormFamily → Combinator α
  | minimum => .max
  | product => .boundedSum
  | lukasiewicz => .lukasiewiczOr
  | einstein => .einsteinSum
  | hamacher => .hamacherSum

variable (family : NormFamily)

/-- Every conjunction is folded pair by pair, and so is every disjunction. -/
theorem conjunction_folds {α : Type} : family.conjunction ≠ (.simpleDisjointSum : Combinator α) := by
  cases family <;> simp [conjunction]

theorem disjunction_folds {α : Type} : family.disjunction ≠ (.simpleDisjointSum : Combinator α) := by
  cases family <;> simp [disjunction]

theorem isNorm_conjunction : IsNorm (1 : K) (pair family.conjunction) := by
  cases family with
  | minimum => exact isNorm_min
  | product => exact isNorm_product
  | lukasiewicz => exact isNorm_lukasiewiczAnd
  | einstein => exact isNorm_einsteinProduct
  | hamacher => exact isNorm_hamacherProduct

theorem areDual : AreDual (pair family.conjunction : K → K → K) (pair family.disjunction) := by
  cases family with
  | minimum => exact areDual_min
  | product => exact areDual_product
  | lukasiewicz => exact areDual_lukasiewicz
  | einstein => exact areDual_einstein
  | hamacher => exact areDual_hamacher

/-- By duality every disjunction is a norm with unit 0. -/
theorem isNorm_disjunction : IsNorm (0 : K) (pair family.disjunction) := by
  have h := family.areDual.isNorm (family.isNorm_conjunction (K := K))
  rwa [sub_self] at h

/-! ### Divisors -/

/-- No conjunction of degrees is computed by a division by zero, -/
theorem pair_conjunction_dividing (byZero : K → K) (hu : IsDegree u) (hv : IsDegree v) :
    @pair K (dividing byZero) family.conjunction u v = pair family.conjunction u v := by
  cases family with
  | einstein =>
    apply dividing_of_ne
    rw [two_literal]
    linarith [one_le_einstein_divisor hu hv]
  | hamacher =>
    show ite _ _ _ = ite _ _ _
    apply ite_congr rfl (fun _ => rfl)
    intro h
    apply dividing_of_ne
    have hne : u ≠ 0 := by
      rintro rfl
      simp at h
    exact (hamacher_divisor_pos hu hv hne).ne'
  | _ => rfl

/-- and no disjunction is. -/
theorem pair_disjunction_dividing (byZero : K → K) (hu : IsDegree u) (hv : IsDegree v) :
    @pair K (dividing byZero) family.disjunction u v = pair family.disjunction u v := by
  cases family with
  | einstein =>
    apply dividing_of_ne
    rw [one_literal]
    exact (one_add_mul_pos hu hv).ne'
  | hamacher =>
    show ite _ _ _ = ite _ _ _
    apply ite_congr rfl (fun _ => rfl)
    intro h
    apply dividing_of_ne
    rw [one_literal, sub_ne_zero]
    intro hone
    apply h
    show decide (u * v = (1.0 : K)) = true
    simp [← hone]
  | _ => rfl

end NormFamily

/-! ### Any number of operands -/

/-- A norm folds degrees to the same result in every order. -/
theorem IsNorm.reduce_perm {neutral : K} {op : Combinator K} (h : IsNorm neutral op.pair)
    (hop : op ≠ .simpleDisjointSum) {values permuted : List K} (hperm : values.Perm permuted)
    (hvalues : ∀ v ∈ values, IsDegree v) : op.reduce values = op.reduce permuted := by
  cases values with
  | nil => rw [hperm.nil_eq]
  | cons u us =>
    cases permuted with
    | nil => cases hperm.eq_nil
    | cons v vs =>
      rw [reduce_cons hop, reduce_cons hop]
      exact h.foldl_eq_of_perm hperm hvalues

namespace NormFamily

open Combinator

/-- **The members of a family are a triangular norm and a conorm.** Each of them has its neutral degree, lies
    on its side of both operands, and is computed without a division by zero. So for any number of degrees
    their order does not matter, and the result lies on that side of all of them. -/
theorem norm_conorm (family : NormFamily) :
    IsNorm (1 : K) (pair family.conjunction) ∧ IsNorm (0 : K) (pair family.disjunction) ∧
      (∀ u v : K, IsDegree u → IsDegree v →
        pair family.conjunction u v ∈ Set.Icc 0 (Min.min u v) ∧
        pair family.disjunction u v ∈ Set.Icc (Max.max u v) 1 ∧
        ∀ byZero : K → K,
          @pair K (dividing byZero) family.conjunction u v = pair family.conjunction u v ∧
          @pair K (dividing byZero) family.disjunction u v = pair family.disjunction u v) ∧
      ∀ values : List K, values ≠ [] → (∀ v ∈ values, IsDegree v) →
        (∀ permuted : List K, values.Perm permuted →
          reduce family.conjunction values = reduce family.conjunction permuted ∧
          reduce family.disjunction values = reduce family.disjunction permuted) ∧
        0 ≤ reduce family.conjunction values ∧ reduce family.disjunction values ≤ 1 ∧
        ∀ v ∈ values, reduce family.conjunction values ≤ v ∧ v ≤ reduce family.disjunction values := by
  have hnorm := family.isNorm_conjunction (K := K)
  have hconorm := family.isNorm_disjunction (K := K)
  refine ⟨hnorm, hconorm, ?pair, ?reduce⟩
  -- the bounds of a conorm come from those of the norm, by duality
  case pair =>
    intro u v hu hv
    have hdegrees : ∀ w ∈ [u, v], IsDegree w := by simp [hu, hv]
    have habove := family.areDual.le_foldl hnorm hdegrees
    refine ⟨⟨(hnorm.isDegree hu hv).nonneg, le_min (hnorm.le_left hu hv) (hnorm.le_right hu hv)⟩,
      ⟨max_le (habove u (by simp)) (habove v (by simp)), (hconorm.isDegree hu hv).le_one⟩, ?_⟩
    intro byZero
    exact ⟨family.pair_conjunction_dividing byZero hu hv, family.pair_disjunction_dividing byZero hu hv⟩
  case reduce =>
    intro values hne hvalues
    refine ⟨?perm, ?bounds⟩
    case perm =>
      intro permuted hperm
      exact ⟨hnorm.reduce_perm family.conjunction_folds hperm hvalues,
        hconorm.reduce_perm family.disjunction_folds hperm hvalues⟩
    case bounds =>
      obtain ⟨u, us, rfl⟩ := List.exists_cons_of_ne_nil hne
      obtain ⟨hu, hus⟩ := List.forall_mem_cons.mp hvalues
      rw [reduce_cons family.conjunction_folds, reduce_cons family.disjunction_folds]
      refine ⟨(hnorm.foldl_isDegree hu hus).nonneg, (hconorm.foldl_isDegree hu hus).le_one, ?_⟩
      intro v hv
      exact ⟨hnorm.foldl_le hvalues v hv, family.areDual.le_foldl hnorm hvalues v hv⟩

/-- Three degrees in another order, with the quotients that have special cases. -/
theorem norm_conorm_hamacher :
    IsDegree (1 / 2 : ℚ) ∧ IsDegree (1 : ℚ) ∧ [0, 1 / 2, 1] ≠ ([] : List ℚ) ∧
      (∀ v ∈ [0, 1 / 2, 1], IsDegree (v : ℚ)) ∧ [0, 1 / 2, 1].Perm ([1 / 2, 1, 0] : List ℚ) ∧
      (∀ byZero : ℚ → ℚ, @pair ℚ (dividing byZero) .hamacherSum (1 / 2) 1 = pair .hamacherSum (1 / 2) 1) ∧
      reduce .hamacherSum [0, 1 / 2, 1] = reduce .hamacherSum ([1 / 2, 1, 0] : List ℚ) := by
  have hdegrees : ∀ v ∈ [0, 1 / 2, 1], IsDegree (v : ℚ) := by
    simp only [List.forall_mem_cons, List.not_mem_nil, false_implies, implies_true, and_true]
    exact ⟨isDegree_zero, ⟨by norm_num, by norm_num⟩, isDegree_one⟩
  have hhalf := hdegrees (1 / 2) (by simp)
  have hperm : [0, 1 / 2, 1].Perm ([1 / 2, 1, 0] : List ℚ) := by decide +kernel
  obtain ⟨-, -, hpair, hreduce⟩ := norm_conorm (K := ℚ) .hamacher
  obtain ⟨-, -, hdivides⟩ := hpair (1 / 2) 1 hhalf isDegree_one
  obtain ⟨horder, -⟩ := hreduce [0, 1 / 2, 1] (by simp) hdegrees
  exact ⟨hhalf, isDegree_one, by simp, hdegrees, hperm, fun byZero => (hdivides byZero).2,
    (horder _ hperm).2⟩

/-! ## De Morgan's laws -/

/-- **Each member of a family is the complement of what the other one makes of complements,** for any number
of degrees and so for functions at every point where they are degrees. -/
theorem deMorgan (family : NormFamily) :
    (∀ values : List K, values ≠ [] → (∀ v ∈ values, IsDegree v) →
      1 - reduce family.conjunction (values.map (1 - ·)) = reduce family.disjunction values) ∧
    ∀ (funcs : List (Membership K)) (x : K), funcs ≠ [] → (∀ func ∈ funcs, IsDegree (func.evaluate x)) →
      (Membership.inv (.combination family.conjunction (funcs.map .inv))).evaluate x =
        (Membership.combination family.disjunction funcs).evaluate x := by
  -- on values the law is duality of the folds; the rest carries it to expressions
  have hreduce : ∀ values : List K, values ≠ [] → (∀ v ∈ values, IsDegree v) →
      1 - reduce family.conjunction (values.map (1 - ·)) = reduce family.disjunction values := by
    intro values hne hvalues
    obtain ⟨u, us, rfl⟩ := List.exists_cons_of_ne_nil hne
    obtain ⟨hu, hus⟩ := List.forall_mem_cons.mp hvalues
    rw [List.map_cons, reduce_cons family.conjunction_folds, reduce_cons family.disjunction_folds]
    exact (family.areDual.foldl_eq family.isNorm_conjunction hu hus).symm
  refine ⟨hreduce, ?_⟩
  intro funcs x hne hfuncs
  have hcomplements : (funcs.map Membership.inv).map (Membership.evaluate x) =
      (funcs.map (Membership.evaluate x)).map (1 - ·) := by
    rw [List.map_map, List.map_map]
    apply List.map_congr_left
    intro func _
    show (1.0 : K) - func.evaluate x = 1 - func.evaluate x
    rw [one_literal]
  show (1.0 : K) - reduce family.conjunction (Membership.evaluateAll x (funcs.map .inv)) =
    reduce family.disjunction (Membership.evaluateAll x funcs)
  rw [Membership.evaluateAll_eq_map, Membership.evaluateAll_eq_map, hcomplements, one_literal]
  apply hreduce
  · simpa using hne
  · simpa using hfuncs

/-- Degrees and functions with a 1 among them, at which the Hamacher operators are defined apart. -/
theorem deMorgan_hamacher :
    let funcs : List (Membership ℚ) := [.shape (.constant 1), .shape .identity]
    [1, 1 / 3] ≠ ([] : List ℚ) ∧ (∀ v ∈ [1, 1 / 3], IsDegree (v : ℚ)) ∧
      1 - reduce .hamacherProduct ([1, 1 / 3].map (1 - ·)) = reduce .hamacherSum ([1, 1 / 3] : List ℚ) ∧
      funcs ≠ [] ∧ (∀ func ∈ funcs, IsDegree (func.evaluate (1 / 3))) ∧
      (Membership.inv (.combination .hamacherProduct (funcs.map .inv))).evaluate (1 / 3) =
        (Membership.combination .hamacherSum funcs).evaluate (1 / 3) := by
  intro funcs
  have hthird : IsDegree (1 / 3 : ℚ) := ⟨by norm_num, by norm_num⟩
  have hvalues : ∀ v ∈ [1, 1 / 3], IsDegree (v : ℚ) := by
    simp only [List.forall_mem_cons, List.not_mem_nil, false_implies, implies_true, and_true]
    exact ⟨isDegree_one, hthird⟩
  have hfuncs : ∀ func ∈ funcs, IsDegree (func.evaluate (1 / 3)) :=
    List.forall_mem_cons.mpr ⟨isDegree_one, List.forall_mem_singleton.mpr hthird⟩
  obtain ⟨hlists, hfunctions⟩ := deMorgan (K := ℚ) .hamacher
  exact ⟨by simp, hvalues, hlists [1, 1 / 3] (by simp) hvalues, by simp [funcs], hfuncs,
    hfunctions funcs (1 / 3) (by simp [funcs]) hfuncs⟩

end NormFamily

end FuzzyInference

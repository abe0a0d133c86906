import FuzzyInference.Proofs.Double.Sum
import FuzzyInference.Proofs.Grid.Count
import FuzzyInference.Proofs.OrderedMap
import FuzzyInference.Proofs.Store.Registry
import FuzzyInference.Rating

/-!
# Which weights are accepted

Weights should add up to 1. Their total is compared with 1 once each factor has one weight, and rounding does
not blur this comparison: numbers near 1 are multiples of 2^-53, and between a billionth and the double that
stands for it there is none. But the comparison asks whether the total is too far from 1, and NaN is not. So
weights with a total of NaN are accepted too, and what is rated with them can be NaN.

## Contents
- `NearOne`: finite, and within a billionth of 1. `too_far_iff`, `not_too_far_iff`: what the comparison says.
- `accepted_iff`: which weights are accepted. `accepted_notANumber`: weights that should not be.
-/

namespace FuzzyInference.WeightedSum

open Scalar Double

variable {x : Float}

/-! ## The distance from 1 -/

/-- A finite number within a billionth of 1. -/
def NearOne (x : Float) : Prop := isFinite x = true ∧ |value x - 1| ≤ 1 / 10 ^ 9

instance : Decidable (NearOne x) := inferInstanceAs (Decidable (_ ∧ _))

theorem within_totalTolerance :
    Within (nearest (1 / 10 ^ 9)) (nearest (1 / 10 ^ 9)) (totalTolerance : Float) :=
  Grid.within_hair

/-- The least distance from 1 that is more than a billionth. -/
theorem le_abs_sub_one (h : 1 / 10 ^ 9 < |value x - 1|) : 9007200 * 2 ^ (-53 : ℤ) ≤ |value x - 1| := by
  by_cases hexponent : -53 ≤ (unpack x).exponent
  · -- x and 1 are multiples of 2^-53, and so is their difference
    obtain ⟨k, hk⟩ := exists_eq_mul_zpow hexponent
    have hone : (2 : ℚ) ^ 53 * 2 ^ (-53 : ℤ) = 1 := by norm_num
    have hdistance : value x - 1 = ((k - 2 ^ 53 : ℤ) : ℚ) * 2 ^ (-53 : ℤ) := by
      rw [hk, Int.cast_sub, Int.cast_pow, Int.cast_ofNat, sub_mul, hone]
    rw [hdistance, abs_mul, abs_of_pos (zpow_pos (two_pos : (0 : ℚ) < 2) (-53)), ← Int.cast_abs] at h ⊢
    have hsteps : 9007199 < |k - 2 ^ 53| := by
      by_contra hfew
      have hle : ((|k - 2 ^ 53| : ℤ) : ℚ) ≤ 9007199 := by exact_mod_cast not_lt.mp hfew
      have hnear := h.trans_le (mul_le_mul_of_nonneg_right hle (zpow_pos two_pos (-53)).le)
      norm_num at hnear
    exact mul_le_mul_of_nonneg_right (by exact_mod_cast hsteps) (zpow_pos two_pos (-53)).le
  · -- smaller numbers are not even half of 1
    have hgap : gap x ≤ 2 ^ (-54 : ℤ) := zpow_le_zpow_right₀ one_le_two (by omega)
    have hhalf : |value x| < 1 / 2 := by
      refine (abs_value_lt x).trans_le ((mul_le_mul_of_nonneg_left hgap (by norm_num)).trans ?_)
      norm_num
    have hdistance : 1 / 2 ≤ |value x - 1| := by
      rw [abs_sub_comm]
      exact le_abs.mpr (Or.inl (by linarith [(abs_lt.mp hhalf).2]))
    exact le_trans (by norm_num) hdistance

/-- Rounding keeps such a distance above the double that stands for a billionth. -/
theorem nearest_billionth_lt (h : 1 / 10 ^ 9 < |value x - 1|) :
    nearest (1 / 10 ^ 9) < nearest |value x - 1| := by
  have hbelow : Exact (18014399 * 2 ^ (-54 : ℤ)) :=
    exact_mul_zpow (m := 18014399) (by norm_num) (by norm_num) (by norm_num)
  have habove : Exact (9007200 * 2 ^ (-53 : ℤ)) :=
    exact_mul_zpow (m := 9007200) (by norm_num) (by norm_num) (by norm_num)
  calc nearest (1 / 10 ^ 9) ≤ nearest (18014399 * 2 ^ (-54 : ℤ)) := nearest_mono (by norm_num)
    _ = 18014399 * 2 ^ (-54 : ℤ) := hbelow.nearest_eq
    _ < 9007200 * 2 ^ (-53 : ℤ) := by norm_num
    _ = nearest (9007200 * 2 ^ (-53 : ℤ)) := habove.nearest_eq.symm
    _ ≤ nearest |value x - 1| := nearest_mono (le_abs_sub_one h)

/-- The comparison of a finite total is exact. -/
theorem too_far_iff (hx : isFinite x = true) :
    (totalTolerance : Float) < abs (x - 1.0) ↔ 1 / 10 ^ 9 < |value x - 1| := by
  have hround := rounds_sub hx within_one.finite
  rw [within_one.value_eq] at hround
  have hvalue : isFinite (x - 1.0) = true →
      ((totalTolerance : Float) < abs (x - 1.0) ↔ nearest (1 / 10 ^ 9) < nearest |value x - 1|) := by
    intro hfinite
    have habs := within_abs hfinite
    rw [lt_iff_value within_totalTolerance.finite habs.finite, within_totalTolerance.value_eq, habs.value_eq,
      hround.value_eq hfinite, abs_nearest]
  rcases le_or_gt |value x - 1| (1 / 10 ^ 9) with hnear | hfar
  · -- so near to 1 nothing overflows
    have hunit := abs_le.mp (hnear.trans (by norm_num : (1 : ℚ) / 10 ^ 9 ≤ 1))
    have hfinite := (hround.within exact_one.neg exact_one hunit.1 hunit.2).finite
    rw [hvalue hfinite]
    exact iff_of_false (nearest_mono hnear).not_gt hnear.not_gt
  · -- farther off the difference may be infinite, which is still above the tolerance
    refine iff_of_true ?_ hfar
    rcases unpack_cases (x - 1.0) with hfinite | ⟨s, hs⟩ | hnan
    · exact (hvalue hfinite).mpr (nearest_billionth_lt hfar)
    · exact lt_infinity within_totalTolerance.finite (abs_infinity hs)
    · have hnumber := hround.not_isNaN
      rw [isNaN_of_notANumber hnan] at hnumber
      cases hnumber

/-- What the comparison lets pass. -/
theorem not_too_far_iff : ¬ (totalTolerance : Float) < abs (x - 1.0) ↔ isNaN x = true ∨ NearOne x := by
  rcases unpack_cases x with hx | ⟨s, hs⟩ | hnan
  · simp [too_far_iff hx, NearOne, hx, not_isNaN_of_isFinite hx]
  · -- an infinity stays as far away as that
    have hdifference : (x - 1.0).toModel.unpack = .infinity s := by
      rw [sub_eq]
      exact infinity_add hs (value_neg within_one.finite).1
    have hfar := lt_infinity within_totalTolerance.finite (abs_infinity hdifference)
    simp [hfar, NearOne, isNaN_of_infinity hs, not_isFinite_of_infinity hs]
  · have hx := isNaN_of_notANumber hnan
    refine iff_of_true (fun h => ?_) (Or.inl hx)
    have hnumber := (not_isNaN_of_lt h).2
    rw [isNaN_abs (isNaN_sub_left hx)] at hnumber
    cases hnumber

/-! ## Accepted weights -/

/-- The total of weights, once each factor has one. -/
def total (weights : List (String × Float)) : Float := sum (OrderedMap.ofList weights).values

/-- Weights are refused exactly when their total is a number that is not near 1. -/
theorem make_eq (weights : List (String × Float)) (target : Domain Float) :
    make weights target =
      if isNaN (total weights) = true ∨ NearOne (total weights) then
        .ok ⟨.ofList weights, target.grid.low, target.grid.high, target.res⟩
      else .error (.weightsTotal (total weights)) := by
  show (ensure (!decide ((totalTolerance : Float) < abs (total weights - 1.0))) _ >>= fun _ => _) = _
  simp only [← not_too_far_iff]
  by_cases h : (totalTolerance : Float) < abs (total weights - 1.0) <;> simp only [h] <;> rfl

/-- **Which weights are accepted.** Every factor has one weight, the last one given for it, at the place where
    the factor first came up. The weights are accepted just when their total from left to right is finite and
    within a billionth of 1, or NaN; otherwise the total is refused. It is NaN just when a weight is, or when an
    infinite weight meets a total that has become the other infinity. If it is not, then the weights that are
    accepted are all finite. -/
theorem accepted_iff (weights : List (String × Float)) (target : Domain Float) :
    ((OrderedMap.ofList weights).entries.map fun e => (e.1, some e.2)) =
        ((weights.map Prod.fst).eraseDups.map fun name =>
          (name, ((weights.filter (·.1 = name)).getLast?).map Prod.snd)) ∧
      make weights target =
        (if isNaN (total weights) = true ∨ NearOne (total weights) then
          .ok ⟨.ofList weights, target.grid.low, target.grid.high, target.res⟩
        else .error (.weightsTotal (total weights))) ∧
      (isNaN (total weights) = true ↔ (∃ v ∈ (OrderedMap.ofList weights).values, isNaN v = true) ∨
        ∃ before v, before ++ [v] <+: (OrderedMap.ofList weights).values ∧
          isInfinite (sum before) = true ∧ isInfinite v = true ∧ sum before ≠ v) ∧
      (NearOne (total weights) → ∀ v ∈ (OrderedMap.ofList weights).values, isFinite v = true) := by
  refine ⟨?_, make_eq weights target, isNaN_sum_iff, fun h v hv => isFinite_of_isFinite_sum h.1 hv⟩
  rw [OrderedMap.entries_eq_map_keys, OrderedMap.keys_ofList]
  exact List.map_congr_left fun name _ => congrArg (Prod.mk name) (OrderedMap.get?_ofList weights name)

/-- **Weights that do not add up to 1 can be accepted:** NaN for one factor, and opposite infinities for two.
    Ratings with them are NaN. -/
theorem accepted_notANumber :
    ∃ target : Domain Float, Domain.make "x" 0 10 1 = .ok target ∧
      (∃ w, make [("a", 0.0 / 0.0)] target = .ok w ∧ ¬ NearOne (total [("a", 0.0 / 0.0)]) ∧
        w.weights.get? "a" = some (0.0 / 0.0) ∧ w.rate [("a", 0.5)] = .ok (0.0 / 0.0)) ∧
      ∃ w, make [("a", 1.0 / 0.0), ("b", -1.0 / 0.0)] target = .ok w ∧
        ¬ NearOne (total [("a", 1.0 / 0.0), ("b", -1.0 / 0.0)]) ∧
        w.rate [("a", 0.5), ("b", 0.5)] = .ok (0.0 / 0.0) := by
  let target : Domain Float := ⟨"x", .ofResolution 0 10 1, 1, .empty, 1⟩
  have htarget : Domain.make "x" 0 10 1 = .ok target := Domain.make_eq_ok_iff.mpr
    ⟨by decide +kernel, by decide +kernel, by decide +kernel, by decide +kernel, rfl⟩
  have haccepted : ∀ {weights : List (String × Float)}, isNaN (total weights) = true →
      make weights target = .ok ⟨.ofList weights, 0, 10, 1⟩ :=
    fun h => (make_eq _ target).trans (if_pos (Or.inl h))
  have hnan : isNaN (total [("a", 0.0 / 0.0)]) = true := by decide +kernel
  have hopposite : isNaN (total [("a", 1.0 / 0.0), ("b", -1.0 / 0.0)]) = true := by decide +kernel
  exact ⟨target, htarget,
    ⟨_, haccepted hnan, by decide +kernel, by decide +kernel, outcome_of_toOption (by decide +kernel)⟩,
    _, haccepted hopposite, by decide +kernel, outcome_of_toOption (by decide +kernel)⟩

end FuzzyInference.WeightedSum

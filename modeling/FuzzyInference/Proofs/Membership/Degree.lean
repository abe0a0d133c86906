import FuzzyInference.Membership.Validate
import FuzzyInference.Proofs.Defuzzify
import FuzzyInference.Proofs.Double.Unit

/-!
# Degrees in machine numbers

What connectives and modifiers make of degrees when every operation rounds. A quotient of two sums stays
in the unit interval where its dividend is not rounded above its divisor; for one connective it is.

## Contents
- `lukasiewiczAnd_within` … `hamacherProduct_within`, `weighted_within`: connectives of two degrees.
- `hamacherSum_within_one`: when a Hamacher sum is a degree.
- `moderated_within`, `intensified_within`, `clipped_within`, `normalized_within`: modifiers.
-/

namespace FuzzyInference

open Scalar Double

/-! ## Connectives of two degrees -/

section Degrees

variable {u v w : Float}

theorem within_of_lesser (hu : Within 0 1 u) (hv : Within 0 1 v) : Within 0 1 (lesser u v) := by
  rcases lesser_cases u v with h | h <;> rw [h] <;> assumption

theorem within_of_greater (hu : Within 0 1 u) (hv : Within 0 1 v) : Within 0 1 (greater u v) := by
  rcases greater_cases u v with h | h <;> rw [h] <;> assumption

theorem one_sub_within (hu : Within 0 1 u) : Within 0 1 (1.0 - u) := by
  have h := within_one.sub hu (by simpa using exact_zero) (by simpa using exact_one)
  simpa using h

/-- Of a number that is not negative what is above 1 is cut off. -/
theorem lesser_one_within {t : Float} (h : (0.0 : Float) ≤ t) : Within 0 1 (lesser t 1.0) := by
  have hnan := (not_isNaN_of_le h).2
  rw [lesser_eq, hnan]
  simp only [Bool.false_eq_true, or_false]
  split
  next => exact within_one.mono zero_le_one le_rfl
  next hle =>
    rw [← le_iff_not_lt hnan within_one.not_isNaN] at hle
    exact inUnit_iff.mp (by simp [inUnit, h, hle])

/-- Rounding cannot take the Łukasiewicz and below 0, as it is cut there. -/
theorem lukasiewiczAnd_within (hu : Within 0 1 u) (hv : Within 0 1 v) :
    Within 0 1 (greater 0.0 (u + v - 1.0)) := by
  have hs := (add_le_two hu hv).sub within_one (by norm_num; exact exact_one.neg) (by norm_num; exact exact_one)
  rw [greater_eq within_zero.not_isNaN]
  split
  next hlt =>
    rw [lt_iff_value within_zero.finite hs.finite, within_zero.value_eq] at hlt
    exact ⟨hs.finite, hlt.le, hs.ge.trans (by norm_num)⟩
  next => exact within_zero.mono le_rfl zero_le_one

theorem lukasiewiczOr_within (hu : Within 0 1 u) (hv : Within 0 1 v) :
    Within 0 1 (lesser 1.0 (u + v)) := by
  have hs := add_le_two hu hv
  rw [lesser_eq]
  split
  next h =>
    have hlt := h.resolve_right (by simp [within_one.not_isNaN])
    rw [lt_iff_value hs.finite within_one.finite, within_one.value_eq] at hlt
    exact ⟨hs.finite, hs.le, hlt.le⟩
  next => exact within_one.mono zero_le_one le_rfl

/-- The divisor is at least the product, rounded as it is. -/
theorem einsteinProduct_within (hu : Within 0 1 u) (hv : Within 0 1 v) :
    Within 0 1 (u * v / (2.0 - (u + v - u * v))) := by
  have hp := mul_within hu hv
  have hd := within_two.sub (boundedSum_within hu hv) (by norm_num; exact exact_one)
    (by norm_num; exact exact_two)
  norm_num at hd
  exact within_div hp.finite hd.finite hp.le (hp.ge.trans hd.le) (by linarith [hd.le])

/-- The quotient stays below 1, since rounding is monotone in the divisor. -/
theorem einsteinSum_within (hu : Within 0 1 u) (hv : Within 0 1 v) :
    Within 0 1 ((u + v) / (1.0 + u * v)) := by
  have hs := add_le_two hu hv
  have hd := one_add_mul_within hu hv
  exact within_div hs.finite hd.finite hs.le (add_le_one_add_mul hu hv) (by linarith [hd.le])

/-- With both operands above 0 the divisor is at least the product. -/
theorem hamacherProduct_within (hu : Within 0 1 u) (hv : Within 0 1 v) :
    Within 0 1 (if u == 0.0 || v == 0.0 then 0.0 else u * v / (u + v - u * v)) := by
  split
  next => exact within_zero.mono le_rfl zero_le_one
  next h =>
    have hzero : ¬ (u == 0.0) = true := fun h0 => h (by simp [h0])
    rw [beq_zero_iff_value hu.finite] at hzero
    have hp := mul_within hu hv
    exact within_div hp.finite (boundedSum_within hu hv).finite hp.le (mul_le_boundedSum hu hv)
      (boundedSum_pos hu hv (lt_of_le_of_ne hu.le (Ne.symm hzero)))

/-- A mean of two degrees, although the weights need not add up to 1. -/
theorem weighted_within (hw : Within 0 1 w) (hu : Within 0 1 u) (hv : Within 0 1 v) :
    Within 0 1 (w * u + (1.0 - w) * v) := by
  have hc := one_sub_within hw
  have hfirst := mul_within_left hw hu
  have hsecond := mul_within_left hc hv
  -- what the complement of the weight is rounded up by is lost in the sum
  have hweights : value w + value (1.0 - w) ≤ 1 + 2 ^ (-53 : ℤ) := by
    have hround := rounds_sub within_one.finite hw.finite
    rw [within_one.value_eq] at hround
    rw [hround.value_eq hc.finite]
    exact (add_nearest_one_sub_le hw.le hw.ge).trans (by norm_num)
  have hround := rounds_add hfirst.finite hsecond.finite
  have hz := hround.within exact_zero exact_two (add_nonneg hfirst.le hsecond.le)
    (by linarith [hfirst.ge, hsecond.ge, hw.ge, hc.ge])
  refine ⟨hz.finite, hz.le, ?_⟩
  rw [hround.value_eq hz.finite]
  exact nearest_le_one (by linarith [hfirst.ge, hsecond.ge])

/-! ### The Hamacher sum -/

section HamacherSum

variable (hu : Within 0 1 u) (hv : Within 0 1 v)
include hu hv

theorem rounds_double_mul : Rounds (2 * (value u * value v)) (2.0 * u * v) := by
  have hround := rounds_mul within_two.finite hu.finite
  rw [within_two.value_eq] at hround
  have hdouble := hround.within hu.exact_double hu.exact_double le_rfl le_rfl
  rw [← mul_assoc, ← hdouble.value_eq]
  exact rounds_mul hdouble.finite hv.finite

/-- Twice a product of degrees is at most 2, rounding included. -/
theorem double_mul_within : Within 0 2 (2.0 * u * v) := by
  have hle : value u * value v ≤ 1 := mul_le_one₀ hu.ge hv.le hv.ge
  have hnonneg : 0 ≤ value u * value v := mul_nonneg hu.le hv.le
  exact (rounds_double_mul hu hv).within exact_zero exact_two (by linarith) (by linarith)

/-- What is divided is not negative, -/
theorem hamacherDividend_within : Within 0 2 (u + v - 2.0 * u * v) := by
  have hs := add_le_two hu hv
  have ht := double_mul_within hu hv
  have hle : value (2.0 * u * v) ≤ value (u + v) := by
    rw [(rounds_double_mul hu hv).value_eq ht.finite, (rounds_add hu.finite hv.finite).value_eq hs.finite]
    refine nearest_mono ?_
    linarith [mul_nonneg (sub_nonneg.mpr hu.ge) hv.le, mul_nonneg hu.le (sub_nonneg.mpr hv.ge)]
  exact (rounds_sub hs.finite ht.finite).within exact_zero exact_two (sub_nonneg.mpr hle)
    (by linarith [hs.ge, ht.le])

theorem rounds_hamacherDivisor : Rounds (1 - value (u * v)) (1.0 - u * v) := by
  have hround := rounds_sub within_one.finite (mul_within hu hv).finite
  rwa [within_one.value_eq] at hround

/-- and what it is divided by is not small. -/
theorem hamacherDivisor_within (h : ¬ (u * v == 1.0) = true) :
    Within (2 ^ (-53 : ℤ)) 1 (1.0 - u * v) := by
  have hp := mul_within hu hv
  rw [beq_iff_value hp.finite within_one.finite, within_one.value_eq] at h
  exact (rounds_hamacherDivisor hu hv).within (exact_two_zpow (by norm_num) (by norm_num)) exact_one
    (hp.le_one_sub h) (by linarith [hp.le])

/-- Where the product is not subnormal, twice the rounded product is taken off the rounded sum. -/
theorem hamacherDividend_eq (h : 2 ^ (-1022 : ℤ) ≤ value u * value v) :
    value (u + v - 2.0 * u * v) = nearest (value (u + v) - 2 * value (u * v)) := by
  have ht := double_mul_within hu hv
  have htwice : value (2.0 * u * v) = 2 * value (u * v) := by
    rw [(rounds_double_mul hu hv).value_eq ht.finite, nearest_double h,
      (rounds_mul hu.finite hv.finite).value_eq (mul_within hu hv).finite]
  rw [← htwice]
  exact (rounds_sub (add_le_two hu hv).finite ht.finite).value_eq (hamacherDividend_within hu hv).finite

/-- Where it is, the sum is hardly above 1 and the divisor is 1. -/
theorem hamacherDividend_le_of_subnormal (h : value u * value v < 2 ^ (-1022 : ℤ)) :
    value (u + v - 2.0 * u * v) ≤ value (1.0 - u * v) := by
  have hs := add_le_two hu hv
  have ht := double_mul_within hu hv
  have hp := mul_within hu hv
  have hround := rounds_hamacherDivisor hu hv
  have hsmall : value (u * v) ≤ 2 ^ (-55 : ℤ) := by
    refine ((rounds_mul hu.finite hv.finite).within exact_zero (exact_two_zpow (by norm_num) (by norm_num))
      (mul_nonneg hu.le hv.le) ?_).ge
    exact h.le.trans (zpow_le_zpow_right₀ one_le_two (by norm_num))
  -- so small a product vanishes beside 1, and the divisor rounds to 1
  have hdivisor : value (1.0 - u * v) = 1 := by
    have hd := hround.within exact_zero exact_one (by linarith [hp.ge]) (by linarith [hp.le])
    rw [hround.value_eq hd.finite]
    rcases hp.le.lt_or_eq with hpos | hzero
    · by_contra hne
      have hlack := hd.le_one_sub (by rwa [hround.value_eq hd.finite])
      have herror : |nearest (1 - value (u * v)) - (1 - value (u * v))| ≤ 2 ^ (0 - 54 : ℤ) :=
        abs_nearest_sub_le (by norm_num) (by linarith [hp.ge]) (by rw [zpow_zero]; linarith)
      rw [← hround.value_eq hd.finite] at herror
      have := (abs_le.mp herror).1
      norm_num at this hlack hsmall
      linarith
    · rw [← hzero, sub_zero, exact_one.nearest_eq]
  -- nor can the sum exceed 1, as one of the operands is tiny
  have hsum : value (u + v) ≤ 1 := by
    rw [(rounds_add hu.finite hv.finite).value_eq hs.finite]
    refine nearest_le_one ?_
    have hsmaller := h.le.trans
      (zpow_le_zpow_right₀ one_le_two (by norm_num) : (2 : ℚ) ^ (-1022 : ℤ) ≤ 2 ^ (-53 : ℤ))
    linarith [mul_nonneg (sub_nonneg.mpr hu.ge) (sub_nonneg.mpr hv.ge)]
  have hn := hamacherDividend_within hu hv
  rw [hdivisor, (rounds_sub hs.finite ht.finite).value_eq hn.finite]
  refine nearest_le_one ?_
  linarith [ht.le, zpow_pos (two_pos : (0 : ℚ) < 2) (-53)]

/-- The Hamacher sum of two degrees is a degree if their rounded sum is at most 1 and their rounded product
    together, as the exact sum is. -/
theorem hamacherSum_within_one (hsum : value (u + v) ≤ 1 + value (u * v)) :
    Within 0 1 (if u * v == 1.0 then 1.0 else (u + v - 2.0 * u * v) / (1.0 - u * v)) := by
  split
  next => exact within_one.mono zero_le_one le_rfl
  next h =>
    have hn := hamacherDividend_within hu hv
    have hd := hamacherDivisor_within hu hv h
    have hpos : 0 < value (1.0 - u * v) := (zpow_pos two_pos _).trans_le hd.le
    refine within_div hn.finite hd.finite hn.le ?_ hpos
    rcases le_or_gt (2 ^ (-1022 : ℤ)) (value u * value v) with hnormal | hsubnormal
    · rw [hamacherDividend_eq hu hv hnormal, (rounds_hamacherDivisor hu hv).value_eq hd.finite]
      exact nearest_mono (by linarith)
    · exact hamacherDividend_le_of_subnormal hu hv hsubnormal

end HamacherSum

/-! ## Degrees reshaped -/

/-- The contrast hedges keep degrees, each half of the curve by its own estimate. -/
theorem moderated_within (hu : Within 0 1 u) : Within 0 1 (Membership.moderated u) := by
  have hoffset : Within (-(1 / 2)) (1 / 2) (u - 0.5) := by
    have h := hu.sub within_half (by norm_num; exact exact_half.neg) (by norm_num; exact exact_half)
    norm_num at h ⊢
    exact h
  have hsquare := hoffset.mul_abs hoffset (by norm_num; exact exact_quarter)
  have hcube := hsquare.mul_abs hoffset (by norm_num; exact exact_eighth)
  have hscaled := (within_four.mono (c := -4) (by norm_num) le_rfl).mul_abs hcube (by norm_num; exact exact_half)
  have hsum := within_half.add hscaled (by norm_num; exact exact_zero) (by norm_num; exact exact_one)
  norm_num at hsum
  exact hsum

/-- A square of what is at most one half, doubled. -/
theorem double_square_within {t : Float} (h : Within 0 (1 / 2) t) : Within 0 (1 / 2) (2.0 * square t) := by
  have hsquare := h.mul h le_rfl le_rfl (by norm_num; exact exact_zero) (by norm_num; exact exact_quarter)
  have hdouble := within_two.mul hsquare (by norm_num) (by norm_num) (by norm_num; exact exact_zero)
    (by norm_num; exact exact_half)
  norm_num at hdouble ⊢
  exact hdouble

theorem intensified_within (hu : Within 0 1 u) : Within 0 1 (Membership.intensified u) := by
  have hhalf : u < 0.5 ↔ value u < 1 / 2 := by
    rw [lt_iff_value hu.finite within_half.finite, within_half.value_eq]
  unfold Membership.intensified
  split
  next h =>
    have hle := (hhalf.mp h).le
    exact (double_square_within ⟨hu.finite, hu.le, hle⟩).mono le_rfl (by norm_num)
  next h =>
    rw [hhalf, not_lt] at h
    have hrest := within_one.sub (⟨hu.finite, h, hu.ge⟩ : Within (1 / 2) 1 u)
      (by norm_num; exact exact_zero) (by norm_num; exact exact_half)
    rw [sub_self, sub_half] at hrest
    have hwhole := within_one.sub (double_square_within hrest) (by norm_num; exact exact_half)
      (by norm_num; exact exact_one)
    exact hwhole.mono (by norm_num) (by norm_num)

theorem clipped_within {floor ceiling : Float} (hu : Within 0 1 u) (hv : Within 0 1 v) (hw : Within 0 1 w) :
    Within 0 1 (Membership.clipped floor ceiling u v w) := by
  unfold Membership.clipped
  split
  next => exact hv
  next =>
    split
    next => exact hu
    next => exact hw

theorem within_of_isHeight {height : Float} (h : isHeight height = true) :
    Within 0 1 height ∧ 0 < value height := by
  obtain ⟨hpos, hle⟩ := Bool.and_eq_true_iff.mp h
  have hpos := of_decide_eq_true hpos
  have hunit : Within 0 1 height := inUnit_iff.mp (by simp [inUnit, le_of_less hpos, of_decide_eq_true hle])
  rw [lt_iff_value within_zero.finite hunit.finite, within_zero.value_eq] at hpos
  exact ⟨hunit, hpos⟩

theorem isHeight_of_within {height : Float} (h : Within 0 1 height) (hpos : 0 < value height) :
    isHeight height = true := by
  have hlt : 0.0 < height := by rwa [lt_iff_value within_zero.finite h.finite, within_zero.value_eq]
  have hle : height ≤ 1.0 := by
    rw [le_iff_value h.finite within_one.finite, within_one.value_eq]
    exact h.ge
  exact Bool.and_eq_true_iff.mpr ⟨decide_eq_true hlt, decide_eq_true hle⟩

/-- Division by the height is cut at 1, so it gives a degree even where it rounds up. -/
theorem normalized_within {height : Float} (hu : Within 0 1 u) (h : isHeight height = true) :
    Within 0 1 (lesser (u / height) 1.0) := by
  obtain ⟨hheight, hpos⟩ := within_of_isHeight h
  have hsigned := (rounds_div hu.finite hheight.finite hpos.ne').isSigned (s := .positive)
    (div_nonneg hu.le hpos.le)
  exact lesser_one_within (zero_le_iff.mpr hsigned)

end Degrees

end FuzzyInference

import FuzzyInference.Proofs.Double.Library
import FuzzyInference.Proofs.Membership.Accepted

/-!
# Where the bounded logistic curve hits its bounds

The curve with membership 0.1 at one bound and 0.9 at the other is computed from two exponentials, one for
the first bound and one for the argument, whose product is a power of 3. It hits its bounds as long as
neither of the exponentials at the first bound overflows. Once one does, their product is not what it
stands for any more, and one of the bounds is missed: this happens where the first bound is more than about
161.5 widths away from 0.

## Contents
- `odds`, `curveAt`, `evaluate_boundedSigmoid`: the curve in terms of its bounds.
- `odds_near`, `odds_of_isNaN`, `odds_of_infinity`: the last step, from the product on.
- `Proportioned`, `near_steepness`, `exponent_spec`, `exponent_second`, `Exponents`: the exponents at the
  bounds.
- `Hits`, `hits_of_finite`, `not_hits_of_overflow`, `curveAt_of_far`: what comes of them.
- `Shape.boundedSigmoid_hits_iff`: which curves hit their bounds.
-/

namespace FuzzyInference

open Scalar Double

/-! ## The curve -/

/-- The membership for a product of the two exponentials. -/
def odds (r : Float) : Float := 1.0 / (1.0 + 9.0 * (if isNaN r then 1.0 else r))

section Curve

variable (E : Elementary Float) (first second : Float)

/-- The factor of the exponents. -/
def steepness : Float := 4.0 * E.ln 3.0 / (first - second)

/-- The exponential for the first bound. -/
def offset : Float := E.exp (-steepness E first second * first)

/-- The exponential for an argument. -/
def growth (x : Float) : Float := E.exp (x * steepness E first second)

/-- The curve with membership 0.1 at the first bound and 0.9 at the second one. -/
def curveAt (x : Float) : Float := odds (offset E first second * growth E first second x)

end Curve

theorem evaluate_boundedSigmoid {E : Elementary Float} {low high x : Float} {inverse : Bool}
    (hx : isFinite x = true)
    (hk : isFinite (steepness E (if inverse then high else low) (if inverse then low else high)) = true)
    (hoffset : isNaN (-steepness E (if inverse then high else low) (if inverse then low else high) *
      (if inverse then high else low)) = false) :
    @Shape.evaluate Float (withElementary E) x (.boundedSigmoid low high inverse) =
      curveAt E (if inverse then high else low) (if inverse then low else high) x := by
  show @logistic Float (withElementary E) low high inverse x = _
  unfold logistic
  dsimp only
  generalize (if inverse then high else low) = first at hk hoffset ⊢
  generalize (if inverse then low else high) = second at hk hoffset ⊢
  have hp : (if isInfinite (steepness E first second) = true then (0.0 : Float)
      else @expOrOne Float (withElementary E) (-steepness E first second * first)) = offset E first second := by
    rw [if_neg (Bool.eq_false_iff.mp (not_isInfinite_of_isFinite hk))]
    exact if_neg (Bool.eq_false_iff.mp hoffset)
  have hq : (if (isInfinite (steepness E first second) && x == 0.0 ||
      steepness E first second == 0.0 && isInfinite x) = true then (1.0 : Float)
      else E.exp (x * steepness E first second)) = growth E first second x := by
    rw [not_isInfinite_of_isFinite hk, not_isInfinite_of_isFinite hx, Bool.false_and, Bool.and_false]
    rfl
  show odds (_ * _) = odds (_ * _)
  rw [← hp, ← hq]
  rfl

/-! ## From the product on -/

/-- A product that is NaN is taken for 1, so the value is the one at the first bound. -/
theorem odds_of_isNaN {r : Float} (h : isNaN r = true) : odds r = 0.1 := by
  have hvalue : (1.0 : Float) / (1.0 + 9.0 * 1.0) = 0.1 := by decide +kernel
  rw [odds, if_pos h, hvalue]

open Float.Model.UnpackedFloat in
/-- An infinite product leaves nothing of the curve. -/
theorem odds_of_infinity {r : Float} (h : r.toModel.unpack = .infinity .positive) : odds r = 0.0 := by
  have hinfinity : ((1.0 : Float) / 0.0).toModel.unpack = .infinity .positive := by rfl
  have hzero : odds (1.0 / 0.0) = 0.0 := by decide +kernel
  rwa [eq_of_infinity h hinfinity]

/-- Quotients of 1 differ less than their divisors if these are at least 1. -/
theorem abs_one_div_sub_le {u v : ℚ} (hu : 1 ≤ u) (hv : 1 ≤ v) : |1 / u - 1 / v| ≤ |u - v| := by
  rw [div_sub_div _ _ (by linarith) (by linarith), abs_div, one_mul, mul_one, abs_sub_comm]
  refine div_le_self (abs_nonneg _) ?_
  rw [abs_of_pos (mul_pos (by linarith) (by linarith))]
  exact one_le_mul_of_one_le_of_one_le hu hv

/-- A product that is close to `t` makes a membership that is close to `1 / (1 + 9 * t)`. -/
theorem odds_near {r : Float} {t : ℚ} (hr : isFinite r = true) (hnonneg : 0 ≤ value r) (ht : 0 ≤ t)
    (ht1 : t ≤ 1) (h : |value r - t| ≤ 2 ^ (-36 : ℤ)) :
    Within (1 / (1 + 9 * t) - 10 ^ (-9 : ℤ)) (1 / (1 + 9 * t) + 10 ^ (-9 : ℤ)) (odds r) := by
  have hnine : Within 9 9 9.0 := within_whole (n := 9) (by norm_num) (by norm_num)
  have hr2 : value r ≤ 2 := by
    have hsmall : (2 : ℚ) ^ (-36 : ℤ) ≤ 1 := by norm_num
    linarith [(abs_le.mp h).2]
  -- each of the three steps rounds once
  have hproduct := (rounds_mul hnine.finite hr).within exact_zero (exact_two_zpow (e := 5) (by norm_num) (by norm_num))
    (by rw [hnine.value_eq]; positivity) (by rw [hnine.value_eq]; norm_num; linarith)
  have hproduct' := abs_nearest_sub_le (k := 5) (q := 9 * value r) (by norm_num) (by positivity)
    (by norm_num; linarith)
  rw [← hnine.value_eq, ← (rounds_mul hnine.finite hr).value_eq hproduct.finite, hnine.value_eq] at hproduct'
  have hsum := (rounds_add within_one.finite hproduct.finite).within exact_one
    (exact_two_zpow (e := 6) (by norm_num) (by norm_num)) (by rw [within_one.value_eq]; linarith [hproduct.le])
    (by rw [within_one.value_eq]; have := hproduct.ge; norm_num at this ⊢; linarith)
  have hsum' := abs_nearest_sub_le (k := 6) (q := 1 + value (9.0 * r)) (by norm_num) (by linarith [hproduct.le])
    (by have := hproduct.ge; norm_num at this ⊢; linarith)
  rw [← within_one.value_eq, ← (rounds_add within_one.finite hproduct.finite).value_eq hsum.finite,
    within_one.value_eq] at hsum'
  have hpos : 0 < value (1.0 + 9.0 * r) := one_pos.trans_le hsum.le
  have hround := rounds_div within_one.finite hsum.finite hpos.ne'
  have hle : 1 / value (1.0 + 9.0 * r) ≤ 1 := (div_le_one hpos).mpr hsum.le
  rw [within_one.value_eq] at hround
  have hquotient := hround.within exact_zero exact_one (by positivity) hle
  have hquotient' := abs_nearest_sub_le (k := 1) (q := 1 / value (1.0 + 9.0 * r)) (by norm_num) (by positivity)
    (hle.trans_lt (by norm_num))
  rw [← hround.value_eq hquotient.finite] at hquotient'
  have hodds : odds r = 1.0 / (1.0 + 9.0 * r) := by
    rw [odds, if_neg (Bool.eq_false_iff.mp (not_isNaN_of_isFinite hr))]
  have hdivisor : |1 / value (1.0 + 9.0 * r) - 1 / (1 + 9 * t)| ≤ |value (1.0 + 9.0 * r) - (1 + 9 * t)| :=
    abs_one_div_sub_le hsum.le (by linarith)
  have hsteps : |value (1.0 + 9.0 * r) - (1 + 9 * t)| ≤ 2 / 10 ^ 10 := by
    obtain ⟨h1, h2⟩ := abs_le.mp (hsum'.trans (by norm_num : _ ≤ (1 : ℚ) / 10 ^ 12))
    obtain ⟨h3, h4⟩ := abs_le.mp (hproduct'.trans (by norm_num : _ ≤ (1 : ℚ) / 10 ^ 12))
    obtain ⟨h5, h6⟩ := abs_le.mp (h.trans (by norm_num : _ ≤ (1 : ℚ) / (6 * 10 ^ 10)))
    exact abs_le.mpr ⟨by linarith, by linarith⟩
  have herror : |value (1.0 / (1.0 + 9.0 * r)) - 1 / (1 + 9 * t)| ≤ 10 ^ (-9 : ℤ) :=
    calc |value (1.0 / (1.0 + 9.0 * r)) - 1 / (1 + 9 * t)|
        ≤ |value (1.0 / (1.0 + 9.0 * r)) - 1 / value (1.0 + 9.0 * r)| +
          |1 / value (1.0 + 9.0 * r) - 1 / (1 + 9 * t)| := abs_sub_le _ _ _
      _ ≤ 2 ^ (1 - 54 : ℤ) + 2 / 10 ^ 10 := add_le_add hquotient' (hdivisor.trans hsteps)
      _ ≤ 10 ^ (-9 : ℤ) := by norm_num
  rw [hodds]
  exact ⟨hquotient.finite, by linarith [(abs_le.mp herror).1], by linarith [(abs_le.mp herror).2]⟩

/-! ## The exponents at the bounds -/

/-- Bounds that are apart, but not far apart, and not too far from 0 for that, so that rounding of the
    bounds is not the issue. -/
structure Proportioned (first second : Float) : Prop where
  first_finite : isFinite first = true
  second_finite : isFinite second = true
  apart : 10 ^ (-6 : ℤ) ≤ |value first - value second|
  close : |value first - value second| ≤ 10 ^ 6
  first_le : |value first| ≤ 10 ^ 6 * |value first - value second|
  second_le : |value second| ≤ 10 ^ 6 * |value first - value second|

theorem Proportioned.symm {first second : Float} (h : Proportioned first second) : Proportioned second first := by
  refine ⟨h.second_finite, h.first_finite, ?_, ?_, ?_, ?_⟩ <;> rw [abs_sub_comm]
  exacts [h.apart, h.close, h.second_le, h.first_le]

/-- The constant of the curve, between two decimals close together. -/
theorem four_log_three : 4.39444915 < 4 * Real.log 3 ∧ 4 * Real.log 3 < 4.39444916 :=
  ⟨by linarith [Real.log_three_gt_d9], by linarith [Real.log_three_lt_d9]⟩

section Exponents

variable {E : Elementary Float} {first second : Float}

/-- The numerator of the steepness is computed to within a few units of the last place. -/
theorem near_numerator (hE : Accurate E) :
    isFinite (4.0 * E.ln 3.0) = true ∧ Near (2 ^ (-48 : ℤ)) (value (4.0 * E.ln 3.0)) (4 * Real.log 3) := by
  obtain ⟨hlow, hhigh⟩ := four_log_three
  have hlog : Near (2 ^ (-49 : ℤ)) (value (E.ln 3.0)) (Real.log 3) := by
    refine (near_of_abs_sub_le (by linarith) (hE.three.trans ?_) (by norm_num)).mono
      (by norm_num : (2 : ℝ) * 2 ^ (-50 : ℤ) ≤ _)
    rw [abs_of_pos (by linarith)]
    norm_num
    linarith
  have hround := rounds_mul within_four.finite hE.three_finite
  rw [within_four.value_eq] at hround
  have hproduct : ((4 * value (E.ln 3.0) : ℚ) : ℝ) = 4 * value (E.ln 3.0) := by push_cast; rfl
  obtain ⟨hthree, hthree'⟩ := abs_le.mp hE.three
  norm_num at hthree hthree'
  have hpos : (0 : ℝ) < 4 * value (E.ln 3.0) := by linarith
  obtain ⟨hfinite, hnear⟩ := hround.near (a := 0) (b := 4) (by norm_num) (by norm_num) (by norm_num)
    (by rw [hproduct, abs_of_pos hpos]; norm_num; linarith) (by rw [hproduct, abs_of_pos hpos]; norm_num; linarith)
  rw [hproduct] at hnear
  exact ⟨hfinite, (hnear.trans ((Near.refl 4).mul hlog)).mono (by norm_num)⟩

/-- The bounds in reals. -/
theorem Proportioned.width_bounds (h : Proportioned first second) :
    (10 : ℝ) ^ (-6 : ℤ) ≤ |(value first : ℝ) - value second| ∧
      |(value first : ℝ) - value second| ≤ 10 ^ 6 := by
  have hapart := (Rat.cast_le (K := ℝ)).mpr h.apart
  have hclose := (Rat.cast_le (K := ℝ)).mpr h.close
  push_cast at hapart hclose
  exact ⟨hapart, hclose⟩

/-- The distance of proportioned bounds is rounded once. -/
theorem near_width (h : Proportioned first second) :
    isFinite (first - second) = true ∧
      Near (2 ^ (-52 : ℤ)) (value (first - second)) (value first - value second) := by
  obtain ⟨hapart, hclose⟩ := h.width_bounds
  have hround := rounds_sub h.first_finite h.second_finite
  rw [← Rat.cast_sub] at hapart hclose ⊢
  exact hround.near (a := -20) (b := 20) (by norm_num) (by norm_num) (by norm_num)
    (le_trans (by norm_num) hapart) (hclose.trans (by norm_num))

/-- The factor that the exponents should have. -/
theorem slope_bounds (h : Proportioned first second) :
    2 ^ (-20 : ℤ) ≤ |4 * Real.log 3 / ((value first : ℝ) - value second)| ∧
      |4 * Real.log 3 / ((value first : ℝ) - value second)| ≤ 2 ^ (23 : ℤ) := by
  obtain ⟨hapart, hclose⟩ := h.width_bounds
  obtain ⟨hlow, hhigh⟩ := four_log_three
  have hpos : 0 < |(value first : ℝ) - value second| := (by norm_num : (0 : ℝ) < 10 ^ (-6 : ℤ)).trans_le hapart
  rw [abs_div, abs_of_pos (by linarith : 0 < 4 * Real.log 3), le_div_iff₀ hpos, div_le_iff₀ hpos]
  norm_num at hapart hclose ⊢
  exact ⟨by linarith, by linarith⟩

/-- The factor of the exponents is what it should be, up to some bits of its last place. -/
theorem near_steepness (hE : Accurate E) (h : Proportioned first second) :
    isFinite (steepness E first second) = true ∧
      Near (2 ^ (-47 : ℤ)) (value (steepness E first second))
        (4 * Real.log 3 / (value first - value second)) := by
  obtain ⟨hnumerator, hnear⟩ := near_numerator hE
  obtain ⟨hwidth, hnear'⟩ := near_width h
  obtain ⟨hge, hle⟩ := slope_bounds h
  -- the quotient, before it is rounded
  have hquotient := hnear.div hnear'
  rw [← Rat.cast_div] at hquotient
  have hlarge := hquotient.abs_le (by norm_num)
  have hsmall := hquotient.symm.abs_le (by norm_num)
  have hzero : value (first - second) ≠ 0 := by
    intro h0
    rw [h0, div_zero, Rat.cast_zero, abs_zero, mul_zero] at hsmall
    exact absurd (hge.trans hsmall) (by norm_num)
  have hround := rounds_div hnumerator hwidth hzero
  norm_num at hge hle
  obtain ⟨hfinite, hnearest⟩ := hround.near (a := -21) (b := 24) (by norm_num) (by norm_num) (by norm_num)
    (by norm_num at hsmall ⊢; linarith) (by norm_num at hlarge ⊢; linarith)
  exact ⟨hfinite, (hnearest.trans hquotient).mono (by norm_num)⟩

/-- Over the distance of the bounds, the exponent changes by `4 * ln 3`. -/
theorem gain_spec (hE : Accurate E) (h : Proportioned first second) :
    |(value (steepness E first second) : ℝ) * (value first - value second) - 4 * Real.log 3| ≤ 2 ^ (-43 : ℤ) := by
  obtain ⟨hlow, hhigh⟩ := four_log_three
  have hzero : (value first : ℝ) - value second ≠ 0 :=
    abs_pos.mp ((by norm_num : (0 : ℝ) < 10 ^ (-6 : ℤ)).trans_le h.width_bounds.1)
  have hgain := ((near_steepness hE h).2.mul (Near.refl ((value first : ℝ) - value second))).abs_sub_le (by norm_num)
  rw [div_mul_cancel₀ _ hzero, abs_of_pos (by linarith : 0 < 4 * Real.log 3)] at hgain
  norm_num at hgain ⊢
  linarith

/-- The exponent runs through a fixed gain between the bounds. -/
theorem abs_gain (hE : Accurate E) (h : Proportioned first second) :
    4.3944 ≤ |(value first : ℝ) - value second| * |(value (steepness E first second) : ℝ)| ∧
      |(value first : ℝ) - value second| * |(value (steepness E first second) : ℝ)| ≤ 4.3945 := by
  obtain ⟨hlow, hhigh⟩ := four_log_three
  obtain ⟨hgain, hgain'⟩ := abs_le.mp (gain_spec hE h)
  norm_num at hgain hgain'
  rw [mul_comm, ← abs_mul, abs_of_pos (by linarith)]
  exact ⟨by linarith, by linarith⟩

/-- An exponent within a million widths stays far from overflow. -/
theorem abs_mul_steepness_le (hE : Accurate E) (h : Proportioned first second) {x : Float}
    (hle : |value x| ≤ 10 ^ 6 * |value first - value second|) :
    |value x * value (steepness E first second)| ≤ 2 ^ (23 : ℤ) := by
  have hle := (Rat.cast_le (K := ℝ)).mpr hle
  push_cast at hle
  have hreal : |(value x : ℝ)| * |(value (steepness E first second) : ℝ)| ≤ 2 ^ (23 : ℤ) :=
    calc |(value x : ℝ)| * |(value (steepness E first second) : ℝ)|
        ≤ 10 ^ 6 * |(value first : ℝ) - value second| * |(value (steepness E first second) : ℝ)| :=
          mul_le_mul_of_nonneg_right hle (abs_nonneg _)
      _ ≤ 10 ^ 6 * 4.3945 := by
          rw [mul_assoc]
          exact mul_le_mul_of_nonneg_left (abs_gain hE h).2 (by norm_num)
      _ ≤ 2 ^ (23 : ℤ) := by norm_num
  rw [← abs_mul] at hreal
  exact_mod_cast hreal

/-- An exponent is finite, and rounded once. -/
theorem exponent_spec (hE : Accurate E) (h : Proportioned first second) {x : Float} (hx : isFinite x = true)
    (hle : |value x| ≤ 10 ^ 6 * |value first - value second|) :
    isFinite (x * steepness E first second) = true ∧
      |(value (x * steepness E first second) : ℝ) - value x * value (steepness E first second)| ≤
        2 ^ (-53 : ℤ) * |(value x : ℝ) * value (steepness E first second)| + 2 ^ (-1075 : ℤ) := by
  have hround := rounds_mul hx (near_steepness hE h).1
  have hexact := exact_two_zpow (e := 23) (by norm_num) (by norm_num)
  obtain ⟨hlow, hhigh⟩ := abs_le.mp (abs_mul_steepness_le hE h hle)
  have hfinite := (hround.within hexact.neg hexact hlow hhigh).finite
  have herror := abs_nearest_sub_le_add (value x * value (steepness E first second))
  rw [← hround.value_eq hfinite] at herror
  have hcast := (Rat.cast_le (K := ℝ)).mpr herror
  simp only [Rat.cast_abs, Rat.cast_sub, Rat.cast_mul, Rat.cast_add, Rat.cast_zpow, Rat.cast_ofNat] at hcast
  exact ⟨hfinite, hcast⟩

/-- The exponent of the offset is the one for the first bound as an argument, but for its sign. -/
theorem offset_exponent (hE : Accurate E) (h : Proportioned first second) :
    isFinite (-steepness E first second * first) = true ∧
      value (-steepness E first second * first) = -value (first * steepness E first second) := by
  have hk := (near_steepness hE h).1
  obtain ⟨hneg, hvalue⟩ := value_neg hk
  have hround := rounds_mul hneg h.first_finite
  rw [hvalue, neg_mul, mul_comm] at hround
  have hexact := exact_two_zpow (e := 23) (by norm_num) (by norm_num)
  obtain ⟨hlow, hhigh⟩ := abs_le.mp (abs_mul_steepness_le hE h h.first_le)
  have hfinite := (hround.within hexact.neg hexact (neg_le_neg hhigh) (neg_le.mp hlow)).finite
  have hsame := (rounds_mul h.first_finite hk).value_eq (exponent_spec hE h h.first_finite h.first_le).1
  exact ⟨hfinite, by rw [hround.value_eq hfinite, nearest_neg, hsame]⟩

/-- From the first bound to the second, the exponent falls by `4 * ln 3`. -/
theorem exponent_second (hE : Accurate E) (h : Proportioned first second) :
    |(value (second * steepness E first second) : ℝ) -
        (value (first * steepness E first second) - 4 * Real.log 3)| ≤
      2 ^ (-42 : ℤ) + 2 ^ (-51 : ℤ) * |(value (first * steepness E first second) : ℝ)| := by
  have htiny : (2 : ℝ) ^ (-1075 : ℤ) ≤ 2 ^ (-60 : ℤ) := zpow_le_zpow_right₀ one_le_two (by norm_num)
  have hfirst := (exponent_spec hE h h.first_finite h.first_le).2.trans (add_le_add_right htiny _)
  have hsecond := (exponent_spec hE h h.second_finite h.second_le).2.trans (add_le_add_right htiny _)
  have hgain := gain_spec hE h
  obtain ⟨hlow, hhigh⟩ := four_log_three
  -- only the distances of four real numbers matter from here on
  generalize (value (first * steepness E first second) : ℝ) = a at hfirst ⊢
  generalize (value (second * steepness E first second) : ℝ) = b at hsecond ⊢
  generalize hP : (value first : ℝ) * value (steepness E first second) = P at hfirst
  generalize hQ : (value second : ℝ) * value (steepness E first second) = Q at hsecond
  have hfall : (value (steepness E first second) : ℝ) * (value first - value second) = P - Q := by
    rw [← hP, ← hQ]
    ring
  rw [hfall] at hgain
  have hsize : |P| ≤ 2 * |a| + 1 := by
    have hle := abs_sub_abs_le_abs_sub P a
    rw [abs_sub_comm] at hle
    norm_num at hfirst
    linarith [abs_nonneg P, abs_nonneg a]
  have hsize' : |Q| ≤ |P| + 5 := by
    have hle := abs_sub_abs_le_abs_sub Q P
    have hfalls := (abs_le.mp hgain)
    norm_num at hfalls
    have hdistance : |Q - P| ≤ 5 := abs_le.mpr ⟨by linarith, by linarith⟩
    linarith
  obtain ⟨h1, h2⟩ := abs_le.mp hfirst
  obtain ⟨h3, h4⟩ := abs_le.mp hsecond
  obtain ⟨h5, h6⟩ := abs_le.mp hgain
  norm_num at h1 h2 h3 h4 h5 h6 ⊢
  exact abs_le.mpr ⟨by linarith, by linarith⟩

/-- What is known of the exponents at the bounds. The one of the offset is opposite to that of the first
    bound, from where they fall by `4 * ln 3` to the second bound. -/
structure Exponents (E : Elementary Float) (first second : Float) : Prop where
  offset_finite : isFinite (-steepness E first second * first) = true
  first_finite : isFinite (first * steepness E first second) = true
  second_finite : isFinite (second * steepness E first second) = true
  opposite : (value (-steepness E first second * first) : ℝ) = -value (first * steepness E first second)
  fall : |(value (second * steepness E first second) : ℝ) -
      (value (first * steepness E first second) - 4 * Real.log 3)| ≤
    2 ^ (-42 : ℤ) + 2 ^ (-51 : ℤ) * |(value (first * steepness E first second) : ℝ)|

/-- Proportioned bounds have exponents as the real curve does, up to rounding. -/
theorem Proportioned.exponents (hE : Accurate E) (h : Proportioned first second) : Exponents E first second := by
  obtain ⟨hoffset, hvalue⟩ := offset_exponent hE h
  exact ⟨hoffset, (exponent_spec hE h h.first_finite h.first_le).1,
    (exponent_spec hE h h.second_finite h.second_le).1, by rw [hvalue, Rat.cast_neg], exponent_second hE h⟩

/-- How far the exponent at a bound is from the real one. -/
theorem abs_exponent (hE : Accurate E) (h : Proportioned first second) :
    |(|(value (first * steepness E first second) : ℝ)| -
        |(value first : ℝ)| * |(value (steepness E first second) : ℝ)|)| ≤
      2 ^ (-53 : ℤ) * (|(value first : ℝ)| * |(value (steepness E first second) : ℝ)|) + 2 ^ (-60 : ℤ) := by
  have htiny : (2 : ℝ) ^ (-1075 : ℤ) ≤ 2 ^ (-60 : ℤ) := zpow_le_zpow_right₀ one_le_two (by norm_num)
  rw [← abs_mul]
  exact (abs_abs_sub_abs_le _ _).trans
    ((exponent_spec hE h h.first_finite h.first_le).2.trans (add_le_add_right htiny _))

/-- How far the first bound is away from 0, in widths, decides how large its exponent is. -/
theorem le_abs_exponent (hE : Accurate E) (h : Proportioned first second) {c : ℝ} (hc : 1 ≤ c)
    (hle : c * |(value first : ℝ) - value second| ≤ |(value first : ℝ)|) :
    c * 4.394 ≤ |(value (first * steepness E first second) : ℝ)| := by
  have hproduct : c * 4.3944 ≤ |(value first : ℝ)| * |(value (steepness E first second) : ℝ)| :=
    calc c * 4.3944
        ≤ c * (|(value first : ℝ) - value second| * |(value (steepness E first second) : ℝ)|) :=
          mul_le_mul_of_nonneg_left (abs_gain hE h).1 (zero_le_one.trans hc)
      _ ≤ |(value first : ℝ)| * |(value (steepness E first second) : ℝ)| := by
          rw [← mul_assoc]
          exact mul_le_mul_of_nonneg_right hle (abs_nonneg _)
  have hround := (abs_le.mp (abs_exponent hE h)).1
  norm_num at hround hproduct ⊢
  linarith

theorem abs_exponent_le (hE : Accurate E) (h : Proportioned first second) {c : ℝ} (hc : 1 ≤ c)
    (hle : |(value first : ℝ)| ≤ c * |(value first : ℝ) - value second|) :
    |(value (first * steepness E first second) : ℝ)| ≤ c * 4.395 := by
  have hproduct : |(value first : ℝ)| * |(value (steepness E first second) : ℝ)| ≤ c * 4.3945 :=
    calc |(value first : ℝ)| * |(value (steepness E first second) : ℝ)|
        ≤ c * (|(value first : ℝ) - value second| * |(value (steepness E first second) : ℝ)|) := by
          rw [← mul_assoc]
          exact mul_le_mul_of_nonneg_right hle (abs_nonneg _)
      _ ≤ c * 4.3945 := mul_le_mul_of_nonneg_left (abs_gain hE h).2 (zero_le_one.trans hc)
  have hround := (abs_le.mp (abs_exponent hE h)).2
  norm_num at hround hproduct ⊢
  linarith

end Exponents

/-! ## Hit and miss -/

/-- The curve has membership 0.1 at the first bound and 0.9 at the second one, to a billionth. -/
structure Hits (f : Float → Float) (first second : Float) : Prop where
  first : Within (1 / 10 - 10 ^ (-9 : ℤ)) (1 / 10 + 10 ^ (-9 : ℤ)) (f first)
  second : Within (9 / 10 - 10 ^ (-9 : ℤ)) (9 / 10 + 10 ^ (-9 : ℤ)) (f second)

/-- Two exponentials that make up `t` make a membership that is close to `1 / (1 + 9 * t)`. -/
theorem odds_near_exp {p g : Float} {a b : ℝ} {t : ℚ} (hp : isFinite p = true) (hg : isFinite g = true)
    (hnear : Near (2 ^ (-40 : ℤ)) (value p) (Real.exp a)) (hnear' : Near (2 ^ (-40 : ℤ)) (value g) (Real.exp b))
    (ht : 1 / 81 ≤ t) (ht1 : t ≤ 1) (hsum : |a + b - Real.log t| ≤ 2 ^ (-40 : ℤ)) :
    Within (1 / (1 + 9 * t) - 10 ^ (-9 : ℤ)) (1 / (1 + 9 * t) + 10 ^ (-9 : ℤ)) (odds (p * g)) := by
  have hpos : 0 < t := by linarith
  have hpos' : (0 : ℝ) < t := by exact_mod_cast hpos
  have hexp := near_exp_exp hsum
  rw [Real.exp_log hpos', Real.exp_add] at hexp
  have hproduct := (hnear.mul hnear').trans hexp
  rw [← Rat.cast_mul] at hproduct
  have hclose := hproduct.abs_sub_le (by norm_num)
  rw [abs_of_pos hpos'] at hclose
  have ht : ((1 / 81 : ℚ) : ℝ) ≤ t := Rat.cast_le.mpr ht
  have ht1' : (t : ℝ) ≤ 1 := by exact_mod_cast ht1
  norm_num at ht hclose
  obtain ⟨hlow, hhigh⟩ := abs_le.mp hclose
  -- the product itself rounds once more, far from overflow and underflow
  have hround := rounds_mul hp hg
  have hfactor : (0 : ℝ) < (value p * value g : ℚ) := by push_cast; linarith
  obtain ⟨hfinite, hnearest⟩ := hround.near (a := -7) (b := 1) (by norm_num) (by norm_num) (by norm_num)
    (by rw [abs_of_pos hfactor]; norm_num at hlow ⊢; linarith)
    (by rw [abs_of_pos hfactor]; norm_num at hhigh ⊢; linarith)
  have hnonneg : 0 ≤ value (p * g) := by
    rw [hround.value_eq hfinite]
    exact nearest_nonneg (by exact_mod_cast hfactor.le)
  have herror := (hnearest.trans hproduct).abs_sub_le (by norm_num)
  have herror' : |value (p * g) - t| ≤ 2 ^ (-36 : ℤ) := by
    have h : ((|value (p * g) - t| : ℚ) : ℝ) ≤ ((1 / 2 ^ 36 : ℚ) : ℝ) := by
      rw [abs_of_pos hpos'] at herror
      push_cast
      norm_num at herror ⊢
      linarith
    exact (Rat.cast_le.mp h).trans (by norm_num)
  exact odds_near hfinite hnonneg hpos.le ht1 herror'

section Bounds

variable {E : Elementary Float} {first second : Float}

/-- Without an overflow at the first bound, the curve hits its bounds. -/
theorem hits_of_finite (hE : Accurate E) (h : Exponents E first second)
    (hoffset : isFinite (offset E first second) = true) (hgrowth : isFinite (growth E first second first) = true) :
    Hits (curveAt E first second) first second := by
  obtain ⟨hlow, hhigh⟩ := four_log_three
  have hopposite := h.opposite
  -- neither exponent is large, hence they are not small either
  have hless := hE.lt_of_finite h.first_finite hgrowth
  have hmore := hE.lt_of_finite h.offset_finite hoffset
  rw [hopposite] at hmore
  have hsize := (abs_lt.mpr ⟨neg_lt.mp hmore, hless⟩).le
  obtain ⟨hfall, hfall'⟩ := abs_le.mp h.fall
  norm_num at hsize hfall hfall'
  have hnear := hE.near h.offset_finite (by linarith) hoffset
  have hnear' := hE.near h.first_finite (by linarith) hgrowth
  have hgrowth' : isFinite (growth E first second second) = true := hE.finite h.second_finite (by linarith)
  have hnear'' := hE.near h.second_finite (by linarith) hgrowth'
  have hpower : Real.log ((1 / 81 : ℚ) : ℝ) = -(4 * Real.log 3) := by
    have h81 : ((1 / 81 : ℚ) : ℝ) = ((3 : ℝ) ^ 4)⁻¹ := by norm_num
    rw [h81, Real.log_inv, Real.log_pow]
    push_cast
    ring
  have hone := odds_near_exp (t := 1) hoffset hgrowth hnear hnear' (by norm_num) le_rfl (by
    rw [Rat.cast_one, Real.log_one, hopposite]
    norm_num)
  have hpowered := odds_near_exp (t := 1 / 81) hoffset hgrowth' hnear hnear'' le_rfl (by norm_num) (by
    rw [hpower, hopposite]
    norm_num
    exact abs_le.mpr ⟨by linarith, by linarith⟩)
  exact ⟨hone.mono (by norm_num) (by norm_num), hpowered.mono (by norm_num) (by norm_num)⟩

/-- An infinite exponential against a finite one: NaN, which stands for 1, or infinity. -/
theorem odds_infinity_mul {p g : Float} (hp : p.toModel.unpack = .infinity .positive) (hg : isFinite g = true)
    (hnonneg : (0.0 : Float) ≤ g) : odds (p * g) = if value g = 0 then 0.1 else 0.0 := by
  rw [mul_swap]
  split
  next h0 => exact odds_of_isNaN (zero_mul_infinity hg h0 hp)
  next h0 =>
    have hinfinity := mul_infinity hg h0 hp
    rcases zero_le_iff.mp hnonneg with ⟨-, hsign⟩ | hinfinite
    · rw [signOf_eq hsign h0] at hinfinity
      exact odds_of_infinity hinfinity
    · rw [not_isFinite_of_infinity hinfinite] at hg
      cases hg

theorem value_tenth_lt : value 0.1 < 1 / 2 := by
  have hfinite : isFinite (0.1 : Float) = true := by decide +kernel
  rw [← within_half.value_eq, ← lt_iff_value hfinite within_half.finite]
  decide +kernel

/-- A curve that is 0.1 or 0 at its second bound misses it. -/
theorem not_hits_of_second {f : Float → Float} (h : f second = 0.1 ∨ f second = 0.0) : ¬ Hits f first second := by
  intro hits
  have hle := hits.second.le
  rcases h with h | h <;> rw [h] at hle
  · have hlt := value_tenth_lt
    norm_num at hle
    linarith
  · rw [within_zero.value_eq] at hle
    norm_num at hle

/-- Once the offset overflows, the exponential at the second bound cannot make up for it. -/
theorem curveAt_second_of_offset (hE : Accurate E) (h : Exponents E first second)
    (hoffset : isFinite (offset E first second) = false) :
    curveAt E first second second = if value (growth E first second second) = 0 then 0.1 else 0.0 := by
  have hlarge := hE.gt_of_overflow h.offset_finite hoffset
  rw [h.opposite] at hlarge
  obtain ⟨-, hfall⟩ := abs_le.mp h.fall
  rw [abs_of_nonpos (by linarith)] at hfall
  have hsmall : (value (second * steepness E first second) : ℝ) ≤ 709.7 := by
    norm_num at hfall ⊢
    linarith [four_log_three.1]
  exact odds_infinity_mul (hE.infinity h.offset_finite hoffset) (hE.finite h.second_finite hsmall)
    (hE.nonneg h.second_finite)

/-- An overflow at the first bound with an offset of 0 goes on to the second bound. -/
theorem curveAt_second_of_growth (hE : Accurate E) (h : Exponents E first second)
    (hoffset : isFinite (offset E first second) = true) (h0 : value (offset E first second) = 0) :
    curveAt E first second second = 0.1 := by
  have hsmall := hE.lt_of_zero h.offset_finite hoffset h0
  rw [h.opposite] at hsmall
  obtain ⟨hfall, -⟩ := abs_le.mp h.fall
  rw [abs_of_nonneg (by linarith)] at hfall
  have hlarge : 709.8 ≤ (value (second * steepness E first second) : ℝ) := by
    norm_num at hfall ⊢
    linarith [four_log_three.2]
  have hover := hE.overflow h.second_finite hlarge
  exact odds_of_isNaN (zero_mul_infinity hoffset h0 (hE.infinity h.second_finite hover))

/-- With an overflow at the first bound, one of the bounds is missed. -/
theorem not_hits_of_overflow (hE : Accurate E) (h : Exponents E first second)
    (hover : ¬ (isFinite (offset E first second) = true ∧ isFinite (growth E first second first) = true)) :
    ¬ Hits (curveAt E first second) first second := by
  by_cases hoffset : isFinite (offset E first second) = true
  · -- one of the two factors overflows, so the other one does not
    have hgrowth : isFinite (growth E first second first) = false :=
      Bool.eq_false_iff.mpr fun hgrowth => hover ⟨hoffset, hgrowth⟩
    by_cases h0 : value (offset E first second) = 0
    · exact not_hits_of_second (Or.inl (curveAt_second_of_growth hE h hoffset h0))
    · have hcurve : curveAt E first second first = 0.0 := by
        rw [curveAt, mul_swap]
        exact (odds_infinity_mul (hE.infinity h.first_finite hgrowth) hoffset
          (hE.nonneg h.offset_finite)).trans (if_neg h0)
      intro hits
      have hle := hits.first.le
      rw [hcurve, within_zero.value_eq] at hle
      norm_num at hle
  · have hcurve := curveAt_second_of_offset hE h (Bool.eq_false_iff.mpr hoffset)
    refine not_hits_of_second ?_
    rw [hcurve]
    split
    · exact Or.inl rfl
    · exact Or.inr rfl

/-- So far away from 0 that one of the exponentials overflows and the other one is 0, the two bounds
    cannot be told apart. -/
theorem curveAt_of_far (hE : Accurate E) (h : Exponents E first second)
    (hfar : 745.3 ≤ |(value (first * steepness E first second) : ℝ)|) :
    curveAt E first second first = 0.1 ∧ curveAt E first second second = 0.1 := by
  have hopposite := h.opposite
  -- far to the right the offset vanishes and the growth overflows; far to the left it is the reverse
  rcases le_abs.mp hfar with hup | hdown
  · have hoffset : isFinite (offset E first second) = true := hE.finite h.offset_finite (by linarith)
    have h0 : value (offset E first second) = 0 := hE.underflow h.offset_finite (by linarith)
    have hinfinity := hE.infinity h.first_finite (hE.overflow h.first_finite (by linarith))
    exact ⟨odds_of_isNaN (zero_mul_infinity hoffset h0 hinfinity), curveAt_second_of_growth hE h hoffset h0⟩
  · have hover := hE.overflow h.offset_finite (by linarith)
    have h0 : value (growth E first second first) = 0 := hE.underflow h.first_finite (by linarith)
    have hgrowth : isFinite (growth E first second first) = true := hE.finite h.first_finite (by linarith)
    have h0' : value (growth E first second second) = 0 := by
      obtain ⟨-, hfall⟩ := abs_le.mp h.fall
      rw [abs_of_nonpos (by linarith)] at hfall
      refine hE.underflow h.second_finite ?_
      norm_num at hfall hdown ⊢
      linarith [four_log_three.1]
    refine ⟨?_, ?_⟩
    · exact (odds_infinity_mul (hE.infinity h.offset_finite hover) hgrowth
        (hE.nonneg h.first_finite)).trans (if_pos h0)
    · exact (curveAt_second_of_offset hE h hover).trans (if_pos h0')

/-- A first bound that is close enough to 0, -/
theorem finite_of_close (hE : Accurate E) (h : Exponents E first second)
    (hclose : |(value (first * steepness E first second) : ℝ)| ≤ 709.7) :
    isFinite (offset E first second) = true ∧ isFinite (growth E first second first) = true := by
  obtain ⟨hlow, hhigh⟩ := abs_le.mp hclose
  refine ⟨hE.finite h.offset_finite ?_, hE.finite h.first_finite hhigh⟩
  rw [h.opposite]
  exact neg_le.mp hlow

/-- and one that is too far away from it. -/
theorem overflow_of_far (hE : Accurate E) (h : Exponents E first second)
    (hfar : 709.8 ≤ |(value (first * steepness E first second) : ℝ)|) :
    ¬ (isFinite (offset E first second) = true ∧ isFinite (growth E first second first) = true) := by
  rintro ⟨hoffset, hgrowth⟩
  have hless := hE.lt_of_finite h.first_finite hgrowth
  have hmore := hE.lt_of_finite h.offset_finite hoffset
  rw [h.opposite] at hmore
  exact absurd hfar (not_le.mpr (abs_lt.mpr ⟨neg_lt.mp hmore, hless⟩))

end Bounds

/-! ## The bounds of the curve -/

theorem Hits.congr {f g : Float → Float} {first second : Float} (hfirst : f first = g first)
    (hsecond : f second = g second) : Hits f first second ↔ Hits g first second :=
  ⟨fun h => ⟨hfirst ▸ h.first, hsecond ▸ h.second⟩, fun h => ⟨hfirst ▸ h.first, hsecond ▸ h.second⟩⟩

/-- A curve that hits its bounds tells them apart. -/
theorem Hits.separates {f : Float → Float} {first second : Float} (h : Hits f first second) :
    f first < 0.5 ∧ 0.5 < f second := by
  have hle := h.first.ge
  have hge := h.second.le
  norm_num at hle hge
  refine ⟨(lt_iff_value h.first.finite within_half.finite).mpr ?_,
    (lt_iff_value within_half.finite h.second.finite).mpr ?_⟩ <;> rw [within_half.value_eq] <;> linarith

namespace Shape

variable {E : Elementary Float} {low high : Float}

/-- With proportioned bounds none of the guards for infinities interferes. -/
theorem evaluate_eq_curveAt (hE : Accurate E) (inverse : Bool)
    (h : Proportioned (if inverse then high else low) (if inverse then low else high)) {x : Float}
    (hx : isFinite x = true) :
    @evaluate Float (withElementary E) x (.boundedSigmoid low high inverse) =
      curveAt E (if inverse then high else low) (if inverse then low else high) x :=
  evaluate_boundedSigmoid hx (near_steepness hE h).1 (not_isNaN_of_isFinite (h.exponents hE).offset_finite)

/-- **The bounded logistic curve hits its bounds exactly where neither exponential at the first bound
    overflows,** which is decided by how many widths that bound is away from 0. -/
theorem boundedSigmoid_hits_iff (hE : Accurate E) (hlt : low < high) (h : Proportioned low high) (inverse : Bool) :
    let curve : Shape Float := .boundedSigmoid low high inverse
    let first := if inverse then high else low
    let second := if inverse then low else high
    let f := fun x => @evaluate Float (withElementary E) x curve
    curve.validate = .ok () ∧
      (Hits f first second ↔
        isFinite (offset E first second) = true ∧ isFinite (growth E first second first) = true) ∧
      (Hits f first second → f first < 0.5 ∧ 0.5 < f second) ∧
      (|value first| ≤ 161 * (value high - value low) → Hits f first second) ∧
      (162 * (value high - value low) ≤ |value first| → ¬ Hits f first second) ∧
      (171 * (value high - value low) ≤ |value first| → f first = 0.1 ∧ f second = 0.1) := by
  intro curve first second f
  have hbounds : Proportioned first second := by
    cases inverse
    · exact h
    · exact h.symm
  have hwidth : |(value first : ℝ) - value second| = ((value high - value low : ℚ) : ℝ) := by
    have hpos : (0 : ℚ) < value high - value low :=
      sub_pos.mpr ((lt_iff_value h.first_finite h.second_finite).mp hlt)
    rw [← Rat.cast_sub, ← Rat.cast_abs]
    congr 1
    cases inverse
    · exact (abs_sub_comm _ _).trans (abs_of_pos hpos)
    · exact abs_of_pos hpos
  have hfirst : f first = curveAt E first second first := evaluate_eq_curveAt hE inverse hbounds hbounds.first_finite
  have hsecond : f second = curveAt E first second second :=
    evaluate_eq_curveAt hE inverse hbounds hbounds.second_finite
  -- from here on only the exponents at the two bounds matter
  have hexponents := hbounds.exponents hE
  have hcongr := Hits.congr hfirst hsecond
  have hiff : Hits f first second ↔
      isFinite (offset E first second) = true ∧ isFinite (growth E first second first) = true := by
    rw [hcongr]
    exact ⟨fun hits => by_contra fun hover => not_hits_of_overflow hE hexponents hover hits,
      fun ⟨hoffset, hgrowth⟩ => hits_of_finite hE hexponents hoffset hgrowth⟩
  refine ⟨ensure_eq_ok_iff.mpr (decide_eq_true hlt), hiff, Hits.separates, ?_, ?_, ?_⟩
  · intro hclose
    have hsize := abs_exponent_le hE hbounds (c := 161) (by norm_num) (by rw [hwidth]; exact_mod_cast hclose)
    exact hiff.mpr (finite_of_close hE hexponents (hsize.trans (by norm_num)))
  · intro hfar hits
    have hsize := le_abs_exponent hE hbounds (c := 162) (by norm_num) (by rw [hwidth]; exact_mod_cast hfar)
    exact overflow_of_far hE hexponents (le_trans (by norm_num) hsize) (hiff.mp hits)
  · intro hfar
    have hsize := le_abs_exponent hE hbounds (c := 171) (by norm_num) (by rw [hwidth]; exact_mod_cast hfar)
    rw [hfirst, hsecond]
    exact curveAt_of_far hE hexponents (le_trans (by norm_num) hsize)

/-- Bounds next to 0. -/
theorem boundedSigmoid_hits_iff_unitInterval :
    let curve : Shape Float := .boundedSigmoid 0.0 1.0 false
    Accurate roundedElementary ∧ (0.0 : Float) < 1.0 ∧ Proportioned 0.0 1.0 ∧
      Hits (fun x => @evaluate Float (withElementary roundedElementary) x curve) 0.0 1.0 := by
  have hlt : (0.0 : Float) < 1.0 := by decide +kernel
  have h : Proportioned 0.0 1.0 := by
    refine ⟨within_zero.finite, within_one.finite, ?_, ?_, ?_, ?_⟩ <;>
      rw [within_zero.value_eq, within_one.value_eq] <;> norm_num
  obtain ⟨-, -, -, hclose, -⟩ := boundedSigmoid_hits_iff accurate_roundedElementary hlt h false
  refine ⟨accurate_roundedElementary, hlt, h, hclose ?_⟩
  show |value 0.0| ≤ _
  rw [within_zero.value_eq, within_one.value_eq]
  norm_num

/-- Bounds that are 200 widths away from 0 cannot be told apart. -/
theorem boundedSigmoid_farBounds :
    let curve : Shape Float := .boundedSigmoid 200.0 201.0 false
    let f := fun x => @evaluate Float (withElementary roundedElementary) x curve
    curve.validate = .ok () ∧ Proportioned 200.0 201.0 ∧ f 200.0 = 0.1 ∧ f 201.0 = 0.1 := by
  intro curve f
  have hlow : Within 200 200 (200.0 : Float) := within_whole (n := 200) (by norm_num) (by norm_num)
  have hhigh : Within 201 201 (201.0 : Float) := within_whole (n := 201) (by norm_num) (by norm_num)
  have h : Proportioned 200.0 201.0 := by
    refine ⟨hlow.finite, hhigh.finite, ?_, ?_, ?_, ?_⟩ <;> rw [hlow.value_eq, hhigh.value_eq] <;> norm_num
  have hcurve : ∀ {x : Float}, isFinite x = true → f x = curveAt roundedElementary 200.0 201.0 x :=
    fun hx => evaluate_eq_curveAt accurate_roundedElementary false h hx
  have hexponent := le_abs_exponent accurate_roundedElementary h (c := 200) (by norm_num)
    (by rw [hlow.value_eq, hhigh.value_eq]; norm_num)
  have hflat := curveAt_of_far accurate_roundedElementary (h.exponents accurate_roundedElementary)
    (le_trans (by norm_num) hexponent)
  refine ⟨outcome_of_toOption (by decide +kernel), h, ?_, ?_⟩
  · rw [hcurve h.first_finite, hflat.1]
  · rw [hcurve h.second_finite, hflat.2]

end Shape

end FuzzyInference

import FuzzyInference.Proofs.Double.Elementary
import FuzzyInference.Proofs.Double.Width
import FuzzyInference.Proofs.Membership.Degree

/-!
# Pieces of curves give degrees

The slopes, ramps and quotients of exponentials that families of curves share. Each is a degree because of a
guard: a gradient that is not zero does not make NaN of an infinite distance, a ramp is handled apart where
its width is not a positive number, and a quotient by 1 and more is at most its dividend. Where a product
of zero and infinity is not guarded against, it is stated when it is NaN.

## Contents
- `clamp_within`, `slope_within`, `risingRamp_within`, `fallingRamp_within`: straight pieces.
- `div_one_add_within`, `logistic_within`: quotients.
- `gauss_within`, `boundedExponential_within`, with `simpleSigmoid_isNaN_iff`, `gauss_isNaN_iff`,
  `boundedExponential_isNaN_iff`: exponents without a guard.
-/

namespace FuzzyInference

open Scalar Double

/-! ## Pieces of curves -/

section Pieces

variable {x y low high core unsupported : Float}

/-- Clamping between degrees gives a degree. -/
theorem clamp_within (hy : isNaN y = false) (hlow : Within 0 1 low) (hhigh : Within 0 1 high) :
    Within 0 1 (clamp y low high) := by
  unfold clamp
  split
  next => exact hlow
  next hlt =>
    split
    next => exact hhigh
    next hgt =>
      rw [← le_iff_not_lt hlow.not_isNaN hy] at hlt
      rcases (finite_le_iff hlow.finite).mp hlt with ⟨hfinite, hle⟩ | hinfinite
      · rw [lt_iff_value hhigh.finite hfinite, not_lt] at hgt
        exact ⟨hfinite, hlow.le.trans hle, hgt.trans hhigh.ge⟩
      · exact absurd (lt_infinity hhigh.finite hinfinite) hgt

theorem mean_within (hu : Within 0 1 core) (hv : Within 0 1 unsupported) :
    Within 0 1 ((core + unsupported) / 2.0) := by
  have hs := add_le_two hu hv
  refine within_div hs.finite within_two.finite hs.le ?_ ?_ <;> rw [within_two.value_eq]
  · exact hs.ge
  · norm_num

/-- A slope is a degree: its gradient is not zero where it is used, so it does not meet an infinite
    distance in NaN. -/
theorem slope_within {inverse : Bool} (hx : isFinite x = true) (hlow : isNaN low = false)
    (hcore : Within 0 1 core) (hunsupported : Within 0 1 unsupported) :
    Within 0 1 (slope low high core unsupported inverse x) := by
  have htop : Within 0 1 (if inverse then unsupported else core) := by split <;> assumption
  have hbottom : Within 0 1 (if inverse then core else unsupported) := by split <;> assumption
  unfold slope
  -- the inverse only exchanges the heights
  generalize (if inverse then unsupported else core) = top at htop
  generalize (if inverse then core else unsupported) = bottom at hbottom
  have hmiddle := mean_within htop hbottom
  dsimp only
  split
  next => exact hmiddle
  next =>
    split
    next => exact hmiddle
    next hzero =>
      split
      next =>
        split
        next => exact hbottom
        next => split <;> assumption
      -- a finite gradient: the point on the line is no NaN, and clamped between the heights
      next hgradient =>
        rw [Bool.not_eq_true, Bool.not_eq_false'] at hgradient
        rw [beq_zero_iff_value hgradient] at hzero
        split
        next => exact hbottom
        next =>
          split
          next => exact htop
          next =>
            have hdistance : isNaN (x - low) = false := not_isNaN_finite_sub hx hlow
            have hproduct : isNaN ((top - bottom) / (high - low) * (x - low)) = false := by
              rw [Bool.eq_false_iff, ne_eq, isNaN_finite_mul_iff hgradient hdistance]
              exact fun h => hzero h.1
            exact clamp_within (not_isNaN_add_finite hproduct hbottom.finite)
              (within_of_lesser htop hbottom) (within_of_greater htop hbottom)

/-- A ramp whose width is zero or infinite stays halfway or steps. -/
theorem degenerateRamp?_within {rises : Bool} {m : Float}
    (h : degenerateRamp? low high rises x = some m) : Within 0 1 m := by
  have hzero : Within 0 1 0.0 := within_zero.mono le_rfl zero_le_one
  have hone : Within 0 1 1.0 := within_one.mono zero_le_one le_rfl
  have hhalf : Within 0 1 0.5 := within_half.mono (by norm_num) (by norm_num)
  have hstep : Within 0 1 (if x < low then 0.0 else if low < x then 1.0 else 0.5) := by
    split
    next => exact hzero
    next =>
      split
      next => exact hone
      next => exact hhalf
  unfold degenerateRamp? at h
  dsimp only at h
  -- whichever degenerate case it is, the answer is a half, the step or its complement
  generalize (if x < low then (0.0 : Float) else if low < x then 1.0 else 0.5) = step at h hstep
  split at h
  next =>
    cases h
    exact hhalf
  next =>
    split at h
    next =>
      cases h
      split
      next => exact hstep
      next => exact one_sub_within hstep
    next => cases h

/-- A ramp is not degenerate when its width is finite and not 0. -/
theorem degenerateRamp?_eq_none {rises : Bool} (h : degenerateRamp? low high rises x = none) :
    isInfinite (high - low) = false ∧ ¬ (high - low == 0.0) = true := by
  unfold degenerateRamp? at h
  dsimp only at h
  split at h
  next => cases h
  next hinfinite =>
    split at h
    next => cases h
    next hzero => exact ⟨Bool.eq_false_iff.mpr hinfinite, hzero⟩

/-- The width of a ramp that is neither flat nor a step, around a point. -/
theorem ramp_width {rises : Bool} (hx : isFinite x = true) (hlow : low ≤ x) (hhigh : x ≤ high)
    (h : degenerateRamp? low high rises x = none) :
    Spanned low x high ∧ 0 < value (high - low) := by
  obtain ⟨hinfinite, hzero⟩ := degenerateRamp?_eq_none h
  have hspan := spanned_of_le hx hlow hhigh hinfinite
  rw [beq_zero_iff_value hspan.finite_width] at hzero
  exact ⟨hspan, lt_of_le_of_ne hspan.width_nonneg (Ne.symm hzero)⟩

/-- A ramp gives degrees, degenerate or not. -/
theorem risingRamp_within (hx : isFinite x = true) (hlow : isNaN low = false) :
    Within 0 1 (risingRamp low high x) := by
  have hnan := not_isNaN_of_isFinite hx
  have hzero : Within 0 1 0.0 := within_zero.mono le_rfl zero_le_one
  have hone : Within 0 1 1.0 := within_one.mono zero_le_one le_rfl
  unfold risingRamp
  cases hdegenerate : degenerateRamp? low high true x with
  | some m => exact degenerateRamp?_within hdegenerate
  | none =>
    rw [Option.getD_none]
    split
    next => exact hzero
    next hlt =>
      rw [← le_iff_not_lt hlow hnan] at hlt
      split
      next hle =>
        -- inside a proper ramp the quotient is a number, and the clamp does the rest
        obtain ⟨hspan, hpos⟩ := ramp_width hx hlt hle hdegenerate
        have hdistance := hspan.distance
        have hquotient := within_div hdistance.finite hspan.finite_width hdistance.le hdistance.ge hpos
        exact clamp_within hquotient.not_isNaN hzero hone
      next => exact hone

theorem fallingRamp_within (hx : isFinite x = true) (hlow : isNaN low = false) :
    Within 0 1 (fallingRamp low high x) := by
  have hnan := not_isNaN_of_isFinite hx
  have hzero : Within 0 1 0.0 := within_zero.mono le_rfl zero_le_one
  have hone : Within 0 1 1.0 := within_one.mono zero_le_one le_rfl
  unfold fallingRamp
  cases hdegenerate : degenerateRamp? low high false x with
  | some m => exact degenerateRamp?_within hdegenerate
  | none =>
    rw [Option.getD_none]
    split
    next => exact hone
    next hgt =>
      split
      -- inside a proper ramp both quotients are numbers, and so is their difference
      next hlt =>
        have hle : low ≤ x := by
          rw [le_iff_not_lt hlow hnan]
          rw [le_iff_not_lt hnan hlow, not_not] at hgt
          exact not_lt_of_lt hgt
        obtain ⟨hspan, hpos⟩ := ramp_width hx hle (le_of_less hlt) hdegenerate
        have hlt' := hspan.le.trans_lt ((lt_iff_value hx hspan.finite_high).mp hlt)
        have hfirst := isFinite_div_sub hspan.finite_low hspan.finite_high hlt' hspan.finite_width
        have hsecond := (rounds_div hx hspan.finite_width hpos.ne').not_isNaN
        exact clamp_within (not_isNaN_finite_sub hfirst hsecond) hzero hone
      next => exact hzero

/-- A degree over at least 1 is at most the degree. -/
theorem div_within {limit d : Float} (hlimit : Within 0 1 limit) (hd : (1.0 : Float) ≤ d) :
    Within 0 (value limit) (limit / d) := by
  rcases (finite_le_iff within_one.finite).mp hd with ⟨hfinite, hle⟩ | hinfinite
  · rw [within_one.value_eq] at hle
    refine (rounds_div hlimit.finite hfinite (by linarith)).within exact_zero (exact_value hlimit.finite)
      (div_nonneg hlimit.le (by linarith)) ?_
    exact div_le_self hlimit.le hle
  · obtain ⟨hquotient, hvalue⟩ := isFinite_div_infinity hlimit.finite hinfinite
    exact ⟨hquotient, hvalue.ge, hvalue.le.trans hlimit.le⟩

theorem one_le_one_add {t : Float} (ht : (0.0 : Float) ≤ t) : (1.0 : Float) ≤ 1.0 + t := by
  rw [finite_le_iff within_one.finite, within_one.value_eq]
  rcases zero_le_iff.mp ht with ⟨hfinite, h0⟩ | hinfinite
  · have hround := rounds_add within_one.finite hfinite
    rw [within_one.value_eq] at hround
    have hle := nearest_mono (le_add_of_nonneg_right h0 : (1 : ℚ) ≤ 1 + value t)
    rw [exact_one.nearest_eq] at hle
    rcases hround with ⟨hz, hv⟩ | ⟨-, hz⟩ | ⟨hsmall, -⟩
    · exact Or.inl ⟨hz, hv ▸ hle⟩
    · exact Or.inr hz
    · have hlarge : (0 : ℚ) < tooLarge := zpow_pos two_pos _
      linarith
  · exact Or.inr (add_infinity within_one.finite hinfinite)

/-- A degree over 1 and something that is not negative. -/
theorem div_one_add_within {limit t : Float} (hlimit : Within 0 1 limit) (ht : (0.0 : Float) ≤ t) :
    Within 0 1 (limit / (1.0 + t)) :=
  (div_within hlimit (one_le_one_add ht)).mono le_rfl hlimit.ge

/-- A line cut at 0 and 1 gives degrees, unless it is NaN. -/
theorem clipped_line_within (hy : isNaN y = false) :
    Within 0 1 (if y ≤ 0.0 then 0.0 else if 1.0 ≤ y then 1.0 else y) := by
  split
  next => exact within_zero.mono le_rfl zero_le_one
  next hlow =>
    split
    next => exact within_one.mono zero_le_one le_rfl
    next hhigh =>
      rw [le_iff_not_lt hy within_zero.not_isNaN, not_not] at hlow
      rw [le_iff_not_lt within_one.not_isNaN hy, not_not] at hhigh
      exact inUnit_iff.mp (by simp [inUnit, le_of_less hlow, le_of_less hhigh])

end Pieces

/-! ## Curves of exponentials -/

section Exponentials

variable {E : Elementary Float} {x low high : Float}

theorem expOrOne_nonneg (hE : ExpLaws E) (e : Float) : (0.0 : Float) ≤ @expOrOne Float (withElementary E) e := by
  show (0.0 : Float) ≤ if isNaN e then 1.0 else E.exp e
  split
  next =>
    rw [le_iff_value within_zero.finite within_one.finite, within_zero.value_eq, within_one.value_eq]
    exact zero_le_one
  next h => exact hE.nonneg (Bool.eq_false_iff.mpr h)

theorem exp_within (hE : ExpLaws E) {e : Float} (he : IsSigned .negative e) : Within 0 1 (E.exp e) := by
  have hle := hE.mono he.le_zero
  rw [hE.zero] at hle
  exact inUnit_iff.mp (by simp [inUnit, hE.nonneg (not_isNaN_of_le he.le_zero).1, hle])

theorem one_le_exp (hE : ExpLaws E) {e : Float} (he : IsSigned .positive e) : (1.0 : Float) ≤ E.exp e := by
  rw [← hE.zero]
  exact hE.mono (zero_le_iff.mpr he)

/-- The quotient of a logistic curve, whatever became of its exponents. -/
theorem logisticQuotient_within {p q : Float} (hp : (0.0 : Float) ≤ p)
    (hq : isNaN q = false → (0.0 : Float) ≤ q) :
    Within 0 1 (1.0 / (1.0 + 9.0 * (if isNaN (p * q) then 1.0 else p * q))) := by
  have hnine : Within 9 9 9.0 := within_whole (n := 9) (by norm_num) (by norm_num)
  have hr : (0.0 : Float) ≤ if isNaN (p * q) then 1.0 else p * q := by
    split
    next => exact within_one.nonneg zero_le_one
    next hnan =>
      rw [Bool.not_eq_true] at hnan
      have hq' : isNaN q = false := by
        by_contra h
        rw [isNaN_mul_right (Bool.eq_true_of_not_eq_false h)] at hnan
        cases hnan
      exact mul_nonneg_of_not_isNaN hp (hq hq') hnan
  generalize (if isNaN (p * q) then 1.0 else p * q) = r at hr
  have hnan : isNaN (9.0 * r) = false := by
    rw [Bool.eq_false_iff, ne_eq, isNaN_finite_mul_iff hnine.finite (not_isNaN_of_le hr).2, hnine.value_eq]
    exact fun h => absurd h.1 (by norm_num)
  exact div_one_add_within (within_one.mono zero_le_one le_rfl)
    (mul_nonneg_of_not_isNaN (hnine.nonneg (by norm_num)) hr hnan)

theorem exp_nonneg_of_not_isNaN (hE : ExpLaws E) {e : Float} (h : isNaN (E.exp e) = false) :
    (0.0 : Float) ≤ E.exp e := by
  refine hE.nonneg ?_
  by_contra hnan
  rw [hE.nan (Bool.eq_true_of_not_eq_false hnan)] at h
  cases h

theorem logistic_within (hE : ExpLaws E) {inverse : Bool} :
    Within 0 1 (@logistic Float (withElementary E) low high inverse x) := by
  unfold logistic
  dsimp only
  generalize (if inverse then high else low) = first
  generalize (4.0 * E.ln 3.0 / (first - if inverse then low else high)) = k
  refine logisticQuotient_within ?_ ?_
  · split
    next => exact within_zero.nonneg le_rfl
    next => exact expOrOne_nonneg hE _
  · split
    next => exact fun _ => within_one.nonneg zero_le_one
    next => exact exp_nonneg_of_not_isNaN hE

/-- The exponent is NaN only for an infinite steepness at 0. -/
theorem simpleSigmoid_isNaN_iff (hx : isFinite x = true) {k : Float} (hk : isNaN k = false) :
    isNaN (x * -k) = true ↔ isInfinite k = true ∧ (x == 0.0) = true := by
  rw [isNaN_mul_iff (not_isNaN_of_isFinite hx) (isNaN_neg.trans hk), isInfinite_neg,
    not_isInfinite_of_isFinite hx]
  simp [and_comm]

/-- The exponent is NaN only for an infinite sharpness at the center. -/
theorem gauss_isNaN_iff (hx : isFinite x = true) {center b : Float} (hc : isNaN center = false)
    (hb : (0.0 : Float) < b) :
    isNaN (-b * square (x - center)) = true ↔ isInfinite b = true ∧ (square (x - center) == 0.0) = true := by
  have hsquare := (not_isNaN_of_le (square_nonneg (not_isNaN_finite_sub hx hc))).2
  have hnan := (not_isNaN_of_lt hb).2
  have hzero : ¬ (b == 0.0) = true := by
    rw [beq_iff_not_lt hnan within_zero.not_isNaN]
    exact fun h => h.2 hb
  rw [isNaN_mul_iff (isNaN_neg.trans hnan) hsquare, isInfinite_neg, beq_zero_neg hnan]
  simp [hzero]

/-- The bell curve is a degree where its exponent is a number. -/
theorem gauss_within (hE : ExpLaws E) {center b height : Float} (hx : isFinite x = true)
    (hc : isNaN center = false) (hb : (0.0 : Float) < b) (hheight : Within 0 1 height)
    (h : isNaN (-b * square (x - center)) = false) :
    Within 0 1 (height * E.exp (-b * square (x - center))) := by
  have hsquare := zero_le_iff.mp (square_nonneg (not_isNaN_finite_sub hx hc))
  have hneg := (zero_le_iff.mp (le_of_less hb)).neg
  have hsign : Float.Model.UnpackedFloat.Sign.negative * .positive = .negative := rfl
  have hmul := hneg.mul hsquare h
  rw [hsign] at hmul
  exact mul_within hheight (exp_within hE hmul)

/-- The exponential growth is a degree where its exponent is a number. -/
theorem boundedExponential_within (hE : ExpLaws E) {rate limit : Float} (hx : (0.0 : Float) ≤ x)
    (hrate : (0.0 : Float) < rate) (hlimit : Within 0 1 limit) (h : isNaN (rate * x) = false) :
    Within 0 1 (limit - limit / E.exp (rate * x)) := by
  have hexp := one_le_exp hE (zero_le_iff.mp (mul_nonneg_of_not_isNaN (le_of_less hrate) hx h))
  have hquotient := div_within hlimit hexp
  refine (rounds_sub hlimit.finite hquotient.finite).within exact_zero exact_one ?_ ?_
  · linarith [hquotient.ge]
  · linarith [hquotient.le, hlimit.ge]

/-- The exponent is NaN only for an infinite rate at 0. -/
theorem boundedExponential_isNaN_iff (hx : isFinite x = true) {rate : Float} (hrate : (0.0 : Float) < rate) :
    isNaN (rate * x) = true ↔ isInfinite rate = true ∧ (x == 0.0) = true := by
  rw [isNaN_mul_iff (not_isNaN_of_lt hrate).2 (not_isNaN_of_isFinite hx), not_isInfinite_of_isFinite hx]
  simp

end Exponentials

end FuzzyInference

import FuzzyInference.Proofs.Double.Spacing
import FuzzyInference.Proofs.Membership.Accepted
import FuzzyInference.Proofs.Membership.Segment

/-!
# Ramps without width

Between bounds that coincide a ramp is a step. Two of the families compare with the bound itself, the third
one with the point half way between the bounds, which it computes as half of their sum. This is the bound as
long as the sum is a number. From 2^1023 on the sum is infinite, and so is the point of the step, so that the
curve keeps the one height or the other at all numbers.

## Contents
- `stepAt`: a step. `stepAt_congr`, `stepAt_infinity`, `stepAt_negative_infinity`: where it is.
- `slope_vertical_eq`, `risingRamp_vertical`, `fallingRamp_vertical`: ramps without width.
- `Shape.boundedLinear_vertical`: where the step is right. `Shape.boundedLinear_loses_step`: where it is not.
-/

namespace FuzzyInference

open Scalar Double

/-! ## Steps -/

/-- One value before a point, another one at it and a third one behind it. -/
def stepAt (point before middle behind x : Float) : Float :=
  if x < point then before else if point < x then behind else middle

section Steps

variable {a b x before middle behind : Float}

/-- A step compares values, so the two zeros make the same step. -/
theorem stepAt_congr (ha : isFinite a = true) (hb : isFinite b = true) (hx : isFinite x = true)
    (h : value a = value b) : stepAt a before middle behind x = stepAt b before middle behind x := by
  have hlow : x < a ↔ x < b := by rw [lt_iff_value hx ha, lt_iff_value hx hb, h]
  have hhigh : a < x ↔ b < x := by rw [lt_iff_value ha hx, lt_iff_value hb hx, h]
  unfold stepAt
  simp only [hlow, hhigh]

theorem stepAt_self (a : Float) : stepAt a before middle behind a = middle := by
  unfold stepAt
  rw [if_neg (not_lt_self a), if_neg (not_lt_self a)]

/-- All numbers are before an infinite point -/
theorem stepAt_infinity (hx : isFinite x = true) (ha : a.toModel.unpack = .infinity .positive) :
    stepAt a before middle behind x = before := if_pos (lt_infinity hx ha)

/-- or behind it. -/
theorem stepAt_negative_infinity (hx : isFinite x = true) (ha : a.toModel.unpack = .infinity .negative) :
    stepAt a before middle behind x = behind := by
  have hlt := infinity_lt ha hx
  unfold stepAt
  rw [if_neg (not_lt_of_lt hlt), if_pos hlt]

end Steps

/-! ## Ramps without width -/

section Vertical

variable {a x core unsupported : Float}

theorem within_sub_self (ha : isFinite a = true) : Within 0 0 (a - a) :=
  (rounds_sub ha ha).within exact_zero exact_zero (sub_self (value a)).ge (sub_self (value a)).le

/-- The width of zero makes the gradient infinite, whereupon the step is put half way between the bounds. -/
theorem slope_vertical {inverse : Bool} (ha : isFinite a = true) (hcore : Within 0 1 core)
    (hunsupported : Within 0 1 unsupported) (hlt : value unsupported < value core) :
    slope a a core unsupported inverse x =
      stepAt ((a + a) / 2.0) (if inverse then core else unsupported) ((unsupported + core) / 2.0)
        (if inverse then unsupported else core) x := by
  have htop : Within 0 1 (if inverse then unsupported else core) := by split <;> assumption
  have hbottom : Within 0 1 (if inverse then core else unsupported) := by split <;> assumption
  have hne : value (if inverse then unsupported else core) ≠ value (if inverse then core else unsupported) := by
    split
    next => exact hlt.ne
    next => exact hlt.ne'
  have hmiddle : (if inverse then unsupported else core) + (if inverse then core else unsupported) =
      unsupported + core := by
    split
    next => rfl
    next => exact add_swap core unsupported
  unfold slope
  dsimp only
  rw [hmiddle]
  -- from here on it does not matter which of the heights is the larger one
  generalize (if inverse then unsupported else core) = top at htop hne
  generalize (if inverse then core else unsupported) = bottom at hbottom hne
  have hdifferent : ¬ (top == bottom) = true := by rwa [beq_iff_value htop.finite hbottom.finite]
  have hrise : isFinite (top - bottom) = true := (rise_within (p := (a, bottom)) (q := (a, top)) hbottom htop).finite
  have hwidth := within_sub_self ha
  obtain ⟨s, hinfinity⟩ := infinity_div_zero hrise (value_sub_ne_zero htop.finite hbottom.finite hne hrise)
    hwidth.finite hwidth.value_eq
  rw [if_neg hdifferent, if_neg (Bool.eq_false_iff.mp (not_beq_zero_of_infinity hinfinity)), if_pos]
  · rfl
  · rw [not_isFinite_of_infinity hinfinity]
    rfl

/-- The sum of the bounds is too large from 2^1023 on; the point half way between them is then infinite and
    not at the bounds. -/
theorem slope_vertical_eq (ha : isFinite a = true) (hx : isFinite x = true) (hcore : Within 0 1 core)
    (hunsupported : Within 0 1 unsupported) (hlt : value unsupported < value core) (inverse : Bool) :
    slope a a core unsupported inverse x =
      if |value a| < 2 ^ (1023 : ℤ) then
        stepAt a (if inverse then core else unsupported) ((unsupported + core) / 2.0)
          (if inverse then unsupported else core) x
      else if 0 < value a then (if inverse then core else unsupported)
      else (if inverse then unsupported else core) := by
  rw [slope_vertical ha hcore hunsupported hlt]
  by_cases h : |value a| < 2 ^ (1023 : ℤ)
  · have hmean := within_mean ha h
    rw [if_pos h]
    exact stepAt_congr hmean.finite ha hx hmean.value_eq
  · rw [if_neg h]
    rw [not_lt] at h
    by_cases hpos : 0 < value a
    · rw [abs_of_pos hpos] at h
      rw [if_pos hpos]
      exact stepAt_infinity hx (infinity_mean (s := .positive) ha rfl h)
    · rw [abs_of_nonpos (not_lt.mp hpos)] at h
      rw [if_neg hpos]
      exact stepAt_negative_infinity hx (infinity_mean (s := .negative) ha (neg_neg _).symm h)

/-- With equal bounds the ramp is a step that answers a half at the bound. -/
theorem degenerateRamp?_vertical (ha : isFinite a = true) (rises : Bool) (x : Float) :
    degenerateRamp? a a rises x =
      some (if rises then stepAt a 0.0 0.5 1.0 x else 1.0 - stepAt a 0.0 0.5 1.0 x) := by
  have hwidth := within_sub_self ha
  unfold degenerateRamp?
  dsimp only
  rw [if_neg (Bool.eq_false_iff.mp (not_isInfinite_of_isFinite hwidth.finite)),
    if_pos ((beq_zero_iff_value hwidth.finite).mpr hwidth.value_eq)]
  rfl

/-- A vertical ramp steps between 0 and 1, with a half at its bound. -/
theorem risingRamp_vertical (ha : isFinite a = true) (x : Float) :
    risingRamp a a x = stepAt a 0.0 0.5 1.0 x := by
  unfold risingRamp
  rw [degenerateRamp?_vertical ha]
  rfl

theorem fallingRamp_vertical (ha : isFinite a = true) (x : Float) :
    fallingRamp a a x = stepAt a 1.0 0.5 0.0 x := by
  have hzero : (1.0 : Float) - 0.0 = 1.0 := by decide +kernel
  have hone : (1.0 : Float) - 1.0 = 0.0 := by decide +kernel
  have hhalf : (1.0 : Float) - 0.5 = 0.5 := by decide +kernel
  unfold fallingRamp
  rw [degenerateRamp?_vertical ha, Option.getD_some, if_neg Bool.false_ne_true]
  unfold stepAt
  split
  next => exact hzero
  next =>
    split
    next => exact hone
    next => exact hhalf

namespace Shape

theorem accepted_of_heights (ha : isFinite a = true) (hunsupported : (0.0 : Float) ≤ unsupported)
    (hlt : unsupported < core) (hcore : core ≤ 1.0) (inverse : Bool) :
    (boundedLinear a a core unsupported inverse).validate = .ok () := by
  have hself : a ≤ a := (le_iff_value ha ha).mpr le_rfl
  have hheights : checkHeights core unsupported false = .ok () := by
    refine ensure_eq_ok_iff.mpr ?_
    simp [hunsupported, le_of_less hlt, hcore]
  exact check_bind_eq_ok_iff.mpr ⟨ensure_eq_ok_iff.mpr (decide_eq_true hself), hheights⟩

/-- A step of full height is that of a ramp without width where it is at its bounds, and nowhere else: its value
    at the bounds is then not one half. -/
theorem boundedLinear_agrees_iff (ha : isFinite a = true) (inverse : Bool) :
    (∀ x, isFinite x = true → (boundedLinear a a 1.0 0.0 inverse).evaluate x =
      stepAt a (if inverse then 1.0 else 0.0) 0.5 (if inverse then 0.0 else 1.0) x) ↔
        |value a| < 2 ^ (1023 : ℤ) := by
  have hone : Within 0 1 1.0 := within_one.mono zero_le_one le_rfl
  have hzero : Within 0 1 0.0 := within_zero.mono le_rfl zero_le_one
  have hlt : value 0.0 < value 1.0 := by
    rw [within_zero.value_eq, within_one.value_eq]
    exact zero_lt_one
  have hmiddle : ((0.0 : Float) + 1.0) / 2.0 = 0.5 := by decide +kernel
  have hvalue := fun x (hx : isFinite x = true) =>
    slope_vertical_eq ha hx hone hzero hlt inverse
  rw [hmiddle] at hvalue
  constructor
  · intro h
    by_contra hlarge
    -- at the asymptote the plain step gives one of the heights, where the midpoint is due
    have hat := (hvalue a ha).symm.trans (h a ha)
    rw [if_neg hlarge, stepAt_self] at hat
    have hdifferent : (0.0 : Float) ≠ 0.5 ∧ (1.0 : Float) ≠ 0.5 := by decide +kernel
    split at hat <;> split at hat
    exacts [hdifferent.2 hat, hdifferent.1 hat, hdifferent.1 hat, hdifferent.2 hat]
  · intro h x hx
    exact (hvalue x hx).trans (if_pos h)

/-- **A step is where it should be unless the bounds are too large to be added.** Below 2^1023 in magnitude it is
    at the bounds, with the mean of the heights there, as for the other ramps; from there on one height is
    kept everywhere, and the families differ. -/
theorem boundedLinear_vertical (ha : isFinite a = true) (hunsupported : (0.0 : Float) ≤ unsupported)
    (hlt : unsupported < core) (hcore : core ≤ 1.0) :
    (∀ inverse,
      (boundedLinear a a core unsupported inverse).validate = .ok () ∧
        ∀ x, isFinite x = true →
          (boundedLinear a a core unsupported inverse).evaluate x =
            if |value a| < 2 ^ (1023 : ℤ) then
              stepAt a (if inverse then core else unsupported) ((unsupported + core) / 2.0)
                (if inverse then unsupported else core) x
            else if 0 < value a then (if inverse then core else unsupported)
            else (if inverse then unsupported else core)) ∧
      (∀ x, (rising a a).evaluate x = stepAt a 0.0 0.5 1.0 x ∧
        (falling a a).evaluate x = stepAt a 1.0 0.5 0.0 x) ∧
      ((∀ x, isFinite x = true →
          (boundedLinear a a 1.0 0.0 false).evaluate x = (rising a a).evaluate x) ↔
        |value a| < 2 ^ (1023 : ℤ)) ∧
      ((∀ x, isFinite x = true →
          (boundedLinear a a 1.0 0.0 true).evaluate x = (falling a a).evaluate x) ↔
        |value a| < 2 ^ (1023 : ℤ)) := by
  obtain ⟨hzero, hone⟩ := within_of_ordered hunsupported (le_of_less hlt) hcore
  have hvalue := (lt_iff_value hzero.finite hone.finite).mp hlt
  have hramps : ∀ x, (rising a a).evaluate x = stepAt a 0.0 0.5 1.0 x ∧
      (falling a a).evaluate x = stepAt a 1.0 0.5 0.0 x :=
    fun x => ⟨risingRamp_vertical ha x, fallingRamp_vertical ha x⟩
  refine ⟨fun inverse => ⟨accepted_of_heights ha hunsupported hlt hcore inverse,
    fun x hx => slope_vertical_eq ha hx hone hzero hvalue inverse⟩, hramps, ?_, ?_⟩
  · simp only [(hramps _).1]
    exact boundedLinear_agrees_iff ha false
  · simp only [(hramps _).2]
    exact boundedLinear_agrees_iff ha true

/-- At 5, with a fall from 1 to 1/4. -/
theorem boundedLinear_vertical_five :
    isFinite (5.0 : Float) = true ∧ (0.0 : Float) ≤ 0.25 ∧ (0.25 : Float) < 1.0 ∧ (1.0 : Float) ≤ 1.0 ∧
      ∀ x, isFinite x = true →
        (boundedLinear 5.0 5.0 1.0 0.25 true).evaluate x = stepAt 5.0 1.0 ((0.25 + 1.0) / 2.0) 0.25 x := by
  have hfive : Within 5 5 5.0 := within_whole (n := 5) (by norm_num) (by norm_num)
  have h0 : (0.0 : Float) ≤ 0.25 := by decide +kernel
  have h1 : (0.25 : Float) < 1.0 := by decide +kernel
  have h2 : (1.0 : Float) ≤ 1.0 := by decide +kernel
  have hsmall : |value 5.0| < 2 ^ (1023 : ℤ) := by
    rw [hfive.value_eq, abs_of_pos (by norm_num)]
    exact (show (5 : ℚ) < 2 ^ (3 : ℤ) by norm_num).trans_le (zpow_le_zpow_right₀ one_le_two (by norm_num))
  refine ⟨hfive.finite, h0, h1, h2, fun x hx => ?_⟩
  have hstep := ((boundedLinear_vertical hfive.finite h0 h1 h2).1 true).2 x hx
  rwa [if_pos hsmall] at hstep

/-- **With bounds of 1e308 there is no step:** at and behind them the curve is still 0. -/
theorem boundedLinear_loses_step :
    (boundedLinear (1e308 : Float) 1e308 1.0 0.0 false).validate = .ok () ∧
      isFinite (1.7e308 : Float) = true ∧ (1e308 : Float) < 1.7e308 ∧
      (boundedLinear (1e308 : Float) 1e308 1.0 0.0 false).evaluate 1e308 = 0.0 ∧
      (boundedLinear (1e308 : Float) 1e308 1.0 0.0 false).evaluate 1.7e308 = 0.0 ∧
      (rising (1e308 : Float) 1e308).evaluate 1e308 = 0.5 ∧
      (rising (1e308 : Float) 1e308).evaluate 1.7e308 = 1.0 := by
  refine ⟨outcome_of_toOption ?_, ?_, ?_, ?_, ?_, ?_, ?_⟩ <;> decide +kernel

end Shape

end Vertical

end FuzzyInference

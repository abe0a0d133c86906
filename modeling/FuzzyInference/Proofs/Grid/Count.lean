import FuzzyInference.Grid
import FuzzyInference.Proofs.Double.Whole

/-!
# Counting steps in doubles

The number of steps of a grid depends on the quotient of width and resolution alone, and on that as exact
numbers do: none of the comparisons on the way is blurred by rounding, and the threshold under which a
quotient counts as whole is rounded only in its last places.

## Contents
- `tolerance`, `steps`: the number of steps, by arithmetic. `count_eq`: the code's count.
- `tolerance_mem`: the threshold is a billionth.
- `one_le_steps`, `steps_le`, `lt_steps_add_one`, `steps_mul_le`: how many steps there are.
-/

namespace FuzzyInference

open Scalar

namespace Grid

open Double

variable {q : ℚ} {n : ℕ} {ratio : Float}

/-! ## The number of steps -/

/-- How far from a whole number a quotient may be to count as that number. -/
def tolerance (n : ℕ) : ℚ := nearest (nearest (1 / 10 ^ 9) * max (n : ℚ) 1)

/-- The number of steps for a quotient of width and resolution. -/
def steps (q : ℚ) : ℕ :=
  max (if |q - nearestWhole q| ≤ tolerance (nearestWhole q) then nearestWhole q else ⌊q⌋₊) 1

/-- The tolerance's factor is the double nearest to a billionth. -/
theorem within_hair : Within (nearest (1 / 10 ^ 9)) (nearest (1 / 10 ^ 9)) (hair : Float) := by
  have hlog : 0 ≤ ((1 : ℕ).log2 : ℤ) := Int.natCast_nonneg _
  have hround : Rounds ((1 : ℕ) * 10 ^ (-9 : ℤ)) (hair : Float) :=
    rounds_of_isNearest (by positivity)
      (isNearest_ofScientific (m := 1) one_pos (e := -9) (by omega) (by norm_num))
  have hvalue : (((1 : ℕ) : ℚ) * 10 ^ (-9 : ℤ)) = 1 / 10 ^ 9 := by norm_num
  rw [hvalue] at hround
  exact hround.within_nearest exact_zero exact_one (by norm_num) (by norm_num)

/-- The tolerance at a whole number, as it is computed. -/
theorem within_tolerance {x : Float} (hx : Within n n x) (hn : n ≤ 2 ^ 52) :
    Within (tolerance n) (tolerance n) (hair * greater x 1.0) := by
  have hlarger := within_greater hx within_one
  have hround := rounds_mul within_hair.finite hlarger.finite
  rw [within_hair.value_eq, hlarger.value_eq] at hround
  have hhair : 0 ≤ nearest (1 / 10 ^ 9) := nearest_nonneg (by norm_num)
  have hhair' : nearest (1 / 10 ^ 9) ≤ 1 := (nearest_mono (by norm_num)).trans exact_one.nearest_eq.le
  have hmax : max (n : ℚ) 1 ≤ ((2 ^ 52 : ℕ) : ℚ) := max_le (by exact_mod_cast hn) (by norm_num)
  have hpos : 0 ≤ max (n : ℚ) 1 := le_max_of_le_right one_pos.le
  exact hround.within_nearest exact_zero (exact_natCast (n := 2 ^ 52) (by norm_num))
    (mul_nonneg hhair hpos) ((mul_le_of_le_one_left hpos hhair').trans hmax)

/-- The distance to the nearest whole number is not rounded, so the comparison is exact. -/
theorem within_wholeSteps (hx : isFinite ratio = true) (h0 : 0 ≤ value ratio) (h : value ratio < 2 ^ 52) :
    ∃ n : ℕ, n = (if |value ratio - nearestWhole (value ratio)| ≤ tolerance (nearestWhole (value ratio))
      then nearestWhole (value ratio) else ⌊value ratio⌋₊) ∧ Within n n (wholeSteps ratio) := by
  have hnearest : Within (nearestWhole (value ratio)) (nearestWhole (value ratio)) (Scalar.round ratio) :=
    within_round hx h0 h
  have hexact := exact_sub_nearestWhole hx h0
  have hle : nearestWhole (value ratio) ≤ 2 ^ 52 := nearestWhole_le (by exact_mod_cast h)
  have hdistance := rounds_sub hx hnearest.finite
  rw [hnearest.value_eq] at hdistance
  have hdistance := hdistance.within hexact hexact le_rfl le_rfl
  have habs := within_abs hdistance.finite
  rw [hdistance.value_eq] at habs
  have htolerance := within_tolerance hnearest hle
  refine ⟨_, rfl, ?_⟩
  -- the test on doubles is the test on the rational numbers they stand for
  have hcompare : abs (ratio - Scalar.round ratio) ≤ hair * greater (Scalar.round ratio) 1.0 ↔
      |value ratio - nearestWhole (value ratio)| ≤ tolerance (nearestWhole (value ratio)) := by
    rw [le_iff_value habs.finite htolerance.finite, habs.value_eq, htolerance.value_eq]
  show Within _ _ (if abs (ratio - Scalar.round ratio) ≤ hair * greater (Scalar.round ratio) 1.0 then Scalar.round ratio
    else Scalar.floor ratio)
  simp only [hcompare]
  split
  · exact hnearest
  · exact within_floor hx h0 (h.trans (by norm_num))

/-- The number of points is one more than the number of steps that the quotient gives. -/
theorem count_eq {low high res : Float} (hx : isFinite ((high - low) / res) = true)
    (h0 : 0 ≤ value ((high - low) / res)) (h : value ((high - low) / res) < 2 ^ 52) :
    count low high res = steps (value ((high - low) / res)) + 1 := by
  obtain ⟨n, hn, hwhole⟩ := within_wholeSteps hx h0 h
  have hlarger := within_greater hwhole within_one
  have hcast : max (n : ℚ) 1 = ((max n 1 : ℕ) : ℚ) := by
    rw [Nat.cast_max, Nat.cast_one]
  rw [hcast] at hlarger
  have hpos : 0 < value (greater (wholeSteps ((high - low) / res)) 1.0) := by
    rw [hlarger.value_eq]
    exact Nat.cast_pos.mpr (Nat.lt_of_lt_of_le one_pos (le_max_right n 1))
  show Double.toNat (greater (wholeSteps ((high - low) / res)) 1.0) + 1 = _
  rw [toNat_eq hlarger.finite hpos, hlarger.value_eq, Nat.floor_natCast, hn]
  rfl

/-! ## Bounds -/

/-- The computed tolerance is a billionth of the whole number, up to rounding. -/
theorem tolerance_mem (n : ℕ) : (1 - 2 ^ (-50 : ℤ)) * (max (n : ℚ) 1 / 10 ^ 9) ≤ tolerance n ∧
    tolerance n ≤ (1 + 2 ^ (-50 : ℤ)) * (max (n : ℚ) 1 / 10 ^ 9) := by
  have hmax : 1 ≤ max (n : ℚ) 1 := le_max_right _ _
  unfold tolerance
  generalize max (n : ℚ) 1 = m at hmax
  have hsmall : (2 : ℚ) ^ (-1022 - (1 : ℕ) : ℤ) ≤ 2 ^ (-40 : ℤ) :=
    zpow_le_zpow_right₀ one_le_two (by norm_num)
  have hbits : (2 : ℚ) ^ ((1 : ℕ) - 53 : ℤ) = 1 / 2 ^ 52 := by norm_num
  have hbits' : (2 : ℚ) ^ (-50 : ℤ) = 1 / 2 ^ 50 := by norm_num
  have hhair := abs_le.mp (abs_nearest_sub_le_share (q := 1 / 10 ^ 9) (hsmall.trans (by norm_num)))
  rw [hbits] at hhair
  generalize nearest (1 / 10 ^ 9) = h at hhair
  have hlarge : (2 : ℚ) ^ (-40 : ℤ) ≤ h * m := by
    norm_num at hhair ⊢
    nlinarith
  have hproduct := abs_le.mp (abs_nearest_sub_le_share (hsmall.trans hlarge))
  rw [hbits] at hproduct
  rw [hbits']
  constructor <;> nlinarith

theorem one_le_steps (q : ℚ) : 1 ≤ steps q := le_max_right _ _

theorem steps_le (h : q < n) (hn : 1 ≤ n) : steps q ≤ n := by
  refine max_le ?_ hn
  split
  · exact nearestWhole_le h
  · exact Nat.lt_add_one_iff.mp ((Nat.floor_lt' (Nat.succ_ne_zero n)).mpr (h.trans (by simp)))

/-- The steps fall short of the quotient by less than one. -/
theorem lt_steps_add_one (h0 : 0 ≤ q) : q < steps q + 1 := by
  have hlarger : ((if |q - nearestWhole q| ≤ tolerance (nearestWhole q) then nearestWhole q else ⌊q⌋₊ : ℕ) : ℚ) ≤
      steps q := Nat.cast_le.mpr (le_max_left _ 1)
  refine lt_of_lt_of_le ?_ (add_le_add_left hlarger 1)
  split
  · have := (abs_le.mp (abs_sub_nearestWhole_le h0)).2
    linarith
  · exact Nat.lt_floor_add_one q

/-- Steps that are counted are as wide as the resolution, up to two billionths, or there is only one. -/
theorem steps_mul_le (h0 : 0 ≤ q) : steps q = 1 ∨ steps q * (1 - 2 / 10 ^ 9) ≤ q := by
  unfold steps
  split
  -- snapped up, by no more than the tolerance
  next h =>
    rcases le_or_gt (nearestWhole q) 1 with hle | hlt
    · exact Or.inl (max_eq_right hle)
    · have hone : (1 : ℚ) ≤ nearestWhole q := by exact_mod_cast hlt.le
      have htolerance := (tolerance_mem (nearestWhole q)).2
      rw [max_eq_left hone] at htolerance
      right
      rw [max_eq_left hlt.le]
      have hclose := (abs_le.mp h).1
      norm_num at htolerance ⊢
      linarith
  next =>
    rcases le_or_gt ⌊q⌋₊ 1 with hle | hlt
    · exact Or.inl (max_eq_right hle)
    · have hfloor := Nat.floor_le h0
      right
      rw [max_eq_left hlt.le]
      have hnonneg : (0 : ℚ) ≤ ⌊q⌋₊ := Nat.cast_nonneg _
      linarith

end Grid

end FuzzyInference

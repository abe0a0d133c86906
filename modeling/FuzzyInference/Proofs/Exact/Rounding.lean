import FuzzyInference.Proofs.Exact.Scalar
import Mathlib.Tactic.Ring

/-!
# Rounding to whole numbers in exact arithmetic

The nearest whole number is at most a half away, keeps the order, and is the only one that is less than a half
away.
-/

set_option linter.unusedSectionVars false

namespace FuzzyInference

open Scalar

variable {K : Type} [Field K] [LinearOrder K] [IsStrictOrderedRing K] [FloorRing K] [Elementary K] {x y : K}

theorem round_of_nonneg (h : 0 ≤ x) : Scalar.round x = ((⌊x + 1 / 2⌋ : ℤ) : K) := if_pos h

/-- Below 0, halves are rounded down: away from 0. -/
theorem round_of_neg (h : x < 0) : Scalar.round x = ((⌈x - 1 / 2⌉ : ℤ) : K) := if_neg (not_le.mpr h)

theorem abs_round_sub_le (x : K) : |Scalar.round x - x| ≤ 1 / 2 := by
  rcases le_or_gt 0 x with h | h
  · rw [round_of_nonneg h, abs_le]
    constructor
    · linarith [Int.lt_floor_add_one (x + 1 / 2)]
    · linarith [Int.floor_le (x + 1 / 2)]
  · rw [round_of_neg h, abs_le]
    constructor
    · linarith [Int.le_ceil (x - 1 / 2)]
    · linarith [Int.ceil_lt_add_one (x - 1 / 2)]

/-- Rounding keeps the order across 0 as well. -/
theorem round_mono (h : x ≤ y) : Scalar.round x ≤ Scalar.round y := by
  rcases le_or_gt 0 x with hx | hx
  · rw [round_of_nonneg hx, round_of_nonneg (hx.trans h), Int.cast_le]
    exact Int.floor_le_floor (by linarith)
  rcases le_or_gt 0 y with hy | hy
  · -- 0 lies between the two
    have hlow : (⌈x - 1 / 2⌉ : ℤ) ≤ 0 := Int.ceil_le.mpr (by push_cast; linarith)
    have hhigh : (0 : ℤ) ≤ ⌊y + 1 / 2⌋ := Int.floor_nonneg.mpr (by linarith)
    rw [round_of_neg hx, round_of_nonneg hy, Int.cast_le]
    exact hlow.trans hhigh
  · rw [round_of_neg hx, round_of_neg hy, Int.cast_le]
    exact Int.ceil_le_ceil (by linarith)

/-- A whole number that is less than a half away is the nearest one. -/
theorem round_eq_intCast {n : ℤ} (h : |x - n| < 1 / 2) : Scalar.round x = n := by
  obtain ⟨hlow, hhigh⟩ := abs_lt.mp h
  rcases le_or_gt 0 x with hx | hx
  · rw [round_of_nonneg hx, Int.cast_inj, Int.floor_eq_iff]
    constructor <;> linarith
  · rw [round_of_neg hx, Int.cast_inj, Int.ceil_eq_iff]
    constructor <;> linarith

theorem round_intCast (n : ℤ) : Scalar.round (n : K) = n :=
  round_eq_intCast (by rw [sub_self, abs_zero]; norm_num)

end FuzzyInference

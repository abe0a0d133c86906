import FuzzyInference.Proofs.Double.Elementary
import FuzzyInference.Proofs.Double.Width
import Mathlib.Analysis.Complex.ExponentialBounds

/-!
# Relative errors of doubles

A computed number is the exact one up to a factor close to 1. Written as a power of e, such factors add
up their exponents along products and quotients, so the error of a longer formula is the sum of the errors
of its steps. The exponential and the logarithm of the C library are not exact either; what is asked of
them here is that they are close to the real functions and leave the range of doubles where these do.

## Contents
- `Near`, `Near.mul`, `Near.div`, `Near.trans`: numbers up to a factor.
- `near_of_abs_sub_le`, `Near.abs_sub_le`: factors and differences.
- `abs_nearest_sub_le_add`, `near_nearest`, `Rounds.near`: rounding.
- `exp_le_two_pow`, `two_pow_le_exp`: powers of two and powers of e.
- `Accurate`, `Accurate.near`, `Accurate.infinity`: elementary functions. `Accurate.lt_of_finite`,
  `Accurate.gt_of_overflow`, `Accurate.lt_of_zero`: what a result says of the argument.
-/

namespace FuzzyInference.Double

open Scalar

/-! ## Numbers up to a factor -/

/-- The numbers are equal up to a factor, a power of e to at most `ε`. -/
def Near (ε x y : ℝ) : Prop := ∃ t, |t| ≤ ε ∧ x = y * Real.exp t

section Near

variable {ε δ x y u v : ℝ}

theorem Near.refl (x : ℝ) : Near 0 x x := ⟨0, by simp, by simp⟩

theorem Near.mono (h : Near ε x y) (hle : ε ≤ δ) : Near δ x y := by
  obtain ⟨t, ht, hx⟩ := h
  exact ⟨t, ht.trans hle, hx⟩

theorem Near.symm (h : Near ε x y) : Near ε y x := by
  obtain ⟨t, ht, rfl⟩ := h
  exact ⟨-t, by rwa [abs_neg], by rw [mul_assoc, ← Real.exp_add, add_neg_cancel, Real.exp_zero, mul_one]⟩

/-- Relative errors add up along a chain. -/
theorem Near.trans (h : Near ε x y) (k : Near δ y u) : Near (ε + δ) x u := by
  obtain ⟨t, ht, rfl⟩ := h
  obtain ⟨r, hr, rfl⟩ := k
  refine ⟨t + r, (abs_add_le t r).trans (add_le_add ht hr), ?_⟩
  rw [Real.exp_add]
  ring

/-- Relative errors add up over a product. -/
theorem Near.mul (h : Near ε x y) (k : Near δ u v) : Near (ε + δ) (x * u) (y * v) := by
  obtain ⟨t, ht, rfl⟩ := h
  obtain ⟨r, hr, rfl⟩ := k
  refine ⟨t + r, (abs_add_le t r).trans (add_le_add ht hr), ?_⟩
  rw [Real.exp_add]
  ring

/-- The reciprocal has the same relative error, as this is measured on a logarithmic scale. -/
theorem Near.inv (h : Near ε x y) : Near ε x⁻¹ y⁻¹ := by
  obtain ⟨t, ht, rfl⟩ := h
  exact ⟨-t, by rwa [abs_neg], by rw [mul_inv, Real.exp_neg]⟩

theorem Near.div (h : Near ε x y) (k : Near δ u v) : Near (ε + δ) (x / u) (y / v) := by
  rw [div_eq_mul_inv, div_eq_mul_inv]
  exact h.mul k.inv

/-- An absolute error of the exponent is a relative one of the power. -/
theorem near_exp_exp {a b : ℝ} (h : |a - b| ≤ ε) : Near ε (Real.exp a) (Real.exp b) :=
  ⟨a - b, h, by rw [← Real.exp_add, add_sub_cancel]⟩

/-- A small difference is a factor close to 1. -/
theorem near_of_abs_sub_le (hy : y ≠ 0) (h : |x - y| ≤ ε * |y|) (hε : ε ≤ 1 / 2) :
    Near (2 * ε) x y := by
  have hratio : |x / y - 1| ≤ ε := by
    rw [← mul_le_mul_iff_left₀ (abs_pos.mpr hy), ← abs_mul, sub_mul, div_mul_cancel₀ x hy, one_mul]
    exact h
  obtain ⟨hlow, hhigh⟩ := abs_le.mp hratio
  have hpos : 0 < x / y := by linarith
  have hlog := Real.log_le_sub_one_of_pos hpos
  have hlog' := Real.log_le_sub_one_of_pos (inv_pos.mpr hpos)
  rw [Real.log_inv] at hlog'
  have hinv : (x / y)⁻¹ - 1 ≤ 2 * ε := by
    have hle : (x / y)⁻¹ ≤ 1 + 2 * ε := by
      rw [inv_le_iff_one_le_mul₀ hpos]
      nlinarith
    linarith
  refine ⟨Real.log (x / y), abs_le.mpr ⟨by linarith, by linarith⟩, ?_⟩
  rw [Real.exp_log hpos, mul_div_cancel₀ x hy]

/-- A factor close to 1 is a small difference. -/
theorem Near.abs_sub_le (h : Near ε x y) (hε : ε ≤ 1) : |x - y| ≤ 2 * ε * |y| := by
  obtain ⟨t, ht, rfl⟩ := h
  have hexp := Real.abs_exp_sub_one_le (ht.trans hε)
  calc |y * Real.exp t - y| = |Real.exp t - 1| * |y| := by rw [← abs_mul]; ring_nf
    _ ≤ 2 * ε * |y| := mul_le_mul_of_nonneg_right (by linarith) (abs_nonneg y)

theorem Near.abs_le (h : Near ε x y) (hε : ε ≤ 1 / 2) : |x| ≤ 2 * |y| := by
  have hle := h.abs_sub_le (hε.trans (by norm_num))
  have hshare : 2 * ε * |y| ≤ 1 * |y| := mul_le_mul_of_nonneg_right (by linarith) (abs_nonneg y)
  linarith [abs_sub_abs_le_abs_sub x y]

end Near

/-! ## Rounding -/

/-- Rounding loses a share of the number, or half of the smallest double. -/
theorem abs_nearest_sub_le_add (q : ℚ) : |nearest q - q| ≤ 2 ^ (-53 : ℤ) * |q| + 2 ^ (-1075 : ℤ) := by
  have herror := abs_nearest_sub_le_mul (le_add_of_nonneg_right (a := |q|) (zpow_pos two_pos (-1022)).le)
    (le_add_of_nonneg_left (abs_nonneg q))
  rwa [mul_add, ← zpow_add₀ two_ne_zero] at herror

/-- Away from the subnormal doubles, rounding is a factor close to 1. -/
theorem near_nearest {q : ℚ} (h : 2 ^ (-1022 : ℤ) ≤ |q|) : Near (2 ^ (-52 : ℤ)) (nearest q : ℝ) q := by
  have herror : |nearest q - q| ≤ 2 ^ (-53 : ℤ) * |q| := abs_nearest_sub_le_mul le_rfl h
  have hq : (q : ℝ) ≠ 0 := by
    rintro h0
    rw [Rat.cast_eq_zero.mp h0, abs_zero] at h
    exact absurd h (not_le.mpr (zpow_pos two_pos _))
  have hcast : |(nearest q : ℝ) - q| ≤ 2 ^ (-53 : ℤ) * |(q : ℝ)| := by
    have h := (Rat.cast_le (K := ℝ)).mpr herror
    push_cast at h
    exact h
  exact (near_of_abs_sub_le hq hcast (by norm_num)).mono (by norm_num)

/-- What is neither too small nor too large is rounded by a factor close to 1. -/
theorem Rounds.near {q : ℚ} {z : Float} {a b : ℤ} (h : Rounds q z) (ha : -1022 ≤ a) (hb : b ≤ 971)
    (hb' : -1074 ≤ b) (hlow : 2 ^ a ≤ |(q : ℝ)|) (hhigh : |(q : ℝ)| ≤ 2 ^ b) :
    isFinite z = true ∧ Near (2 ^ (-52 : ℤ)) (value z) q := by
  have hlow : 2 ^ a ≤ |q| := by
    refine (Rat.cast_le (K := ℝ)).mp ?_
    rwa [Rat.cast_zpow, Rat.cast_ofNat, Rat.cast_abs]
  have hhigh : |q| ≤ 2 ^ b := by
    refine (Rat.cast_le (K := ℝ)).mp ?_
    rwa [Rat.cast_zpow, Rat.cast_ofNat, Rat.cast_abs]
  have hexact := exact_two_zpow hb' hb
  obtain ⟨hge, hle⟩ := abs_le.mp hhigh
  have hfinite := (h.within hexact.neg hexact hge hle).finite
  have hnearest := near_nearest ((zpow_le_zpow_right₀ one_le_two ha).trans hlow)
  rw [← h.value_eq hfinite] at hnearest
  exact ⟨hfinite, hnearest⟩

/-! ## Elementary functions -/

/-- What is asked of the exponential and the logarithm. The exponential is close to the real one, to some
    bits of its last place and at the bottom to half of the smallest double, and it overflows and
    underflows where the real one leaves the range of doubles. The logarithm is needed at 3 only. -/
structure Accurate (E : Elementary Float) : Prop where
  nonneg {x : Float} (h : isFinite x = true) : (0.0 : Float) ≤ E.exp x
  finite {x : Float} (h : isFinite x = true) (hx : (value x : ℝ) ≤ 709.7) : isFinite (E.exp x) = true
  overflow {x : Float} (h : isFinite x = true) (hx : 709.8 ≤ (value x : ℝ)) : isFinite (E.exp x) = false
  underflow {x : Float} (h : isFinite x = true) (hx : (value x : ℝ) ≤ -745.2) : value (E.exp x) = 0
  accurate {x : Float} (h : isFinite x = true) (hx : isFinite (E.exp x) = true) :
    |(value (E.exp x) : ℝ) - Real.exp (value x)| ≤
      2 ^ (-50 : ℤ) * Real.exp (value x) + 2 ^ (-1074 : ℤ)
  three_finite : isFinite (E.ln 3.0) = true
  three : |(value (E.ln 3.0) : ℝ) - Real.log 3| ≤ 2 ^ (-50 : ℤ)

/-- Where the exponential is not finite, it is infinite. -/
theorem Accurate.infinity {E : Elementary Float} (hE : Accurate E) {x : Float} (h : isFinite x = true)
    (hx : isFinite (E.exp x) = false) : (E.exp x).toModel.unpack = .infinity .positive := by
  rcases zero_le_iff.mp (hE.nonneg h) with ⟨hfinite, -⟩ | hinfinity
  · rw [hfinite] at hx
    cases hx
  · exact hinfinity

/-- Powers of two as exponentials, to compare the two. -/
theorem two_pow_eq_exp (n : ℕ) : (2 : ℝ) ^ n = Real.exp (n * Real.log 2) := by
  rw [mul_comm, Real.exp_mul, Real.exp_log two_pos, Real.rpow_natCast]

/-- Powers of two and powers of e. -/
theorem exp_le_two_pow {n : ℕ} {x : ℝ} (h : x ≤ n * 0.6931471803) : Real.exp x ≤ 2 ^ n := by
  rw [two_pow_eq_exp, Real.exp_le_exp]
  exact h.trans (mul_le_mul_of_nonneg_left Real.log_two_gt_d9.le n.cast_nonneg)

theorem two_pow_le_exp {n : ℕ} {x : ℝ} (h : n * 0.6931471808 ≤ x) : 2 ^ n ≤ Real.exp x := by
  rw [two_pow_eq_exp, Real.exp_le_exp]
  exact (mul_le_mul_of_nonneg_left Real.log_two_lt_d9.le n.cast_nonneg).trans h

theorem two_zpow_le_exp {n : ℕ} {x : ℝ} (h : -(n * 0.6931471803 : ℝ) ≤ x) :
    (2 : ℝ) ^ (-(n : ℤ)) ≤ Real.exp x := by
  have hneg := exp_le_two_pow (neg_le.mp h)
  rw [Real.exp_neg] at hneg
  rw [zpow_neg, zpow_natCast]
  exact inv_le_of_inv_le₀ (Real.exp_pos x) hneg

/-- Where it does not underflow, the exponential is accurate in relative terms. -/
theorem Accurate.near {E : Elementary Float} (hE : Accurate E) {x : Float} (h : isFinite x = true)
    (hlow : -715 ≤ (value x : ℝ)) (hfinite : isFinite (E.exp x) = true) :
    Near (2 ^ (-40 : ℤ)) (value (E.exp x)) (Real.exp (value x)) := by
  have hsmall : (2 : ℝ) ^ (-1032 : ℤ) ≤ Real.exp (value x) :=
    two_zpow_le_exp (n := 1032) (by norm_num; linarith)
  have herror : |(value (E.exp x) : ℝ) - Real.exp (value x)| ≤ 2 ^ (-41 : ℤ) * |Real.exp (value x)| := by
    have hsplit : (2 : ℝ) ^ (-1074 : ℤ) = 2 ^ (-42 : ℤ) * 2 ^ (-1032 : ℤ) :=
      zpow_add₀ two_ne_zero (-42) (-1032)
    have hbound := hE.accurate h hfinite
    rw [hsplit] at hbound
    rw [abs_of_pos (Real.exp_pos _)]
    have hbits : (2 : ℝ) ^ (-50 : ℤ) ≤ 2 ^ (-42 : ℤ) := zpow_le_zpow_right₀ one_le_two (by norm_num)
    have htwice : (2 : ℝ) ^ (-41 : ℤ) = 2 ^ (-42 : ℤ) + 2 ^ (-42 : ℤ) := by norm_num
    rw [htwice, add_mul]
    exact hbound.trans (add_le_add (mul_le_mul_of_nonneg_right hbits (Real.exp_pos _).le)
      (mul_le_mul_of_nonneg_left hsmall (by positivity)))
  exact (near_of_abs_sub_le (Real.exp_pos _).ne' herror (by norm_num)).mono (by norm_num)

/-- A finite exponential comes from an exponent below the overflow bound. -/
theorem Accurate.lt_of_finite {E : Elementary Float} (hE : Accurate E) {x : Float} (h : isFinite x = true)
    (hx : isFinite (E.exp x) = true) : (value x : ℝ) < 709.8 := by
  by_contra hge
  rw [hE.overflow h (not_lt.mp hge)] at hx
  cases hx

/-- An infinite exponential comes from an exponent that nearly reaches the overflow bound. -/
theorem Accurate.gt_of_overflow {E : Elementary Float} (hE : Accurate E) {x : Float} (h : isFinite x = true)
    (hx : isFinite (E.exp x) = false) : 709.7 < (value x : ℝ) := by
  by_contra hle
  rw [hE.finite h (not_lt.mp hle)] at hx
  cases hx

/-- Where the exponential has come down to 0, its exponent is far below 0. -/
theorem Accurate.lt_of_zero {E : Elementary Float} (hE : Accurate E) {x : Float} (h : isFinite x = true)
    (hfinite : isFinite (E.exp x) = true) (h0 : value (E.exp x) = 0) : (value x : ℝ) < -743 := by
  by_contra hge
  have hlow : (2 : ℝ) ^ (-1072 : ℤ) ≤ Real.exp (value x) :=
    two_zpow_le_exp (n := 1072) (by norm_num at hge ⊢; linarith)
  have hsplit : (2 : ℝ) ^ (-1074 : ℤ) = 2 ^ (-2 : ℤ) * 2 ^ (-1072 : ℤ) := zpow_add₀ two_ne_zero (-2) (-1072)
  have hbound := hE.accurate h hfinite
  have hpos := Real.exp_pos (value x : ℝ)
  rw [h0, Rat.cast_zero, zero_sub, abs_neg, abs_of_pos hpos, hsplit] at hbound
  have hshare : (2 : ℝ) ^ (-50 : ℤ) * Real.exp (value x) ≤ 1 / 2 * Real.exp (value x) :=
    mul_le_mul_of_nonneg_right (by norm_num) hpos.le
  have hshare' : (2 : ℝ) ^ (-2 : ℤ) * 2 ^ (-1072 : ℤ) ≤ 2 ^ (-2 : ℤ) * Real.exp (value x) :=
    mul_le_mul_of_nonneg_left hlow (by norm_num)
  have hquarter : (2 : ℝ) ^ (-2 : ℤ) = 1 / 4 := by norm_num
  rw [hquarter] at hbound hshare'
  linarith

end FuzzyInference.Double

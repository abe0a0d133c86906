import FuzzyInference.Proofs.Double.Complement
import FuzzyInference.Proofs.Double.Elementary
import FuzzyInference.Proofs.Double.Library
import FuzzyInference.Proofs.Double.Spacing

/-!
# Powers in order

Powers of a degree do not grow with the exponent. The power function of the C library is expected to keep
this order, and to leave a number alone that is raised to the power 1. The real power, rounded, does both:
rounding keeps the order, and a double is its own rounding.

## Contents
- `ofReal_mono`, `ofReal_value`: rounding keeps the order, and doubles.
- `roundedPower`, `powersOrdered_roundedPower`: the real power, rounded.
-/

namespace FuzzyInference.Double

open Scalar

/-! ## Rounding real numbers -/

variable {r r' : ℝ} {x : Float}

theorem rounds_ofReal_floor (h : ¬ r < 2 ^ (-1075 : ℤ)) :
    Rounds ((⌊r * 10 ^ 1100⌋₊ : ℚ) / 10 ^ 1100) (ofReal r) := by
  rw [ofReal, Rat.cast_zpow, Rat.cast_ofNat, if_neg h, Nat.cast_pow, Nat.cast_ofNat]
  exact rounds_floor (n := 1075) (by norm_num) (by norm_num) (by norm_num) (not_lt.mp h)

/-- Rounding real numbers keeps their order. -/
theorem ofReal_mono (h : r ≤ r') : ofReal r ≤ ofReal r' := by
  by_cases hr : r < 2 ^ (-1075 : ℤ)
  · rw [ofReal_of_lt hr]
    exact ofReal_nonneg r'
  · have hr' : ¬ r' < 2 ^ (-1075 : ℤ) := not_lt.mpr ((not_lt.mp hr).trans h)
    refine (rounds_ofReal_floor hr).mono (rounds_ofReal_floor hr') ?_
    refine div_le_div_of_nonneg_right ?_ (by positivity)
    exact_mod_cast Nat.floor_le_floor (mul_le_mul_of_nonneg_right h (by positivity))

/-- A number with `n` binary places has as many decimals. -/
theorem floor_value {k n j : ℕ} (hx : value x = k * 2 ^ (-(n : ℤ))) :
    (⌊(value x : ℝ) * 10 ^ (n + j)⌋₊ : ℚ) / 10 ^ (n + j) = value x := by
  have hwhole : value x * 10 ^ (n + j) = ((k * (5 ^ n * 10 ^ j) : ℕ) : ℚ) := by
    have hten : (10 : ℚ) ^ (n + j) = 2 ^ n * (5 ^ n * 10 ^ j) := by
      rw [pow_add, ← mul_assoc, ← mul_pow]
      norm_num
    rw [hx, hten, zpow_neg, zpow_natCast, mul_assoc, inv_mul_cancel_left₀ (by positivity)]
    push_cast
    rfl
  have hreal : (value x : ℝ) * 10 ^ (n + j) = ((k * (5 ^ n * 10 ^ j) : ℕ) : ℝ) := by
    exact_mod_cast congrArg (fun q : ℚ => (q : ℝ)) hwhole
  rw [hreal, Nat.floor_natCast, ← hwhole, mul_div_assoc, div_self (by positivity), mul_one]

/-- Rounding the value of a double gives it back, up to the sign of 0. -/
theorem ofReal_value (hfinite : isFinite x = true) (hx : 0 ≤ value x) :
    (ofReal (value x) == x) = true := by
  rcases hx.eq_or_lt with hzero | hpos
  · have hsmall : ((value x : ℚ) : ℝ) < 2 ^ (-1075 : ℤ) := by
      rw [← hzero, Rat.cast_zero]
      positivity
    rw [ofReal_of_lt hsmall, beq_iff_value within_zero.finite hfinite, within_zero.value_eq, hzero]
  · obtain ⟨i, hi⟩ := exists_intCast_mul x
    obtain ⟨k, hk, hvalue⟩ := exists_natCast_mul hpos hi
    -- a positive double is at least the smallest one, so it is not cut to 0
    have hlarge : ¬ ((value x : ℚ) : ℝ) < 2 ^ (-1075 : ℤ) := by
      have hstep : (2 : ℚ) ^ (-1075 : ℤ) ≤ 2 ^ (-1074 : ℤ) := zpow_le_zpow_right₀ one_le_two (by norm_num)
      have hleast : (2 : ℚ) ^ (-1074 : ℤ) ≤ k * 2 ^ (-1074 : ℤ) :=
        le_mul_of_one_le_left (zpow_pos two_pos _).le (by exact_mod_cast hk)
      have hcast := (Rat.cast_le (K := ℝ)).mpr ((hstep.trans hleast).trans_eq hvalue.symm)
      rw [Rat.cast_zpow, Rat.cast_ofNat] at hcast
      exact not_lt.mpr hcast
    have hround := rounds_ofReal_floor hlarge
    rw [floor_value (n := 1074) (j := 26) hvalue] at hround
    have hexact := exact_value hfinite
    have hwithin := hround.within hexact hexact le_rfl le_rfl
    rw [beq_iff_value hwithin.finite hfinite, hwithin.value_eq]

/-! ## The function -/

/-- The real power of a degree, rounded. Other bases, exponents that are not finite and the other functions
    are left to the library. -/
@[reducible] noncomputable def roundedPower : Elementary Float :=
  ⟨Float.exp, Float.log, Float.sqrt, fun base p =>
    if inUnit base && isFinite p then ofReal ((value base : ℝ) ^ (value p : ℝ)) else Float.pow base p⟩

theorem pow_roundedPower {base p : Float} (hbase : inUnit base = true) (hp : isFinite p = true) :
    roundedPower.pow base p = ofReal ((value base : ℝ) ^ (value p : ℝ)) :=
  if_pos (Bool.and_eq_true_iff.mpr ⟨hbase, hp⟩)

/-- A greater exponent gives a smaller power of a degree. -/
theorem roundedPower_antitone {base p q : Float} (hbase : inUnit base = true) (hp : (0.0 : Float) ≤ p)
    (hfinite : isFinite q = true) (hpq : p ≤ q) : roundedPower.pow base q ≤ roundedPower.pow base p := by
  obtain ⟨-, hlow, hhigh⟩ := inUnit_iff.mp hbase
  obtain ⟨hp', hp0⟩ : isFinite p = true ∧ 0 ≤ value p := by
    rcases zero_le_iff.mp hp with h | hinfinite
    · exact h
    · rw [not_isFinite_of_infinity (infinity_of_le hinfinite hpq)] at hfinite
      cases hfinite
  rw [le_iff_value hp' hfinite] at hpq
  rw [pow_roundedPower hbase hfinite, pow_roundedPower hbase hp']
  refine ofReal_mono (Real.rpow_le_rpow_of_exponent_ge' ?_ ?_ ?_ ?_)
  all_goals assumption_mod_cast

theorem roundedPower_one {base : Float} (hbase : inUnit base = true) :
    (roundedPower.pow base 1.0 == base) = true := by
  obtain ⟨hunit, hlow, -⟩ := inUnit_iff.mp hbase
  rw [pow_roundedPower hbase within_one.finite, within_one.value_eq, Rat.cast_one, Real.rpow_one]
  exact ofReal_value hunit hlow

/-- **Rounded powers are in order.** -/
theorem powersOrdered_roundedPower : @PowersOrdered Float (withElementary roundedPower) :=
  @PowersOrdered.mk Float (withElementary roundedPower) roundedPower_antitone roundedPower_one

end FuzzyInference.Double

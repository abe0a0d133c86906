import FuzzyInference.Proofs.Double.Relative

/-!
# Rounded elementary functions

An exponential and a logarithm that are as accurate as doubles allow: the real functions, rounded. They
cannot be run, but show that accurate functions exist, and what they do at a given number can be proved.

## Contents
- `rounds_floor`, `rounds_cut`: decimals of a real number, read as a double.
- `ofReal`, `abs_ofReal_sub_le`, `isFinite_ofReal`, `not_isFinite_ofReal`: real numbers as doubles.
- `roundedElementary`, `accurate_roundedElementary`: the functions.
-/

namespace FuzzyInference.Double

open Scalar

variable {r : ℝ} {n m : ℕ}

/-! ## Real numbers as doubles -/

theorem one_le_shifted (hnm : n ≤ m) (h : 2 ^ (-(n : ℤ)) ≤ r) : 1 ≤ r * 10 ^ m := by
  have hpow : (2 : ℝ) ^ n ≤ 10 ^ m :=
    (pow_le_pow_left₀ zero_le_two (by norm_num) n).trans (pow_le_pow_right₀ (by norm_num) hnm)
  calc (1 : ℝ) = 2 ^ (-(n : ℤ)) * 2 ^ n := by rw [zpow_neg, zpow_natCast, inv_mul_cancel₀ (by positivity)]
    _ ≤ r * 10 ^ m := mul_le_mul h hpow (by positivity) ((by positivity : (0 : ℝ) ≤ 2 ^ (-(n : ℤ))).trans h)

/-- The first decimals of a real number, read as a double. -/
theorem rounds_floor (hnm : n ≤ m) (hm : 0 < m) (hm' : m ≤ 2 ^ 11) (h : 2 ^ (-(n : ℤ)) ≤ r) :
    Rounds ((⌊r * 10 ^ m⌋₊ : ℚ) / 10 ^ m) (Float.ofScientific ⌊r * 10 ^ m⌋₊ true m) := by
  have hdigits : 0 < ⌊r * 10 ^ m⌋₊ := Nat.floor_pos.mpr (one_le_shifted hnm h)
  have hnearest := isNearest_ofScientific hdigits (e := -(m : ℤ)) (by omega) (by omega)
  rw [decide_eq_true (by omega : -(m : ℤ) < 0), Int.natAbs_neg, Int.natAbs_natCast, zpow_neg, zpow_natCast,
    ← div_eq_mul_inv] at hnearest
  exact rounds_of_isNearest (by positivity) hnearest

/-- The number that is rounded then, and how far it is away. -/
theorem rounds_cut (hnm : n ≤ m) (hm : 0 < m) (hm' : m ≤ 2 ^ 11) (h : 2 ^ (-(n : ℤ)) ≤ r) :
    ∃ q : ℚ, 0 ≤ q ∧ Rounds q (Float.ofScientific ⌊r * 10 ^ m⌋₊ true m) ∧ (q : ℝ) ≤ r ∧
      r ≤ q + 2 ^ (-(n : ℤ)) ∧ ∀ k : ℕ, (2 : ℝ) ^ k ≤ r → (2 : ℚ) ^ k ≤ q := by
  have hr : 0 ≤ r := (by positivity : (0 : ℝ) ≤ 2 ^ (-(n : ℤ))).trans h
  have hpos : (0 : ℝ) < 10 ^ m := by positivity
  have hlow : (⌊r * 10 ^ m⌋₊ : ℝ) ≤ r * 10 ^ m := Nat.floor_le (by positivity)
  have hhigh : r * 10 ^ m < ⌊r * 10 ^ m⌋₊ + 1 := Nat.lt_floor_add_one _
  refine ⟨(⌊r * 10 ^ m⌋₊ : ℚ) / 10 ^ m, by positivity, rounds_floor hnm hm hm' h, ?_, ?_, ?_⟩
  · push_cast
    exact (div_le_iff₀ hpos).mpr hlow
  · have hshift := one_le_shifted hnm (le_refl ((2 : ℝ) ^ (-(n : ℤ))))
    push_cast
    rw [← sub_le_iff_le_add, le_div_iff₀ hpos, sub_mul]
    linarith
  · intro k hk
    rw [le_div_iff₀ (by positivity)]
    have hfloor : 2 ^ k * 10 ^ m ≤ ⌊r * 10 ^ m⌋₊ := by
      refine Nat.le_floor ?_
      push_cast
      exact mul_le_mul_of_nonneg_right hk hpos.le
    exact_mod_cast hfloor

/-- A nonnegative real number as a double: cut off after 1100 decimals and then rounded. -/
noncomputable def ofReal (r : ℝ) : Float :=
  if r < (2 ^ (-1075 : ℤ) : ℚ) then 0.0 else Float.ofScientific ⌊r * (10 ^ 1100 : ℕ)⌋₊ true 1100

theorem ofReal_of_lt (h : r < 2 ^ (-1075 : ℤ)) : ofReal r = 0.0 := by
  rw [ofReal, Rat.cast_zpow, Rat.cast_ofNat, if_pos h]

/-- A real number is first cut to a fraction close below it, and that is rounded. -/
theorem rounds_ofReal (h : ¬ r < 2 ^ (-1075 : ℤ)) :
    ∃ q : ℚ, 0 ≤ q ∧ Rounds q (ofReal r) ∧ (q : ℝ) ≤ r ∧ r ≤ q + 2 ^ (-1075 : ℤ) ∧
      ∀ k : ℕ, (2 : ℝ) ^ k ≤ r → (2 : ℚ) ^ k ≤ q := by
  rw [ofReal, Rat.cast_zpow, Rat.cast_ofNat, if_neg h, Nat.cast_pow, Nat.cast_ofNat]
  exact rounds_cut (n := 1075) (by norm_num) (by norm_num) (by norm_num) (not_lt.mp h)

theorem ofReal_nonneg (r : ℝ) : (0.0 : Float) ≤ ofReal r := by
  by_cases h : r < 2 ^ (-1075 : ℤ)
  · rw [ofReal_of_lt h]
    exact within_zero.nonneg le_rfl
  · obtain ⟨q, hq, hround, -⟩ := rounds_ofReal h
    exact zero_le_iff.mpr (hround.isSigned hq)

/-- The result is within half a unit of the last place and a smallest double. -/
theorem abs_ofReal_sub_le (hr : 0 ≤ r) (hfinite : isFinite (ofReal r) = true) :
    |(value (ofReal r) : ℝ) - r| ≤ 2 ^ (-53 : ℤ) * r + 2 ^ (-1074 : ℤ) := by
  have htwice : (2 : ℝ) ^ (-1074 : ℤ) = 2 ^ (-1075 : ℤ) + 2 ^ (-1075 : ℤ) := by
    rw [← two_mul, ← zpow_one_add₀ two_ne_zero]
    norm_num
  have hshare : 0 ≤ (2 : ℝ) ^ (-53 : ℤ) * r := by positivity
  -- too small a number becomes 0; any other is cut, which loses a smallest unit, and rounded
  by_cases h : r < 2 ^ (-1075 : ℤ)
  · have hzero : value (ofReal r) = 0 := by rw [ofReal_of_lt h, within_zero.value_eq]
    rw [hzero, Rat.cast_zero, zero_sub, abs_neg, abs_of_nonneg hr, htwice]
    linarith
  · obtain ⟨q, hq, hround, hle, hge, -⟩ := rounds_ofReal h
    have hcast := (Rat.cast_le (K := ℝ)).mpr (abs_nearest_sub_le_add q)
    rw [← hround.value_eq hfinite] at hcast
    simp only [Rat.cast_abs, Rat.cast_sub, Rat.cast_mul, Rat.cast_add, Rat.cast_zpow, Rat.cast_ofNat] at hcast
    have hq' : (0 : ℝ) ≤ q := by exact_mod_cast hq
    have hcut : |(q : ℝ) - r| ≤ 2 ^ (-1075 : ℤ) := by
      rw [abs_sub_comm, abs_of_nonneg (sub_nonneg.mpr hle)]
      exact sub_le_iff_le_add'.mpr hge
    rw [abs_of_nonneg hq'] at hcast
    calc |(value (ofReal r) : ℝ) - r|
        ≤ |(value (ofReal r) : ℝ) - q| + |(q : ℝ) - r| := abs_sub_le _ _ _
      _ ≤ (2 ^ (-53 : ℤ) * q + 2 ^ (-1075 : ℤ)) + 2 ^ (-1075 : ℤ) := add_le_add hcast hcut
      _ ≤ (2 ^ (-53 : ℤ) * r + 2 ^ (-1075 : ℤ)) + 2 ^ (-1075 : ℤ) :=
        add_le_add_left (add_le_add_left (mul_le_mul_of_nonneg_left hle (by positivity)) _) _
      _ = 2 ^ (-53 : ℤ) * r + 2 ^ (-1074 : ℤ) := by rw [htwice, add_assoc]

/-- Nothing up to the largest double overflows. -/
theorem isFinite_ofReal (h : r ≤ (2 ^ 53 - 1) * 2 ^ (971 : ℤ)) : isFinite (ofReal r) = true := by
  by_cases hsmall : r < 2 ^ (-1075 : ℤ)
  · rw [ofReal_of_lt hsmall]
    exact within_zero.finite
  · obtain ⟨q, hq, hround, hle, -⟩ := rounds_ofReal hsmall
    have hexact : Exact (((2 ^ 53 - 1 : ℕ) : ℚ) * 2 ^ (971 : ℤ)) :=
      exact_mul_zpow (by norm_num) (by norm_num) le_rfl
    have hlarge : ((q : ℚ) : ℝ) ≤ ((((2 ^ 53 - 1 : ℕ) : ℚ) * 2 ^ (971 : ℤ) : ℚ) : ℝ) := by
      rw [Rat.cast_mul, Rat.cast_zpow, Rat.cast_natCast, Rat.cast_ofNat]
      exact hle.trans (h.trans_eq (by norm_num))
    exact (hround.within exact_zero hexact hq (Rat.cast_le.mp hlarge)).finite

theorem not_isFinite_ofReal (h : 2 ^ 1024 ≤ r) : isFinite (ofReal r) = false := by
  have hsmall : ¬ r < 2 ^ (-1075 : ℤ) := by
    have hle : (2 : ℝ) ^ (-1075 : ℤ) ≤ 2 ^ (1024 : ℤ) := zpow_le_zpow_right₀ one_le_two (by norm_num)
    exact not_lt.mpr (hle.trans h)
  obtain ⟨q, hq, hround, -, -, hwhole⟩ := rounds_ofReal hsmall
  have hq' : tooLarge ≤ q := hwhole 1024 h
  rw [Bool.eq_false_iff]
  intro hfinite
  have hvalue := hround.value_eq hfinite
  have hlarge : tooLarge ≤ nearest q := by
    rw [nearest_of_nonneg hq]
    exact le_rounded (by norm_num) hq'
  exact absurd (hlarge.trans (hvalue ▸ le_abs_self _)) (not_le.mpr (exact_value hfinite).lt_tooLarge)

/-! ## The functions -/

/-- The real exponential and logarithm, rounded. What they do at NaN and at infinities, and below 1 in the
    case of the logarithm, is left to the library, as are the square root and powers. -/
@[reducible] noncomputable def roundedElementary : Elementary Float :=
  ⟨fun x => if isFinite x then ofReal (Real.exp (value x)) else Float.exp x,
    fun x => if isFinite x && 1.0 ≤ x then ofReal (Real.log (value x)) else Float.log x,
    Float.sqrt, Float.pow⟩

theorem exp_roundedElementary {x : Float} (h : isFinite x = true) :
    roundedElementary.exp x = ofReal (Real.exp (value x)) := if_pos h

theorem ln_three : roundedElementary.ln 3.0 = ofReal (Real.log 3) := by
  have hthree : Within 3 3 (3.0 : Float) := within_whole (n := 3) (by norm_num) (by norm_num)
  have hcond : (isFinite (3.0 : Float) && 1.0 ≤ (3.0 : Float)) = true := by decide +kernel
  have hln : roundedElementary.ln 3.0 = ofReal (Real.log (value 3.0)) := if_pos hcond
  rw [hln, hthree.value_eq, Rat.cast_ofNat]

/-- Below the point where the exponential leaves the range of doubles. -/
theorem exp_le_largest {x : ℝ} (h : x ≤ 709.7) : Real.exp x ≤ (2 ^ 53 - 1) * 2 ^ (971 : ℤ) := by
  have hpower : Real.exp (x + 0.05) ≤ 2 ^ 1024 := exp_le_two_pow (by norm_num at h ⊢; linarith)
  have hsplit : (2 : ℝ) ^ 1024 = 2 ^ 53 * 2 ^ (971 : ℤ) := by
    rw [← zpow_natCast, ← zpow_natCast, ← zpow_add₀ two_ne_zero]
    rfl
  have hgrow : 1.05 ≤ Real.exp 0.05 := by
    have h := Real.add_one_le_exp (0.05 : ℝ)
    norm_num at h ⊢
    exact h
  rw [Real.exp_add, hsplit] at hpower
  have hpos := Real.exp_pos x
  have hscale : (0 : ℝ) < 2 ^ (971 : ℤ) := by positivity
  have hshare : Real.exp x * 1.05 ≤ 2 ^ 53 * 2 ^ (971 : ℤ) :=
    (mul_le_mul_of_nonneg_left hgrow hpos.le).trans hpower
  generalize (2 : ℝ) ^ (971 : ℤ) = scale at hshare hscale ⊢
  norm_num at hshare ⊢
  linarith

theorem exp_lt_smallest {x : ℝ} (h : x ≤ -745.2) : Real.exp x < 2 ^ (-1075 : ℤ) := by
  have hpower : (2 : ℝ) ^ 1075 ≤ Real.exp 745.15 := two_pow_le_exp (by norm_num)
  have hstrict : Real.exp 745.15 < Real.exp (-x) := Real.exp_lt_exp.mpr (by norm_num at h ⊢; linarith)
  have hneg : Real.exp x = (Real.exp (-x))⁻¹ := by rw [Real.exp_neg, inv_inv]
  rw [hneg, zpow_neg]
  exact inv_strictAnti₀ (by positivity) (hpower.trans_lt hstrict)

/-- The rounded functions are as accurate as is assumed of a library: the assumptions can be met. -/
theorem accurate_roundedElementary : Accurate roundedElementary := by
  have hlog : 1 ≤ Real.log 3 ∧ Real.log 3 ≤ 2 :=
    ⟨by linarith [Real.log_three_gt_d9], by linarith [Real.log_three_lt_d9]⟩
  have hthree : isFinite (ofReal (Real.log 3)) = true :=
    isFinite_ofReal (hlog.2.trans (by
      have hscale : (1 : ℝ) ≤ 2 ^ (971 : ℤ) := one_le_zpow₀ one_le_two (by norm_num)
      generalize (2 : ℝ) ^ (971 : ℤ) = scale at hscale ⊢
      norm_num
      linarith))
  constructor
  case nonneg =>
    intro x h
    rw [exp_roundedElementary h]
    exact ofReal_nonneg _
  case finite =>
    intro x h hx
    rw [exp_roundedElementary h]
    exact isFinite_ofReal (exp_le_largest hx)
  -- beyond the largest double with room to spare, since rounding may still come down to it
  case overflow =>
    intro x h hx
    rw [exp_roundedElementary h]
    exact not_isFinite_ofReal (two_pow_le_exp (by norm_num at hx ⊢; linarith))
  case underflow =>
    intro x h hx
    rw [exp_roundedElementary h, ofReal_of_lt (exp_lt_smallest hx), within_zero.value_eq]
  case accurate =>
    intro x h hx
    rw [exp_roundedElementary h] at hx ⊢
    refine (abs_ofReal_sub_le (Real.exp_pos _).le hx).trans ?_
    exact add_le_add_left (mul_le_mul_of_nonneg_right
      (zpow_le_zpow_right₀ one_le_two (by norm_num)) (Real.exp_pos _).le) _
  case three_finite => rwa [ln_three]
  case three =>
    rw [ln_three]
    have htiny : (2 : ℝ) ^ (-1074 : ℤ) ≤ 2 ^ (-60 : ℤ) := zpow_le_zpow_right₀ one_le_two (by norm_num)
    refine (abs_ofReal_sub_le (by linarith) hthree).trans ((add_le_add_right htiny _).trans ?_)
    norm_num
    linarith

end FuzzyInference.Double

import FuzzyInference.Proofs.Double.Spacing

/-!
# Whole doubles

Floors, roundings and whole parts are taken in integer arithmetic, on the unpacked form, and turned back
into doubles. Below `2 ^ 53` that loses nothing: they are the floor of the value and the whole number nearest
to it. The distance of a double from the nearest whole number is not rounded either.

## Contents
- `Unpacked.truncated_eq`, `Unpacked.nearest_eq`: the integer arithmetic.
- `within_ofNat`, `within_toWhole`: whole numbers as doubles.
- `nearestWhole`: the whole number nearest to a positive one.
- `within_floor`, `within_round`, `toNat_eq`: what the functions make of doubles that are not negative.
- `exact_sub_natCast`, `exact_sub_nearestWhole`: distances from whole numbers.
-/

namespace FuzzyInference

/-! ## Integer arithmetic -/

/-- The whole number nearest to a positive one; a half goes up. -/
def nearestWhole (q : ℚ) : ℕ := ⌊q + 1 / 2⌋₊

theorem nearestWhole_natCast (n : ℕ) : nearestWhole n = n := by
  have hfloor : ⌊(1 / 2 : ℚ)⌋₊ = 0 := Nat.floor_eq_zero.mpr (by norm_num)
  rw [nearestWhole, add_comm, Nat.floor_add_natCast one_half_pos.le, hfloor, zero_add]

/-- Rounding half up does not cross a whole number. -/
theorem nearestWhole_le {q : ℚ} {n : ℕ} (h : q < n) : nearestWhole q ≤ n := by
  apply Nat.lt_add_one_iff.mp
  rw [nearestWhole, Nat.floor_lt' (Nat.succ_ne_zero n)]
  push_cast
  linarith

theorem abs_sub_nearestWhole_le {q : ℚ} (h : 0 ≤ q) : |q - nearestWhole q| ≤ 1 / 2 := by
  have hlow := Nat.floor_le (add_nonneg h one_half_pos.le)
  have hhigh := Nat.lt_floor_add_one (q + 1 / 2)
  rw [nearestWhole, abs_le]
  constructor <;> linarith

namespace Unpacked

variable {u : Unpacked}

/-- Parts without fractional bits describe a whole number. -/
theorem magnitude_of_isWhole (h : u.isWhole = true) :
    u.magnitude = ((u.significand * 2 ^ u.exponent.toNat : ℕ) : ℚ) := by
  have he : 0 ≤ u.exponent := of_decide_eq_true h
  rw [magnitude, ← Int.toNat_of_nonneg he, zpow_natCast, Int.toNat_natCast]
  push_cast
  rfl

theorem magnitude_of_not_isWhole (h : u.isWhole = false) : u.magnitude = (u.significand : ℚ) / u.unit := by
  have he : u.exponent < 0 := not_le.mp (of_decide_eq_false h)
  have hunit : (u.unit : ℚ) = 2 ^ (-u.exponent) := by
    show (((2 : ℕ) ^ (-u.exponent).toNat : ℕ) : ℚ) = _
    rw [Nat.cast_pow, Nat.cast_ofNat, ← zpow_natCast, Int.toNat_of_nonneg (by omega)]
  rw [hunit, magnitude, zpow_neg, div_inv_eq_mul]

theorem unit_pos (u : Unpacked) : 0 < u.unit := Nat.two_pow_pos _

/-- Dropping the fractional bits is the floor of the magnitude. -/
theorem truncated_eq (u : Unpacked) : u.truncated = ⌊u.magnitude⌋₊ := by
  unfold truncated
  split
  next h =>
    rw [magnitude_of_isWhole h, Nat.floor_natCast]
    rfl
  next h => rw [magnitude_of_not_isWhole (Bool.eq_false_iff.mpr h), Nat.floor_div_eq_div]

/-- Adding half a unit before dropping them rounds half up. -/
theorem nearest_eq (u : Unpacked) : u.nearest = nearestWhole u.magnitude := by
  unfold nearest
  split
  next h =>
    rw [magnitude_of_isWhole h, nearestWhole_natCast]
    rfl
  next h =>
    have hunit : (0 : ℚ) < u.unit := Nat.cast_pos.mpr u.unit_pos
    have hsum : (u.significand : ℚ) / u.unit + 1 / 2 =
        ((2 * u.significand + u.unit : ℕ) : ℚ) / (2 * u.unit : ℕ) := by
      push_cast
      field_simp
    rw [nearestWhole, magnitude_of_not_isWhole (Bool.eq_false_iff.mpr h), hsum, Nat.floor_div_eq_div]

end Unpacked

namespace Double

open Scalar

variable {x : Float}

/-! ## Doubles of whole numbers -/

/-- Natural numbers below `2 ^ 53` become doubles exactly. -/
theorem within_ofNat {n : ℕ} (h : n < 2 ^ 53) : Within n n (Float.ofNat n) := by
  rcases Nat.eq_zero_or_pos n with rfl | hpos
  · have hzero : Float.ofNat 0 = 0.0 := by decide +kernel
    rw [hzero, Nat.cast_zero]
    exact within_zero
  · have hlog : 0 ≤ (n.log2 : ℤ) := Int.natCast_nonneg _
    have hnearest := isNearest_ofScientific hpos (e := 0) (by omega) (by norm_num)
    rw [zpow_zero, mul_one] at hnearest
    have hexact := exact_natCast h
    exact (rounds_of_isNearest (Nat.cast_nonneg n) hnearest).within hexact hexact le_rfl le_rfl

theorem not_negative_of_pos (h : 0 < value x) : (unpack x).negative = false := by
  by_contra hnegative
  have hsign : signOf x = .negative := by
    show (if (unpack x).negative = true then _ else _) = _
    rw [if_pos (by simpa using hnegative)]
  rw [value, hsign] at h
  exact absurd h (not_lt.mpr (neg_nonpos.mpr (magnitude_nonneg x)))

/-- A whole number in place of a positive double. -/
theorem within_toWhole {f : Unpacked → ℕ} {n : ℕ} (hx : isFinite x = true) (h0 : 0 < value x) (hn : n < 2 ^ 53)
    (hf : f (unpack x) = n) (hwhole : (unpack x).isWhole = true → value x = n) :
    Within n n (toWhole f x) := by
  have hnan : x.isNaN = false := not_isNaN_of_isFinite hx
  have hinf : x.isInf = false := not_isInfinite_of_isFinite hx
  unfold toWhole
  simp only [hnan, hinf, Bool.or_false, not_negative_of_pos h0, Bool.false_eq_true, if_false, hf]
  split
  next h => exact ⟨hx, (hwhole h).ge, (hwhole h).le⟩
  next h => exact within_ofNat hn

/-- Where there are no places after the point, the value is a whole number already. -/
theorem exists_natCast_of_isWhole (h0 : 0 ≤ value x) (h : (unpack x).isWhole = true) :
    ∃ k : ℕ, value x = k := by
  rw [value_eq_magnitude h0, magnitude, Unpacked.magnitude_of_isWhole h]
  exact ⟨_, rfl⟩

theorem eq_zero_of_value (hx : isFinite x = true) (h : value x = 0) : x = 0.0 ∨ x = -0.0 := by
  have hdenotes := denotes_unpack hx
  rw [value_eq_zero_iff.mp h] at hdenotes
  cases hs : signOf x <;> rw [hs] at hdenotes
  · exact Or.inr (eq_of_denotes hdenotes (denotes_neg denotes_zero))
  · exact Or.inl (eq_of_denotes hdenotes denotes_zero)

/-- The floor of a nonnegative double is exact. -/
theorem within_floor (hx : isFinite x = true) (h0 : 0 ≤ value x) (h : value x < 2 ^ 53) :
    Within ⌊value x⌋₊ ⌊value x⌋₊ (floor x) := by
  rcases h0.lt_or_eq with hpos | hzero
  · refine within_toWhole hx hpos ?_ ?_ ?_
    · exact (Nat.floor_lt h0).mpr (by exact_mod_cast h)
    · rw [Unpacked.floorMagnitude, not_negative_of_pos hpos, value_eq_magnitude h0]
      exact Unpacked.truncated_eq _
    · intro hwhole
      obtain ⟨k, hk⟩ := exists_natCast_of_isWhole h0 hwhole
      rw [hk, Nat.floor_natCast]
  · have hself : floor x = x := by
      rcases eq_zero_of_value hx hzero.symm with rfl | rfl <;> decide +kernel
    rw [hself, ← hzero, Nat.floor_zero, Nat.cast_zero]
    exact ⟨hx, hzero.le, hzero.ge⟩

/-- The rounding of a nonnegative double to a whole number is exact. -/
theorem within_round (hx : isFinite x = true) (h0 : 0 ≤ value x) (h : value x < 2 ^ 52) :
    Within (nearestWhole (value x)) (nearestWhole (value x)) (round x) := by
  rcases h0.lt_or_eq with hpos | hzero
  · refine within_toWhole hx hpos ?_ ?_ ?_
    · have hle : nearestWhole (value x) ≤ 2 ^ 52 := nearestWhole_le (by exact_mod_cast h)
      omega
    · rw [value_eq_magnitude h0]
      exact Unpacked.nearest_eq _
    · intro hwhole
      obtain ⟨k, hk⟩ := exists_natCast_of_isWhole h0 hwhole
      rw [hk, nearestWhole_natCast]
  · have hself : round x = x := by
      rcases eq_zero_of_value hx hzero.symm with rfl | rfl <;> decide +kernel
    have hnearest : nearestWhole 0 = 0 := nearestWhole_natCast 0
    rw [hself, ← hzero, hnearest, Nat.cast_zero]
    exact ⟨hx, hzero.le, hzero.ge⟩

/-- The conversion to a natural number truncates. -/
theorem toNat_eq (hx : isFinite x = true) (h0 : 0 < value x) : toNat x = ⌊value x⌋₊ := by
  have hnan : x.isNaN = false := not_isNaN_of_isFinite hx
  have hinf : x.isInf = false := not_isInfinite_of_isFinite hx
  unfold toNat
  simp only [hnan, hinf, Bool.or_false, not_negative_of_pos h0, Bool.false_eq_true, if_false]
  rw [value_eq_magnitude h0.le]
  exact Unpacked.truncated_eq _

/-- With places after the point, whole numbers are multiples of the unit of the double. -/
theorem exact_sub_natCast {n : ℕ} (hx : isFinite x = true) (he : (unpack x).exponent ≤ 0)
    (h : |value x - n| < 2 ^ 53 * gap x) : Exact (value x - n) := by
  obtain ⟨k, -, hk⟩ := exists_value_eq x
  have hone : (1 : ℚ) = ((2 ^ (-(unpack x).exponent).toNat : ℕ) : ℚ) * gap x := one_eq_mul_zpow he
  have hmultiple : value x - n = ((k - n * 2 ^ (-(unpack x).exponent).toNat : ℤ) : ℚ) * gap x := by
    have hn : (n : ℚ) = n * (((2 ^ (-(unpack x).exponent).toNat : ℕ) : ℚ) * gap x) := by
      rw [← hone, mul_one]
    rw [hn, hk]
    push_cast
    ring
  rw [hmultiple] at h ⊢
  exact exact_intCast_mul_zpow (abs_lt_of_abs_mul_gap_lt h) (le_exponent x)
    (exponent_le (field_ne_of_isFinite hx))

/-- The distance of a double from the nearest whole number is not larger than the double itself, unless that
number is zero. -/
theorem exact_sub_nearestWhole (hx : isFinite x = true) (h0 : 0 ≤ value x) :
    Exact (value x - nearestWhole (value x)) := by
  rcases Nat.eq_zero_or_pos (nearestWhole (value x)) with hzero | hpos
  · rw [hzero, Nat.cast_zero, sub_zero]
    exact exact_value hx
  · by_cases hwhole : (unpack x).isWhole = true
    · obtain ⟨k, hk⟩ := exists_natCast_of_isWhole h0 hwhole
      rw [hk, nearestWhole_natCast, sub_self]
      exact exact_zero
    · have he : (unpack x).exponent ≤ 0 := (not_le.mp fun h => hwhole (decide_eq_true h)).le
      have hclose := abs_sub_nearestWhole_le h0
      have hlow := (abs_le.mp hclose).1
      have hone : (1 : ℚ) ≤ nearestWhole (value x) := by exact_mod_cast hpos
      have hlt := abs_value_lt x
      rw [abs_of_nonneg h0] at hlt
      exact exact_sub_natCast hx he (by linarith)

end Double

end FuzzyInference

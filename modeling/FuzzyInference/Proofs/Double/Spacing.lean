import FuzzyInference.Proofs.Double.Width

/-!
# How doubles are spaced

A double is a whole number of units in its last place, of at most 53 bits. Up to its magnitude, rounding
loses at most half of such a unit, and doubles that are close to it are whole numbers of half its unit. All
doubles are multiples of the smallest one, below `2 ^ 53` of which nothing is rounded.

## Contents
- `gap`: the unit in the last place. `exists_value_eq`, `abs_value_lt`, `le_abs_value`: a double in it.
  `exists_eq_mul_zpow`: a double in smaller units.
- `gap_le_of_abs_le`, `gap_le_sub`: how far doubles are apart.
- `abs_lt_of_eq_mul_gap`, `exact_intCast_mul_zpow`: multiples that are doubles.
- `abs_nearest_sub_le_gap`, `abs_nearest_sub_le_share`: what rounding loses.
- `exists_half_gap`: a close double.
- `exists_intCast_mul`, `exists_nearest_eq`, `abs_nearest_sub_le_smallest`: multiples of the smallest double.
- `exact_double`, `within_mean`, `infinity_mean`: twice a double, and half of that.
-/

namespace FuzzyInference.Double

open Float.Model.UnpackedFloat (Sign)
open Scalar

variable {q : ℚ} {x b c : Float}

/-! ## Units in the last place -/

/-- The unit in the last place of a finite double: the distance to the next double away from zero. -/
def gap (x : Float) : ℚ := 2 ^ (unpack x).exponent

theorem gap_pos (x : Float) : 0 < gap x := zpow_pos two_pos _

theorem le_exponent (x : Float) : -1074 ≤ (unpack x).exponent := by
  rw [unpack_eq]
  dsimp only
  split <;> omega

theorem significand_lt (x : Float) : (unpack x).significand < 2 ^ 53 := by
  rw [unpack_eq]
  dsimp only
  split <;> omega

theorem abs_value (x : Float) : |value x| = (unpack x).significand * gap x := abs_value_eq x

/-- A double is a whole multiple of its gap. -/
theorem exists_value_eq (x : Float) : ∃ k : ℤ, |k| < 2 ^ 53 ∧ value x = k * gap x := by
  have hlt : ((unpack x).significand : ℤ) < 2 ^ 53 := by exact_mod_cast significand_lt x
  have hnonneg : 0 ≤ ((unpack x).significand : ℤ) := Int.natCast_nonneg _
  rcases abs_choice (value x) with h | h
  · refine ⟨(unpack x).significand, (abs_of_nonneg hnonneg).trans_lt hlt, ?_⟩
    rw [Int.cast_natCast, ← abs_value, h]
  · refine ⟨-(unpack x).significand, ((abs_neg _).trans (abs_of_nonneg hnonneg)).trans_lt hlt, ?_⟩
    rw [Int.cast_neg, Int.cast_natCast, neg_mul, ← abs_value, h, neg_neg]

/-- A double is a whole multiple of every power of two up to its gap. -/
theorem exists_eq_mul_zpow {e : ℤ} (h : e ≤ (unpack x).exponent) : ∃ k : ℤ, value x = k * 2 ^ e := by
  obtain ⟨k, -, hk⟩ := exists_value_eq x
  refine ⟨k * 2 ^ ((unpack x).exponent - e).toNat, ?_⟩
  rw [hk, gap, Int.cast_mul, Int.cast_pow, Int.cast_ofNat, mul_assoc, ← zpow_natCast,
    Int.toNat_of_nonneg (by omega), ← zpow_add₀ two_ne_zero, sub_add_cancel]

theorem abs_value_lt (x : Float) : |value x| < 2 ^ 53 * gap x := by
  rw [abs_value]
  exact mul_lt_mul_of_pos_right (by exact_mod_cast significand_lt x) (gap_pos x)

/-- Above the least exponent no bit of the significand is missing. -/
theorem le_abs_value (h : (unpack x).exponent ≠ -1074) : 2 ^ 52 * gap x ≤ |value x| := by
  have hzero : (unpack x).significand ≠ 0 := fun hzero => h (exponent_of_zero hzero)
  have hfull : 2 ^ 52 ≤ (unpack x).significand := (canonical_unpack hzero).full.resolve_right h
  rw [abs_value]
  exact mul_le_mul_of_nonneg_right (by exact_mod_cast hfull) (gap_pos x).le

/-- A double that is not smaller has no smaller unit. -/
theorem gap_le_of_abs_le (h : |value b| ≤ |value x|) : gap b ≤ gap x := by
  by_contra hlt
  have hexponent : (unpack x).exponent + 1 ≤ (unpack b).exponent :=
    (zpow_lt_zpow_iff_right₀ one_lt_two).mp (not_le.mp hlt)
  have hb := le_abs_value (x := b) (by have := le_exponent x; omega)
  have hx := abs_value_lt x
  have hdouble : 2 * gap x ≤ gap b := by
    rw [gap, ← two_zpow_succ]
    exact zpow_le_zpow_right₀ one_le_two hexponent
  linarith

theorem abs_lt_of_abs_mul_gap_lt {k : ℤ} (h : |k * gap b| < 2 ^ 53 * gap b) : |k| < 2 ^ 53 := by
  rw [abs_mul, abs_of_pos (gap_pos b)] at h
  exact_mod_cast lt_of_mul_lt_mul_right h (gap_pos b).le

/-- A double that is a whole number of larger units has no more bits than in its own. -/
theorem abs_lt_of_eq_mul_gap {k : ℤ} (hgap : gap x ≤ gap b) (h : value x = k * gap b) : |k| < 2 ^ 53 := by
  have hlt := (abs_value_lt x).trans_le (mul_le_mul_of_nonneg_left hgap (by norm_num))
  rw [h] at hlt
  exact abs_lt_of_abs_mul_gap_lt hlt

/-- Doubles of no smaller unit are at least a unit apart. -/
theorem gap_le_sub {y : Float} (hx : gap b ≤ gap x) (hy : gap b ≤ gap y) (h : value x < value y) :
    gap b ≤ value y - value x := by
  obtain ⟨k, hk⟩ := exists_eq_mul_zpow ((zpow_le_zpow_iff_right₀ one_lt_two).mp hx)
  obtain ⟨l, hl⟩ := exists_eq_mul_zpow ((zpow_le_zpow_iff_right₀ one_lt_two).mp hy)
  rw [hk, hl] at h ⊢
  have hlt : k < l := by exact_mod_cast lt_of_mul_lt_mul_right h (gap_pos b).le
  have hone : (1 : ℚ) ≤ l - k := by exact_mod_cast Int.le_sub_left_of_add_le hlt
  rw [← sub_mul]
  exact le_mul_of_one_le_left (gap_pos b).le hone

/-- Whole multiples of a power of two with a small enough factor are doubles. -/
theorem exact_intCast_mul_zpow {k e : ℤ} (hk : |k| < 2 ^ 53) (he : -1074 ≤ e) (he' : e ≤ 971) :
    Exact (k * 2 ^ e) := by
  have hbits : k.natAbs < 2 ^ 53 := by
    rw [← Int.natCast_natAbs] at hk
    exact_mod_cast hk
  have hexact := exact_mul_zpow hbits he he'
  rcases Int.natAbs_eq k with h | h <;> rw [h]
  · rw [Int.cast_natCast]
    exact hexact
  · rw [Int.cast_neg, Int.cast_natCast, neg_mul]
    exact hexact.neg

/-! ## What rounding loses -/

/-- Where the numbers are not larger than a double, half of its unit is the most that is lost. -/
theorem abs_nearest_sub_le_gap (h : |q| ≤ |value b|) : |nearest q - q| ≤ gap b / 2 := by
  rw [← abs_nearest_sub_abs]
  have h0 := abs_nonneg q
  generalize |q| = q at h h0 ⊢
  rcases h0.lt_or_eq with hpos | rfl
  · have hlt : q < 2 ^ (53 + (unpack b).exponent) := by
      rw [zpow_add₀ two_ne_zero]
      exact h.trans_lt (abs_value_lt b)
    have hlog : Int.log 2 q < 53 + (unpack b).exponent := by
      rw [← Int.lt_zpow_iff_log_lt (by norm_num) hpos]
      exact_mod_cast hlt
    -- a smaller number is rounded to a quantum no greater than this gap
    have hquantum : quantum q ≤ (unpack b).exponent := by
      have := le_exponent b
      unfold quantum
      omega
    rw [nearest_of_nonneg h0]
    calc |rounded q - q| ≤ 2 ^ (quantum q - 1) := abs_rounded_sub_le h0
      _ = 2 ^ quantum q / 2 := zpow_sub_one₀ two_ne_zero _
      _ ≤ gap b / 2 := div_le_div_of_nonneg_right (zpow_le_zpow_right₀ one_le_two hquantum) two_pos.le
  · rw [exact_zero.nearest_eq, sub_zero, abs_zero]
    exact (half_pos (gap_pos b)).le

/-- A double that is close to another one with no smaller unit is a whole number of half that unit. -/
theorem exists_half_gap (hgap : gap c ≤ gap b) (h : |value b - value c| ≤ 2 ^ 51 * gap b) :
    ∃ j : ℤ, value c = j * (gap b / 2) := by
  have hexponent : (unpack c).exponent ≤ (unpack b).exponent :=
    (zpow_le_zpow_iff_right₀ one_lt_two).mp hgap
  have hhalf : gap b / 2 = 2 ^ ((unpack b).exponent - 1) := (zpow_sub_one₀ two_ne_zero _).symm
  rw [hhalf]
  apply exists_eq_mul_zpow
  by_cases hleast : (unpack b).exponent = -1074
  · have := le_exponent c
    omega
  · have hb := le_abs_value hleast
    have hc := abs_value_lt c
    have htriangle := abs_sub_abs_le_abs_sub (value b) (value c)
    -- so near to `b` the exponent can be less by one at most
    have hquarter : gap b / 4 = 2 ^ ((unpack b).exponent - 2) := by
      rw [gap, zpow_sub₀ two_ne_zero]
      norm_num
    have hlt : (2 : ℚ) ^ ((unpack b).exponent - 2) < 2 ^ (unpack c).exponent := by
      rw [← hquarter, ← gap]
      linarith
    have := (zpow_lt_zpow_iff_right₀ one_lt_two).mp hlt
    omega

/-- Even some bits below the subnormal numbers, a share of the number is the most that is lost. -/
theorem abs_nearest_sub_le_share {j : ℕ} (h : 2 ^ (-1022 - j : ℤ) ≤ q) : |nearest q - q| ≤ 2 ^ (j - 53 : ℤ) * q := by
  have hpos : 0 < q := (zpow_pos two_pos _).trans_le h
  have hnormal : (2 : ℚ) ^ (-1022 : ℤ) ≤ 2 ^ (j : ℤ) * q := by
    have hsplit : (2 : ℚ) ^ (-1022 : ℤ) = 2 ^ (j : ℤ) * 2 ^ (-1022 - j : ℤ) := by
      rw [← zpow_add₀ two_ne_zero, add_sub_cancel]
    rw [hsplit]
    exact mul_le_mul_of_nonneg_left h (zpow_pos two_pos _).le
  have hle : q ≤ 2 ^ (j : ℤ) * q := le_mul_of_one_le_left hpos.le (one_le_zpow₀ one_le_two (Int.natCast_nonneg j))
  have hshare : (2 : ℚ) ^ (j - 53 : ℤ) = 2 ^ (-53 : ℤ) * 2 ^ (j : ℤ) := by
    rw [← zpow_add₀ two_ne_zero, neg_add_eq_sub]
  rw [hshare, mul_assoc]
  exact abs_nearest_sub_le_mul ((abs_of_pos hpos).trans_le hle) hnormal

/-! ## Multiples of the smallest double -/

/-- Every double is a whole multiple of the smallest one. -/
theorem exists_intCast_mul (x : Float) : ∃ k : ℤ, value x = k * 2 ^ (-1074 : ℤ) :=
  exists_eq_mul_zpow (le_exponent x)

theorem exists_natCast_mul {p : ℚ} (hp : 0 < p) {k : ℤ} (h : p = k * 2 ^ (-1074 : ℤ)) :
    ∃ m : ℕ, 0 < m ∧ p = m * 2 ^ (-1074 : ℤ) := by
  have hk : 0 < k := by
    rw [h] at hp
    exact_mod_cast pos_of_mul_pos_left hp (zpow_pos two_pos _).le
  obtain ⟨m, rfl⟩ := Int.eq_ofNat_of_zero_le hk.le
  exact ⟨m, by exact_mod_cast hk, h⟩

/-- Every rounded number is a whole multiple of the smallest double. -/
theorem exists_nearest_eq (h : 0 ≤ q) : ∃ k : ℕ, nearest q = k * 2 ^ (-1074 : ℤ) := by
  refine ⟨nearestEven (q / 2 ^ quantum q) * 2 ^ (quantum q - -1074).toNat, ?_⟩
  have hquantum := neg_1074_le_quantum q
  rw [nearest_of_nonneg h, rounded, Nat.cast_mul, Nat.cast_pow, Nat.cast_ofNat, mul_assoc, ← zpow_natCast,
    Int.toNat_of_nonneg (by omega), ← zpow_add₀ two_ne_zero, sub_add_cancel]

theorem exact_two_pow_mul_smallest : Exact (2 ^ 53 * 2 ^ (-1074 : ℤ)) := by
  rw [← zpow_natCast, ← zpow_add₀ two_ne_zero]
  exact exact_two_zpow (by norm_num) (by norm_num)

/-- Among the smallest doubles half of the smallest one is the most that is lost. -/
theorem abs_nearest_sub_le_smallest (h0 : 0 ≤ q) (h : q ≤ 2 ^ 53 * 2 ^ (-1074 : ℤ)) :
    |nearest q - q| ≤ 2 ^ (-1074 : ℤ) / 2 := by
  have hpos : (0 : ℚ) < 2 ^ (-1074 : ℤ) := zpow_pos two_pos _
  rcases h.lt_or_eq with hlt | rfl
  · rcases h0.lt_or_eq with hq | rfl
    · have hlog : Int.log 2 q < -1021 := by
        rw [← Int.lt_zpow_iff_log_lt (by norm_num) hq]
        have hsplit : (2 : ℚ) ^ (-1021 : ℤ) = 2 ^ 53 * 2 ^ (-1074 : ℤ) := zpow_add₀ two_ne_zero 53 (-1074)
        rw [← hsplit] at hlt
        exact_mod_cast hlt
      have hquantum : quantum q = -1074 := by
        unfold quantum
        omega
      have hround := abs_rounded_sub_le h0
      rwa [hquantum, zpow_sub_one₀ two_ne_zero, ← div_eq_mul_inv, ← nearest_of_nonneg h0] at hround
    · rw [exact_zero.nearest_eq, sub_zero, abs_zero]
      exact (half_pos hpos).le
  · rw [exact_two_pow_mul_smallest.nearest_eq, sub_self, abs_zero]
    exact (half_pos hpos).le

/-! ## A number and itself -/

/-- Twice a number is not rounded, -/
theorem exact_double (h : |value x| < 2 ^ (1023 : ℤ)) : Exact (2 * value x) := by
  obtain ⟨k, hk, hv⟩ := exists_value_eq x
  have hexponent : (unpack x).exponent ≤ 970 := by
    by_contra hlarge
    have hgap : (2 : ℚ) ^ (971 : ℤ) ≤ gap x := zpow_le_zpow_right₀ one_le_two (by omega)
    have hlow : (2 : ℚ) ^ (1023 : ℤ) ≤ |value x| :=
      calc (2 : ℚ) ^ (1023 : ℤ) = 2 ^ (52 : ℤ) * 2 ^ (971 : ℤ) := zpow_add₀ two_ne_zero 52 971
        _ ≤ 2 ^ (52 : ℤ) * gap x := mul_le_mul_of_nonneg_left hgap (zpow_pos two_pos 52).le
        _ ≤ |value x| := by exact_mod_cast le_abs_value (x := x) (by omega)
    exact absurd hlow (not_le.mpr h)
  have hdouble : 2 * value x = k * 2 ^ ((unpack x).exponent + 1) := by
    rw [hv, gap, two_zpow_succ]
    ring
  have hleast := le_exponent x
  rw [hdouble]
  exact exact_intCast_mul_zpow hk (by omega) (by omega)

/-- unless it is too large. -/
theorem infinity_double {s : Sign} {r : ℚ} (hx : isFinite x = true) (h : value x = signed s r)
    (hr : 2 ^ (1023 : ℤ) ≤ r) : (x + x).toModel.unpack = .infinity s := by
  have hsum : value x + value x = signed s (2 * r) := by
    rw [h, two_mul]
    cases s
    · exact (neg_add r r).symm
    · rfl
  have hlarge : tooLarge ≤ 2 * r :=
    (two_zpow_succ 1023).trans_le (mul_le_mul_of_nonneg_left hr two_pos.le)
  exact (hsum ▸ rounds_add hx hx).infinity hlarge

/-- The mean of a number with itself is that number, -/
theorem within_mean (hx : isFinite x = true) (h : |value x| < 2 ^ (1023 : ℤ)) :
    Within (value x) (value x) ((x + x) / 2.0) := by
  have hdouble := exact_double h
  have hsum : Within (2 * value x) (2 * value x) (x + x) := by
    refine (rounds_add hx hx).within hdouble hdouble ?_ ?_ <;> rw [two_mul]
  have hhalf : value (x + x) / value 2.0 = value x := by
    rw [hsum.value_eq, within_two.value_eq, mul_div_cancel_left₀ _ two_ne_zero]
  have hround := rounds_div hsum.finite within_two.finite (by rw [within_two.value_eq]; exact two_ne_zero)
  rw [hhalf] at hround
  exact hround.within (exact_value hx) (exact_value hx) le_rfl le_rfl

/-- or infinite. -/
theorem infinity_mean {s : Sign} {r : ℚ} (hx : isFinite x = true) (h : value x = signed s r)
    (hr : 2 ^ (1023 : ℤ) ≤ r) : ((x + x) / 2.0).toModel.unpack = .infinity s :=
  infinity_div (infinity_double hx h hr) within_two.finite (within_two.value_eq ▸ two_pos)

end FuzzyInference.Double

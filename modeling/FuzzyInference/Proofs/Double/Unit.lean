import FuzzyInference.Proofs.Decimal.Reading
import FuzzyInference.Proofs.Double.Special

/-!
# Doubles in the unit interval

A degree is a finite double from 0 to 1. Below 1 a double is a multiple of 2^-53 or has places to spare, and
half of that is the most that a sum near 1 is rounded by. So sums and products of degrees stay where the
exact ones are, unless two that are rounded apart are then subtracted.

## Contents
- `Within`: a finite double between two numbers. `Within.add`, `Within.sub`, `Within.mul`, `within_div`,
  `within_abs`, `within_greater`: its operations. `Rounds.within_nearest`: results that are rounded.
  `inUnit_iff`: what the code checks.
- `abs_nearest_sub_le`, `nearest_le_one`, `nearest_double`: what rounding does near 1 and to a double.
- `Within.le_one_sub`, `Within.exact_double`, `exact_excess`: how finely degrees are spaced.
- `boundedSum_within`, `mul_le_boundedSum`, `add_le_one_add_mul`: sums and products of degrees compared.
-/

namespace FuzzyInference.Double

open Scalar

/-! ## Intervals -/

/-- A finite double between two numbers. -/
structure Within (a b : ℚ) (x : Float) : Prop where
  finite : isFinite x = true
  le : a ≤ value x
  ge : value x ≤ b

variable {a b c d q : ℚ} {x y z u v w : Float}

theorem Within.mono (h : Within a b x) (hca : c ≤ a) (hbd : b ≤ d) : Within c d x :=
  ⟨h.finite, hca.trans h.le, h.ge.trans hbd⟩

theorem Within.value_eq (h : Within a a x) : value x = a := le_antisymm h.ge h.le

theorem Within.not_isNaN (h : Within a b x) : isNaN x = false := not_isNaN_of_isFinite h.finite

theorem Within.nonneg (h : Within a b x) (ha : 0 ≤ a) : (0.0 : Float) ≤ x :=
  zero_le_iff.mpr (Or.inl ⟨h.finite, ha.trans h.le⟩)

/-- Rounding stays between two doubles that the exact number lies between. -/
theorem Rounds.within (h : Rounds q z) (ha : Exact a) (hb : Exact b) (haq : a ≤ q) (hqb : q ≤ b) :
    Within a b z := by
  obtain ⟨hz, hlow, hhigh⟩ := h.mem ha hb haq hqb
  exact ⟨hz, hlow, hhigh⟩

/-- The nearest number, if it does not overflow. -/
theorem Rounds.within_nearest (h : Rounds q z) (ha : Exact a) (hb : Exact b) (haq : a ≤ q) (hqb : q ≤ b) :
    Within (nearest q) (nearest q) z := by
  have hz := (h.within ha hb haq hqb).finite
  exact ⟨hz, (h.value_eq hz).ge, (h.value_eq hz).le⟩

theorem within_abs (hx : isFinite x = true) : Within |value x| |value x| (abs x) := by
  have habs := denotes_abs (denotes_unpack hx)
  have hvalue : value (abs x) = |value x| := by
    rw [abs_value_eq]
    exact habs.value_eq
  exact ⟨(denotes_iff.mp habs).1, hvalue.ge, hvalue.le⟩

theorem within_greater (hx : Within a a x) (hy : Within b b y) :
    Within (max a b) (max a b) (greater x y) := by
  rw [greater_of_not_isNaN hx.not_isNaN]
  split
  next h =>
    rw [lt_iff_value hx.finite hy.finite, hx.value_eq, hy.value_eq] at h
    rwa [max_eq_right h.le]
  next h =>
    rw [lt_iff_value hx.finite hy.finite, hx.value_eq, hy.value_eq, not_lt] at h
    rwa [max_eq_left h]

/-- A sum lies between the sums of the bounds, if these are doubles. -/
theorem Within.add (hx : Within a b x) (hy : Within c d y) (hlow : Exact (a + c)) (hhigh : Exact (b + d)) :
    Within (a + c) (b + d) (x + y) :=
  (rounds_add hx.finite hy.finite).within hlow hhigh (add_le_add hx.le hy.le) (add_le_add hx.ge hy.ge)

theorem Within.sub (hx : Within a b x) (hy : Within c d y) (hlow : Exact (a - d)) (hhigh : Exact (b - c)) :
    Within (a - d) (b - c) (x - y) :=
  (rounds_sub hx.finite hy.finite).within hlow hhigh (sub_le_sub hx.le hy.ge) (sub_le_sub hx.ge hy.le)

/-- A product of what is not negative lies between the products of the bounds. -/
theorem Within.mul (hx : Within a b x) (hy : Within c d y) (ha : 0 ≤ a) (hc : 0 ≤ c)
    (hlow : Exact (a * c)) (hhigh : Exact (b * d)) : Within (a * c) (b * d) (x * y) := by
  refine (rounds_mul hx.finite hy.finite).within hlow hhigh (mul_le_mul hx.le hy.le hc (ha.trans hx.le)) ?_
  exact mul_le_mul hx.ge hy.ge (hc.trans hy.le) (ha.trans (hx.le.trans hx.ge))

/-- A product of either sign is bounded by the product of the bounds. -/
theorem Within.mul_abs (hx : Within (-a) a x) (hy : Within (-b) b y) (h : Exact (a * b)) :
    Within (-(a * b)) (a * b) (x * y) := by
  have hx' := abs_le.mpr ⟨hx.le, hx.ge⟩
  have hproduct : |value x * value y| ≤ a * b := by
    rw [abs_mul]
    exact mul_le_mul hx' (abs_le.mpr ⟨hy.le, hy.ge⟩) (abs_nonneg _) ((abs_nonneg _).trans hx')
  exact (rounds_mul hx.finite hy.finite).within h.neg h (abs_le.mp hproduct).1 (abs_le.mp hproduct).2

/-- A number divided by one that is not smaller. -/
theorem within_div (hx : isFinite x = true) (hy : isFinite y = true) (h0 : 0 ≤ value x)
    (hxy : value x ≤ value y) (hpos : 0 < value y) : Within 0 1 (x / y) :=
  (rounds_div hx hy hpos.ne').within exact_zero exact_one (div_nonneg h0 hpos.le)
    ((div_le_one hpos).mpr hxy)

/-! ## Literals -/

/-- A decimal literal that is a double stands for it exactly. -/
theorem within_ofScientific {m k : ℕ} (hm : 0 < m) (hk : 0 < k) (hk' : k ≤ 2 ^ 11)
    (hq : (m * 10 ^ (-(k : ℤ)) : ℚ) = q) (h : Exact q) : Within q q (Float.ofScientific m true k) := by
  have hlog : 0 ≤ (m.log2 : ℤ) := Int.natCast_nonneg _
  have hnearest := isNearest_ofScientific hm (e := -(k : ℤ)) (by omega) (by omega)
  have hsign : decide (-(k : ℤ) < 0) = true := decide_eq_true (by omega)
  rw [hsign, Int.natAbs_neg, Int.natAbs_natCast, hq] at hnearest
  have h0 : 0 ≤ q := hq ▸ by positivity
  exact (rounds_of_isNearest h0 hnearest).within h h le_rfl le_rfl

theorem exact_two_zpow {e : ℤ} (he : -1074 ≤ e) (he' : e ≤ 971) : Exact (2 ^ e) := by
  simpa using exact_mul_zpow (m := 1) (by norm_num) he he'

theorem exact_two : Exact 2 := exact_natCast (n := 2) (by norm_num)

theorem exact_half : Exact (1 / 2) := by
  simpa using exact_two_zpow (e := -1) (by norm_num) (by norm_num)

theorem exact_quarter : Exact (1 / 4) := by
  have h := exact_two_zpow (e := -2) (by norm_num) (by norm_num)
  norm_num at h ⊢
  exact h

theorem exact_eighth : Exact (1 / 8) := by
  have h := exact_two_zpow (e := -3) (by norm_num) (by norm_num)
  norm_num at h ⊢
  exact h

theorem within_zero : Within 0 0 0.0 := by
  have h := denotes_zero.value_eq
  exact ⟨(denotes_iff.mp denotes_zero).1, h.ge, h.le⟩

theorem within_half : Within (1 / 2) (1 / 2) 0.5 :=
  within_ofScientific (m := 5) (by norm_num) (by norm_num) (by norm_num) (by norm_num) exact_half

/-- Literals of whole numbers. -/
theorem within_whole {n : ℕ} (hn : 0 < n) (hlt : n < 2 ^ 53) :
    Within n n (Float.ofScientific (10 * n) true 1) := by
  refine within_ofScientific (by omega) (by norm_num) (by norm_num) ?_ (exact_natCast hlt)
  rw [zpow_neg, Nat.cast_one, zpow_one, Nat.cast_mul, Nat.cast_ofNat]
  field_simp

theorem within_one : Within 1 1 1.0 := by
  have h := within_whole (n := 1) (by norm_num) (by norm_num)
  rwa [Nat.cast_one] at h

theorem within_two : Within 2 2 2.0 := within_whole (n := 2) (by norm_num) (by norm_num)

theorem within_four : Within 4 4 4.0 := within_whole (n := 4) (by norm_num) (by norm_num)

/-- The unit interval, as the check sees it. -/
theorem inUnit_iff : inUnit x = true ↔ Within 0 1 x := by
  have hbool : inUnit x = true ↔ 0.0 ≤ x ∧ x ≤ 1.0 := by
    unfold inUnit
    rw [Bool.and_eq_true, decide_eq_true_iff, decide_eq_true_iff]
  rw [hbool, finite_le_iff within_zero.finite, within_zero.value_eq]
  constructor
  · rintro ⟨⟨hx, h0⟩ | hx, h1⟩
    · rw [le_iff_value hx within_one.finite, within_one.value_eq] at h1
      exact ⟨hx, h0, h1⟩
    · rw [le_iff_not_lt (isNaN_of_infinity hx) within_one.not_isNaN] at h1
      exact absurd (lt_infinity within_one.finite hx) h1
  · rintro ⟨hx, h0, h1⟩
    exact ⟨Or.inl ⟨hx, h0⟩, by rwa [le_iff_value hx within_one.finite, within_one.value_eq]⟩

/-- Two numbers in order, between the ends. -/
theorem within_of_ordered (hlow : (0.0 : Float) ≤ x) (h : x ≤ y) (hhigh : y ≤ 1.0) :
    Within 0 1 x ∧ Within 0 1 y :=
  ⟨inUnit_iff.mp (by simp [inUnit, hlow, trans_of_le h hhigh]),
    inUnit_iff.mp (by simp [inUnit, trans_of_le hlow h, hhigh])⟩

/-! ## Half a unit in the last place -/

/-- The rounding error is at most half a gap of the binade. -/
theorem abs_nearest_sub_le {k : ℤ} (hk : -1021 ≤ k) (h0 : 0 ≤ q) (h : q < 2 ^ k) :
    |nearest q - q| ≤ 2 ^ (k - 54) := by
  rw [nearest_of_nonneg h0]
  rcases h0.lt_or_eq with hq | rfl
  · refine (abs_rounded_sub_le h0).trans (zpow_le_zpow_right₀ one_le_two ?_)
    have hlog : Int.log 2 q < k := (Int.lt_zpow_iff_log_lt (by norm_num) hq).mp (by exact_mod_cast h)
    unfold quantum
    omega
  · rw [rounded_zero, sub_zero, abs_zero]
    exact (zpow_pos two_pos _).le

/-- Half way to the next double after 1 is rounded back to 1, whose last bit is even. -/
theorem nearest_one_add : nearest (1 + 2 ^ (-53 : ℤ)) = 1 := by
  have hvalue : (1 + 2 ^ (-53 : ℤ) : ℚ) = ((2 ^ 53 + 1 : ℕ) : ℚ) * 2 ^ (-53 : ℤ) := by
    norm_num
  have hquantum : quantum (1 + 2 ^ (-53 : ℤ)) = -52 := by
    rw [hvalue, quantum_mul_zpow (by norm_num),
      show (2 ^ 53 + 1 : ℕ).log2 = 53 from (Nat.log2_eq_iff (by norm_num)).mpr (by norm_num)]
    norm_num
  have hmiddle : ((1 + 2 ^ (-53 : ℤ)) / 2 ^ (-52 : ℤ) : ℚ) = (2 ^ 52 : ℕ) + 1 / 2 := by
    norm_num
  have heven : nearestEven ((2 ^ 52 : ℕ) + 1 / 2) = 2 ^ 52 :=
    (@Between.roundedMantissa_eq ⟨2 ^ 52, true, false⟩ _ rfl).symm
  rw [nearest_of_nonneg (by positivity), rounded, hquantum, hmiddle, heven]
  norm_num

/-- Just above 1, up to half a gap, rounding still gives 1. -/
theorem nearest_le_one (h : q ≤ 1 + 2 ^ (-53 : ℤ)) : nearest q ≤ 1 :=
  nearest_one_add ▸ nearest_mono h

/-- A number and its rounded complement. -/
theorem add_nearest_one_sub_le (h0 : 0 ≤ q) (h1 : q ≤ 1) : q + nearest (1 - q) ≤ 1 + 2 ^ (-54 : ℤ) := by
  have hpos : (0 : ℚ) < 2 ^ (-54 : ℤ) := zpow_pos two_pos _
  rcases h0.lt_or_eq with h | rfl
  · have hround := abs_nearest_sub_le (k := 0) (by norm_num) (sub_nonneg.mpr h1) (by rw [zpow_zero]; linarith)
    have := (abs_le.mp hround).2
    norm_num at this ⊢
    linarith
  · rw [sub_zero, exact_one.nearest_eq]
    linarith

/-- A doubled number is rounded as the number is, unless it is subnormal. -/
theorem nearest_double (h : 2 ^ (-1022 : ℤ) ≤ q) : nearest (2 * q) = 2 * nearest q := by
  have hq : 0 < q := (zpow_pos two_pos _).trans_le h
  have hlog : -1022 ≤ Int.log 2 q := (Int.zpow_le_iff_le_log (by norm_num) hq).mp (by exact_mod_cast h)
  -- doubling moves the last place along, so nothing changes but the scale
  have hlog' : Int.log 2 (2 * q) = Int.log 2 q + 1 := by
    have hlow := Int.zpow_log_le_self (b := 2) (by norm_num) hq
    have hhigh := Int.lt_zpow_succ_log_self (b := 2) (by norm_num) q
    push_cast at hlow hhigh
    refine le_antisymm (Int.lt_add_one_iff.mp ?_) ?_
    · refine (Int.lt_zpow_iff_log_lt (by norm_num) (by linarith)).mp ?_
      push_cast
      rw [two_zpow_succ]
      linarith
    · refine (Int.zpow_le_iff_le_log (by norm_num) (by linarith)).mp ?_
      push_cast
      rw [two_zpow_succ]
      linarith
  have hquantum : quantum (2 * q) = quantum q + 1 := by
    unfold quantum
    omega
  have hscaled : 2 * q / 2 ^ (quantum q + 1) = q / 2 ^ quantum q := by
    rw [two_zpow_succ]
    exact mul_div_mul_left q _ two_ne_zero
  rw [nearest_of_nonneg (by linarith), nearest_of_nonneg hq.le, rounded, rounded, hquantum, hscaled,
    two_zpow_succ]
  ring

/-! ## Multiples of a power of two -/

theorem one_eq_mul_zpow {e : ℤ} (he : e ≤ 0) : (1 : ℚ) = ((2 ^ (-e).toNat : ℕ) : ℚ) * 2 ^ e := by
  rw [Nat.cast_pow, Nat.cast_ofNat, ← zpow_natCast, Int.toNat_of_nonneg (by omega),
    ← zpow_add₀ (by norm_num), neg_add_cancel, zpow_zero]

theorem value_eq_magnitude (h : 0 ≤ value x) : value x = magnitude x := by
  rw [← abs_value_eq, abs_of_nonneg h]

/-- The value of a degree, as 53 bits at an exponent. -/
theorem Within.exists_bits (h : Within 0 1 x) :
    ∃ (m : ℕ) (e : ℤ), m < 2 ^ 53 ∧ -1074 ≤ e ∧ e ≤ 0 ∧ value x = m * 2 ^ e := by
  have hmagnitude := value_eq_magnitude h.le
  by_cases hzero : (unpack x).significand = 0
  · refine ⟨0, -1074, by norm_num, le_rfl, by norm_num, ?_⟩
    rw [hmagnitude, magnitude, Unpacked.magnitude, hzero]
    simp
  · have hc := canonical_unpack hzero
    refine ⟨(unpack x).significand, (unpack x).exponent, hc.lt, hc.le, ?_, hmagnitude⟩
    by_contra hpos
    have hfull : 2 ^ 52 ≤ (unpack x).significand := hc.full.resolve_right (by omega)
    have hlarge : (1 : ℚ) < (unpack x).significand * 2 ^ (unpack x).exponent :=
      calc (1 : ℚ) < 2 ^ 52 * 2 ^ (0 : ℤ) := by norm_num
        _ ≤ (unpack x).significand * 2 ^ (unpack x).exponent := by
          refine mul_le_mul (by exact_mod_cast hfull) (zpow_le_zpow_right₀ one_le_two (by omega))
            (zpow_pos two_pos _).le ?_
          exact Nat.cast_nonneg _
    have hle := h.ge
    rw [hmagnitude] at hle
    exact absurd hle (not_le.mpr hlarge)

/-- Twice a degree is not rounded. -/
theorem Within.exact_double (h : Within 0 1 x) : Exact (2 * value x) := by
  obtain ⟨m, e, hm, he, he', hv⟩ := h.exists_bits
  have hdouble : 2 * value x = m * 2 ^ (e + 1) := by
    rw [hv, two_zpow_succ]
    ring
  rw [hdouble]
  exact exact_mul_zpow hm (by omega) (by omega)

/-- What a degree lacks to 1 is nothing or at least a unit in the last place. -/
theorem Within.le_one_sub (h : Within 0 1 x) (hne : value x ≠ 1) : 2 ^ (-53 : ℤ) ≤ 1 - value x := by
  obtain ⟨m, e, hm, -, he, hv⟩ := h.exists_bits
  rcases le_or_gt (value x) (1 / 2) with hhalf | hhalf
  · norm_num at hhalf ⊢
    linarith
  -- above a half the last place is 2^-53 or more, and 1 is a multiple of it
  have hexponent : -53 ≤ e := by
    by_contra hlt
    have : (m : ℚ) * 2 ^ e ≤ 2 ^ 53 * 2 ^ (-54 : ℤ) :=
      mul_le_mul (by exact_mod_cast hm.le) (zpow_le_zpow_right₀ one_le_two (by omega))
        (zpow_pos two_pos e).le (by norm_num)
    rw [hv] at hhalf
    norm_num at this hhalf
    linarith
  have hone : (1 : ℚ) = ((2 ^ (-e).toNat : ℕ) : ℚ) * 2 ^ e := one_eq_mul_zpow he
  generalize 2 ^ (-e).toNat = o at hone
  have hlt : m + 1 ≤ o := by
    have hlt : (m : ℚ) * 2 ^ e < (o : ℚ) * 2 ^ e := hone ▸ hv ▸ lt_of_le_of_ne h.ge hne
    exact_mod_cast lt_of_mul_lt_mul_right hlt (zpow_pos two_pos e).le
  calc (2 : ℚ) ^ (-53 : ℤ) ≤ 1 * 2 ^ e := by rw [one_mul]; exact zpow_le_zpow_right₀ one_le_two hexponent
    _ ≤ ((o : ℚ) - m) * 2 ^ e := by
      refine mul_le_mul_of_nonneg_right ?_ (zpow_pos two_pos e).le
      have : ((m + 1 : ℕ) : ℚ) ≤ o := Nat.cast_le.mpr hlt
      push_cast at this
      linarith
    _ = 1 - value x := by rw [sub_mul, ← hone, ← hv]

/-- The excess of two degrees over 1 is not rounded: it is a multiple of what the smaller one is a
    multiple of. -/
theorem exact_excess (hu : Within 0 1 u) (hv : Within 0 1 v) (h : 1 ≤ value u + value v) :
    Exact (value u + value v - 1) := by
  -- both exponents the same way round
  have haux : ∀ {u v : Float}, Within 0 1 u → Within 0 1 v → 1 ≤ value u + value v →
      ∀ {m n : ℕ} {e f : ℤ}, value u = m * 2 ^ e → value v = n * 2 ^ f → n < 2 ^ 53 → -1074 ≤ f →
        f ≤ e → e ≤ 0 → Exact (value u + value v - 1) := by
    intro u v hu hv h m n e f hm hn hbits hf hfe he
    have hone : (1 : ℚ) = ((2 ^ (-f).toNat : ℕ) : ℚ) * 2 ^ f := one_eq_mul_zpow (hfe.trans he)
    have hfirst : value u = ((m * 2 ^ (e - f).toNat : ℕ) : ℚ) * 2 ^ f := by
      rw [hm, Nat.cast_mul, Nat.cast_pow, Nat.cast_ofNat, ← zpow_natCast, Int.toNat_of_nonneg (by omega),
        mul_assoc, ← zpow_add₀ (by norm_num), sub_add_cancel]
    generalize m * 2 ^ (e - f).toNat = k at hfirst
    generalize 2 ^ (-f).toNat = o at hone
    have hsum : o ≤ k + n := by
      have : (o : ℚ) * 2 ^ f ≤ ((k + n : ℕ) : ℚ) * 2 ^ f := by
        rw [← hone, Nat.cast_add, add_mul, ← hfirst, ← hn]
        exact h
      exact_mod_cast le_of_mul_le_mul_right this (zpow_pos two_pos f)
    have hle : k ≤ o := by
      have : (k : ℚ) * 2 ^ f ≤ (o : ℚ) * 2 ^ f := by
        rw [← hone, ← hfirst]
        exact hu.ge
      exact_mod_cast le_of_mul_le_mul_right this (zpow_pos two_pos f)
    have hexcess : value u + value v - 1 = ((k + n - o : ℕ) : ℚ) * 2 ^ f := by
      rw [Nat.cast_sub hsum, Nat.cast_add, sub_mul, add_mul, ← hfirst, ← hn, ← hone]
    rw [hexcess]
    exact exact_mul_zpow (by omega) hf (by omega)
  obtain ⟨m, e, hm, he, he', hvu⟩ := hu.exists_bits
  obtain ⟨n, f, hn, hf, hf', hvv⟩ := hv.exists_bits
  rcases le_total f e with h' | h'
  · exact haux hu hv h hvu hvv hn hf h' he'
  · rw [add_comm (value u)] at h ⊢
    exact haux hv hu h hvv hvu hm he h' hf'

/-! ## Sums and products of degrees -/

section Degrees

variable (hu : Within 0 1 u) (hv : Within 0 1 v)
include hu hv

/-- A product is at most either factor, -/
theorem mul_within_left : Within 0 (value u) (u * v) :=
  (rounds_mul hu.finite hv.finite).within exact_zero (exact_value hu.finite) (mul_nonneg hu.le hv.le)
    (mul_le_of_le_one_right hu.le hv.ge)

theorem mul_within_right : Within 0 (value v) (u * v) :=
  (rounds_mul hu.finite hv.finite).within exact_zero (exact_value hv.finite) (mul_nonneg hu.le hv.le)
    (mul_le_of_le_one_left hv.le hu.ge)

theorem mul_within : Within 0 1 (u * v) := (mul_within_left hu hv).mono le_rfl hu.ge

/-- and at least what the sum exceeds 1 by. -/
theorem excess_le_mul : value u + value v - 1 ≤ value (u * v) := by
  rcases le_total 1 (value u + value v) with h | h
  · refine ((rounds_mul hu.finite hv.finite).within (exact_excess hu hv h) exact_one ?_ ?_).le
    · -- the difference is the product of what is missing
      linarith [mul_nonneg (sub_nonneg.mpr hu.ge) (sub_nonneg.mpr hv.ge)]
    · exact mul_le_one₀ hu.ge hv.le hv.ge
  · exact (sub_nonpos.mpr h).trans (mul_within hu hv).le

theorem add_within : Within (value u) 2 (u + v) := by
  have htwo : (1 : ℚ) + 1 = 2 := by norm_num
  refine (rounds_add hu.finite hv.finite).within (exact_value hu.finite) exact_two ?_ ?_
  · exact le_add_of_nonneg_right hv.le
  · exact (add_le_add hu.ge hv.ge).trans htwo.le

theorem add_le_two : Within 0 2 (u + v) := (add_within hu hv).mono hu.le le_rfl

/-- Twice a product of degrees is at most their sum, even when both are rounded. -/
theorem double_mul_le_add : 2 * value (u * v) ≤ value (u + v) := by
  have hp := mul_within hu hv
  have hleft := (mul_within_left hu hv).ge
  have hright := (mul_within_right hu hv).ge
  refine ((rounds_add hu.finite hv.finite).within hp.exact_double exact_two ?_ ?_).le
  · linarith
  · exact (add_le_add hu.ge hv.ge).trans (by norm_num)

/-- Without the product a sum is larger than 1 by half a unit in the last place at most. -/
theorem add_sub_mul_le : value (u + v) - value (u * v) ≤ 1 + 2 ^ (-53 : ℤ) := by
  have hp := excess_le_mul hu hv
  rcases (add_le_add hu.ge hv.ge).lt_or_eq with hlt | heq
  · have hround := abs_nearest_sub_le (k := 1) (by norm_num) (add_nonneg hu.le hv.le)
      (hlt.trans_le (by norm_num))
    rw [← (rounds_add hu.finite hv.finite).value_eq (add_within hu hv).finite] at hround
    have := (abs_le.mp hround).2
    norm_num at this ⊢
    linarith
  · have := (add_within hu hv).ge
    have hpos : (0 : ℚ) < 2 ^ (-53 : ℤ) := zpow_pos two_pos _
    linarith

/-- The bounded sum of degrees is a degree, -/
theorem boundedSum_within : Within 0 1 (u + v - u * v) := by
  have hs := add_le_two hu hv
  have hp := mul_within hu hv
  have hdouble := double_mul_le_add hu hv
  have hround := rounds_sub hs.finite hp.finite
  have hz : Within 0 2 (u + v - u * v) := hround.within exact_zero exact_two
    (by linarith [hp.le]) (by linarith [hp.le, hs.ge])
  refine ⟨hz.finite, hz.le, ?_⟩
  rw [hround.value_eq hz.finite]
  exact nearest_le_one (add_sub_mul_le hu hv)

/-- at least the product, -/
theorem mul_le_boundedSum : value (u * v) ≤ value (u + v - u * v) := by
  have hs := add_le_two hu hv
  have hp := mul_within hu hv
  have hdouble := double_mul_le_add hu hv
  exact ((rounds_sub hs.finite hp.finite).within (exact_value hp.finite) exact_two
    (by linarith) (by linarith [hp.le, hs.ge])).le

/-- and not zero unless both degrees are. -/
theorem boundedSum_pos (h : 0 < value u) : 0 < value (u + v - u * v) := by
  rcases (mul_within hu hv).le.lt_or_eq with hpos | hzero
  · exact hpos.trans_le (mul_le_boundedSum hu hv)
  · -- the product has underflowed, so nothing is taken off the sum
    have hs := add_within hu hv
    have hround := rounds_sub hs.finite (mul_within hu hv).finite
    rw [← hzero, sub_zero] at hround
    have hz := hround.within (exact_value hs.finite) (exact_value hs.finite) le_rfl le_rfl
    exact h.trans_le (hs.le.trans hz.le)

theorem one_add_mul_within : Within 1 2 (1.0 + u * v) := by
  have hp := mul_within hu hv
  refine (rounds_add within_one.finite hp.finite).within exact_one exact_two ?_ ?_ <;>
    rw [within_one.value_eq] <;> linarith [hp.le, hp.ge]

/-- A sum is at most 1 and the product together. -/
theorem add_le_one_add_mul : value (u + v) ≤ value (1.0 + u * v) := by
  have hp := excess_le_mul hu hv
  rw [(rounds_add hu.finite hv.finite).value_eq (add_within hu hv).finite,
    (rounds_add within_one.finite (mul_within hu hv).finite).value_eq (one_add_mul_within hu hv).finite,
    within_one.value_eq]
  exact nearest_mono (by linarith)

end Degrees

end FuzzyInference.Double

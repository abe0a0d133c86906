import FuzzyInference.Proofs.Double.Unit

/-!
# Dividing by a width

The width of an interval of doubles is a divisor of everything that is interpolated across it. Doubles that
differ do not differ by arbitrarily little, so a quotient by their difference is not arbitrarily large; and
a point of the interval is not further from one end than the other end is.

## Contents
- `le_mul_sub`, `abs_le_mul_sub`: how close doubles can be. `sub_pos_of_lt`, `value_sub_ne_zero`,
  `isFinite_div_sub`, `value_div_lt_one`: what follows for quotients.
- `Spanned`, `spanned_of_le`: a point in an interval of finite width.
- `nearest_quotient_mem`, `nearest_quotient_le`, `value_mul_div`: a share of a width, divided by the width.
-/

namespace FuzzyInference.Double

open Scalar

variable {p q r w d : ℚ} {x y low high : Float}

/-! ## Gaps -/

/-- Canonical forms in order are as far apart as the last place of the smaller one, so the larger one is not
    many times their distance. -/
theorem Canonical.le_mul_sub {m n : ℕ} {e f : ℤ} (hm : Canonical m e) (hn : Canonical n f)
    (h : (m : ℚ) * 2 ^ e < n * 2 ^ f) : 2 ^ (-1074 : ℤ) ≤ (n : ℚ) * 2 ^ f - m * 2 ^ e ∧
      (n : ℚ) * 2 ^ f ≤ 2 ^ (53 : ℤ) * (n * 2 ^ f - m * 2 ^ e) := by
  have hef : e ≤ f := by
    by_contra hlt
    exact absurd h (hn.lt_of_exponent_lt hm (not_le.mp hlt)).not_gt
  -- both are multiples of the last place of the smaller one
  have haligned : (n : ℚ) * 2 ^ f = ((n * 2 ^ (f - e).toNat : ℕ) : ℚ) * 2 ^ e := by
    rw [Nat.cast_mul, Nat.cast_pow, Nat.cast_ofNat, ← zpow_natCast, Int.toNat_of_nonneg (by omega),
      mul_assoc, ← zpow_add₀ (by norm_num), sub_add_cancel]
  rw [haligned] at h ⊢
  generalize n * 2 ^ (f - e).toNat = k at h
  have hlt : m + 1 ≤ k := by exact_mod_cast lt_of_mul_lt_mul_right h (zpow_pos two_pos e).le
  have hstep : (1 : ℚ) ≤ k - m := by
    have : ((m + 1 : ℕ) : ℚ) ≤ k := Nat.cast_le.mpr hlt
    push_cast at this
    linarith
  have hmantissa : (m : ℚ) + 1 ≤ 2 ^ (53 : ℤ) := by exact_mod_cast hm.lt
  rw [← sub_mul, ← mul_assoc]
  constructor
  · calc (2 : ℚ) ^ (-1074 : ℤ) ≤ 1 * 2 ^ e := by rw [one_mul]; exact zpow_le_zpow_right₀ one_le_two hm.le
      _ ≤ (k - m) * 2 ^ e := mul_le_mul_of_nonneg_right hstep (zpow_pos two_pos e).le
  · refine mul_le_mul_of_nonneg_right ?_ (zpow_pos two_pos e).le
    nlinarith [mul_le_mul_of_nonneg_right hmantissa (sub_nonneg.mpr hstep)]

/-- The same of numbers that are not negative. -/
theorem le_mul_sub (h0 : 0 ≤ value x) (h : value x < value y) :
    2 ^ (-1074 : ℤ) ≤ value y - value x ∧ value y ≤ 2 ^ (53 : ℤ) * (value y - value x) := by
  have hx := value_eq_magnitude h0
  have hy := value_eq_magnitude (h0.trans h.le)
  rw [magnitude, Unpacked.magnitude] at hx hy
  have hyzero : (unpack y).significand ≠ 0 := by
    intro hzero
    rw [hzero, Nat.cast_zero, zero_mul] at hy
    linarith
  have hcanonical := canonical_unpack hyzero
  by_cases hxzero : (unpack x).significand = 0
  · rw [hxzero, Nat.cast_zero, zero_mul] at hx
    rw [hx, sub_zero]
    refine ⟨(zpow_le_zpow_right₀ one_le_two hcanonical.le).trans ?_,
      le_mul_of_one_le_left (h0.trans h.le) (by norm_num)⟩
    rw [hy]
    exact le_mul_of_one_le_left (zpow_pos two_pos _).le (by exact_mod_cast hcanonical.pos)
  · rw [hx, hy] at h ⊢
    exact (canonical_unpack hxzero).le_mul_sub hcanonical h

/-- The distance of two doubles is no less than the last place of either. -/
theorem abs_le_mul_sub (hx : isFinite x = true) (hy : isFinite y = true) (h : value x < value y) :
    2 ^ (-1074 : ℤ) ≤ value y - value x ∧ |value y| ≤ 2 ^ (53 : ℤ) * (value y - value x) := by
  rcases le_or_gt (value y) 0 with hneg | hpos
  · obtain ⟨hleast, hle⟩ := le_mul_sub (x := -y) (y := -x) (by rw [(value_neg hy).2]; linarith)
      (by rw [(value_neg hx).2, (value_neg hy).2]; linarith)
    rw [(value_neg hx).2, (value_neg hy).2] at hleast hle
    rw [abs_of_nonpos hneg]
    constructor <;> linarith
  · rw [abs_of_pos hpos]
    rcases le_total 0 (value x) with hx0 | hx0
    · exact le_mul_sub hx0 h
    · obtain ⟨hleast, -⟩ :=
        le_mul_sub (x := 0.0) (y := y) within_zero.value_eq.ge (by rwa [within_zero.value_eq])
      rw [within_zero.value_eq, sub_zero] at hleast
      refine ⟨by linarith, ?_⟩
      norm_num
      linarith

/-- Rounding does not lose half of a number that is not below all doubles. -/
theorem lt_two_mul_nearest (h : 2 ^ (-1074 : ℤ) ≤ q) : q < 2 * nearest q := by
  have hq : 0 < q := (zpow_pos two_pos _).trans_le h
  have hlog : -1074 ≤ Int.log 2 q := (Int.zpow_le_iff_le_log (by norm_num) hq).mp (by exact_mod_cast h)
  have hlow := Int.zpow_log_le_self (b := 2) (by norm_num) hq
  have hhigh := Int.lt_zpow_succ_log_self (b := 2) (by norm_num) q
  push_cast at hlow hhigh
  rw [two_zpow_succ] at hhigh
  have hround := le_rounded hlog hlow
  rw [nearest_of_nonneg hq.le]
  linarith

/-- What an interval is wide, rounded, is not zero, -/
theorem sub_pos_of_lt (hlow : isFinite low = true) (hhigh : isFinite high = true)
    (h : value low < value high) (hwidth : isFinite (high - low) = true) : 0 < value (high - low) := by
  obtain ⟨hleast, -⟩ := abs_le_mul_sub hlow hhigh h
  have hhalf := lt_two_mul_nearest hleast
  rw [← (rounds_sub hhigh hlow).value_eq hwidth] at hhalf
  linarith [zpow_pos (two_pos : (0 : ℚ) < 2) (-1074)]

/-- and its upper end is not too many times that. -/
theorem isFinite_div_sub (hlow : isFinite low = true) (hhigh : isFinite high = true)
    (h : value low < value high) (hwidth : isFinite (high - low) = true) : isFinite (high / (high - low)) = true := by
  obtain ⟨hleast, habs⟩ := abs_le_mul_sub hlow hhigh h
  have hhalf := lt_two_mul_nearest hleast
  rw [← (rounds_sub hhigh hlow).value_eq hwidth] at hhalf
  have hpos := sub_pos_of_lt hlow hhigh h hwidth
  have hexact : Exact (2 ^ (54 : ℤ)) := exact_two_zpow (by norm_num) (by norm_num)
  have hquotient : |value high / value (high - low)| ≤ 2 ^ (54 : ℤ) := by
    rw [abs_div, abs_of_pos hpos, div_le_iff₀ hpos]
    norm_num at habs ⊢
    linarith
  exact ((rounds_div hhigh hwidth hpos.ne').mem hexact.neg hexact (abs_le.mp hquotient).1
    (abs_le.mp hquotient).2).1

/-- The difference of different numbers is not rounded to zero. -/
theorem value_sub_ne_zero (hx : isFinite x = true) (hy : isFinite y = true) (h : value x ≠ value y)
    (hfinite : isFinite (x - y) = true) : value (x - y) ≠ 0 := by
  rw [(rounds_sub hx hy).value_eq hfinite]
  have hpos : (0 : ℚ) < 2 ^ (-1074 : ℤ) := zpow_pos two_pos _
  rcases lt_or_gt_of_ne h with hlt | hlt
  · have hnearest := lt_two_mul_nearest (abs_le_mul_sub hx hy hlt).1
    rw [← neg_sub, nearest_neg, neg_ne_zero]
    linarith
  · have hnearest := lt_two_mul_nearest (abs_le_mul_sub hy hx hlt).1
    linarith

/-- A quotient of a number by a larger one is not rounded up to 1. -/
theorem value_div_lt_one (hx : isFinite x = true) (hy : isFinite y = true) (h0 : 0 ≤ value x)
    (h : value x < value y) : value (x / y) < 1 := by
  obtain ⟨-, hle⟩ := le_mul_sub h0 h
  have hpos : 0 < value y := h0.trans_lt h
  have hvalue : (1 - 2 ^ (-53 : ℤ) : ℚ) = ((2 ^ 53 - 1 : ℕ) : ℚ) * 2 ^ (-53 : ℤ) := by norm_num
  have hexact : Exact (1 - 2 ^ (-53 : ℤ)) :=
    hvalue ▸ exact_mul_zpow (by norm_num) (by norm_num) (by norm_num)
  have hquotient : value x / value y ≤ 1 - 2 ^ (-53 : ℤ) := by
    rw [div_le_iff₀ hpos]
    norm_num at hle ⊢
    linarith
  have hmem := (rounds_div hx hy hpos.ne').within exact_zero hexact (div_nonneg h0 hpos.le) hquotient
  exact hmem.ge.trans_lt (sub_lt_self 1 (zpow_pos two_pos _))

/-! ## Points in an interval -/

/-- Of two rounded numbers the smaller one is finite if the larger one is. -/
theorem Rounds.within_of_le (hx : Rounds p x) (hy : Rounds q y) (h0 : 0 ≤ p) (h : p ≤ q)
    (hfinite : isFinite y = true) : Within 0 (value y) x := by
  have hvalue := hy.value_eq hfinite
  have hlow : 0 ≤ nearest p := nearest_nonneg h0
  have hhigh : nearest p ≤ value y := hvalue ▸ nearest_mono h
  have hlarge : value y < tooLarge := lt_of_abs_lt (exact_value hfinite).lt_tooLarge
  rcases hx with ⟨hx, hv⟩ | ⟨hbig, -⟩ | ⟨hsmall, -⟩
  · exact ⟨hx, hv ▸ hlow, hv ▸ hhigh⟩
  · exact absurd (hbig.trans hhigh) (not_le.mpr hlarge)
  · exact absurd (hlow.trans hsmall) (not_le.mpr (neg_neg_of_pos (zpow_pos two_pos _)))

/-- A point in an interval whose width is not rounded to infinity. -/
structure Spanned (low x high : Float) : Prop where
  finite : isFinite x = true
  finite_low : isFinite low = true
  finite_high : isFinite high = true
  finite_width : isFinite (high - low) = true
  le : value low ≤ value x
  ge : value x ≤ value high

/-- A point between two bounds is no farther from the lower one than the upper bound is. -/
theorem Spanned.distance (h : Spanned low x high) : Within 0 (value (high - low)) (x - low) :=
  (rounds_sub h.finite h.finite_low).within_of_le (rounds_sub h.finite_high h.finite_low)
    (sub_nonneg.mpr h.le) (sub_le_sub_right h.ge _) h.finite_width

theorem Spanned.width_nonneg (h : Spanned low x high) : 0 ≤ value (high - low) := by
  rw [(rounds_sub h.finite_high h.finite_low).value_eq h.finite_width]
  exact nearest_nonneg (sub_nonneg.mpr (h.le.trans h.ge))

/-- An infinite bound around a finite point makes the width infinite. -/
theorem spanned_of_le (hx : isFinite x = true) (hlow : low ≤ x) (hhigh : x ≤ high)
    (h : isInfinite (high - low) = false) : Spanned low x high := by
  have hinfinite : ∀ {s}, ¬ (high + -low).toModel.unpack = .infinity s := by
    intro s hs
    rw [sub_eq, isInfinite_of_infinity hs] at h
    cases h
  have hlow' : isFinite low = true ∨ (-low).toModel.unpack = .infinity .positive := by
    by_cases hf : isFinite low = true
    · exact Or.inl hf
    · obtain ⟨s, hs⟩ := infinity_of_not_isFinite (not_isNaN_of_le hlow).1 hf
      cases s
      · exact Or.inr (neg_infinity hs)
      · rw [le_iff_not_lt (isNaN_of_infinity hs) (not_isNaN_of_isFinite hx)] at hlow
        exact absurd (lt_infinity hx hs) hlow
  rcases (finite_le_iff hx).mp hhigh with ⟨hfinite, hge⟩ | hinf <;> rcases hlow' with hl | hl
  · have hwidth := isFinite_of_not_isInfinite (rounds_sub hfinite hl).not_isNaN h
    exact ⟨hx, hl, hfinite, hwidth, (le_iff_value hl hx).mp hlow, hge⟩
  · exact absurd (add_infinity hfinite hl) hinfinite
  · exact absurd (infinity_add hinf (value_neg hl).1) hinfinite
  · exact absurd (infinity_add_infinity hinf hl) hinfinite

/-! ## Quotients -/

theorem abs_nearest_sub_le_mul (h : |q| ≤ w) (hw : 2 ^ (-1022 : ℤ) ≤ w) :
    |nearest q - q| ≤ 2 ^ (-53 : ℤ) * w := by
  have hpos : 0 < w := (zpow_pos two_pos _).trans_le hw
  rw [← abs_nearest_sub_abs]
  have h0 := abs_nonneg q
  generalize |q| = q at h h0 ⊢
  rw [nearest_of_nonneg h0]
  rcases h0.lt_or_eq with hq | rfl
  · refine (abs_rounded_sub_le h0).trans ?_
    have hlog : (2 : ℚ) ^ Int.log 2 q ≤ q := by exact_mod_cast Int.zpow_log_le_self (b := 2) (by norm_num) hq
    have hquantum : quantum q - 1 = -53 + Int.log 2 q ∨ quantum q - 1 = -53 + -1022 := by
      unfold quantum
      omega
    rcases hquantum with hk | hk <;> rw [hk, zpow_add₀ (by norm_num)] <;>
      exact mul_le_mul_of_nonneg_left (by linarith) (zpow_pos two_pos _).le
  · rw [rounded_zero, sub_zero, abs_zero]
    exact mul_nonneg (zpow_pos two_pos _).le hpos.le

/-- A share of a width, divided by the width. -/
theorem nearest_quotient_mem (hd : 0 ≤ d) (hdw : d ≤ w) (hw : Exact w) (hpos : 0 < w) (hr0 : 0 ≤ r)
    (hr : r ≤ 1) : 0 ≤ nearest (d * r) ∧ nearest (d * r) ≤ w ∧
      0 ≤ nearest (nearest (d * r) / w) ∧ nearest (nearest (d * r) / w) ≤ 1 := by
  have hproduct : d * r ≤ w := (mul_le_of_le_one_right hd hr).trans hdw
  have hlow : 0 ≤ nearest (d * r) := nearest_nonneg (mul_nonneg hd hr0)
  have hhigh : nearest (d * r) ≤ w := hw.nearest_eq ▸ nearest_mono hproduct
  refine ⟨hlow, hhigh, ?_, ?_⟩
  · exact nearest_nonneg (div_nonneg hlow hpos.le)
  · exact exact_one.nearest_eq ▸ nearest_mono ((div_le_one hpos).mpr hhigh)

/-- It is hardly more than the share, unless the width is subnormal. -/
theorem nearest_quotient_le (hd : 0 ≤ d) (hdw : d ≤ w) (hw : 2 ^ (-1022 : ℤ) ≤ w) (hr0 : 0 ≤ r)
    (hr : r ≤ 1) : nearest (nearest (d * r) / w) ≤ r + 3 * 2 ^ (-54 : ℤ) := by
  have hpos : 0 < w := (zpow_pos two_pos _).trans_le hw
  have hproduct : |d * r| ≤ w :=
    (abs_of_nonneg (mul_nonneg hd hr0)).trans_le ((mul_le_of_le_one_right hd hr).trans hdw)
  have herror := (abs_le.mp (abs_nearest_sub_le_mul hproduct hw)).2
  have hquotient : nearest (d * r) / w ≤ r + 2 ^ (-53 : ℤ) := by
    rw [div_le_iff₀ hpos, add_mul]
    linarith [mul_le_mul_of_nonneg_right hdw hr0, mul_comm r w]
  refine (nearest_mono hquotient).trans ?_
  rcases lt_or_ge (r + 2 ^ (-53 : ℤ)) 1 with hlt | hge
  · have := (abs_le.mp (abs_nearest_sub_le (k := 0) (q := r + 2 ^ (-53 : ℤ)) (by norm_num) (by positivity)
      (by rw [zpow_zero]; exact hlt))).2
    norm_num at this ⊢
    linarith
  · have := nearest_le_one (add_le_add_left hr (2 ^ (-53 : ℤ)))
    norm_num at this hge ⊢
    linarith

/-- A share with a sign, as computed. -/
theorem value_mul_div {d g w : Float} (hw : isFinite w = true) (hd : Within 0 (value w) d) (hpos : 0 < value w)
    (hg : Within (-1) 1 g) : isFinite (d * g / w) = true ∧
      (0 ≤ value g → value (d * g / w) = nearest (nearest (value d * value g) / value w)) ∧
      (value g ≤ 0 → value (d * g / w) = -nearest (nearest (value d * -value g) / value w)) := by
  have hproduct : Within (-(value w * 1)) (value w * 1) (d * g) :=
    (hd.mono (neg_nonpos.mpr hpos.le) le_rfl).mul_abs hg (by rw [mul_one]; exact exact_value hw)
  rw [mul_one] at hproduct
  have hvalue := (rounds_mul hd.finite hg.finite).value_eq hproduct.finite
  have hbounds : -1 ≤ value (d * g) / value w ∧ value (d * g) / value w ≤ 1 := by
    rw [le_div_iff₀ hpos, div_le_one hpos, neg_one_mul]
    exact ⟨hproduct.le, hproduct.ge⟩
  have hround := rounds_div hproduct.finite hw hpos.ne'
  have hfinite := (hround.mem exact_one.neg exact_one hbounds.1 hbounds.2).1
  refine ⟨hfinite, fun _ => ?_, fun _ => ?_⟩
  · rw [hround.value_eq hfinite, hvalue]
  · rw [hround.value_eq hfinite, hvalue, mul_neg, nearest_neg, neg_div, nearest_neg, neg_neg]

end FuzzyInference.Double

import FuzzyInference.Proofs.Double.Spacing

/-!
# How far sample points are from the lower bound

The width is divided by the number of steps and the quotient multiplied by the index, and every result is
rounded. Over up to ten million steps the errors add up to less than a step, so a point that is not the last
one does not come out above the upper bound. Among the smallest doubles errors are not small compared with the
step: there it takes that the number of steps belongs to a resolution which is itself a double.

## Contents
- `Divided`: a width and its number of steps. `stride`, `offset`: the step and the distances as computed.
- `mul_le_add_of_rounded`: the smallest doubles, in whole numbers.
- `Close`: relative errors that are small against a step. `Divided.close_of_large`, `Divided.close_of_normal`.
- `Divided.stride_mul_le`: distances are not larger than the width.
- `Divided.offset_mono`, `Divided.offset_mem`: they are in order.
- `Divided.lt_offset_sub`: they are further apart than a unit if the width is a little more than its multiple.
  `Divided.eq_of_tight`: otherwise nothing is rounded.
-/

namespace FuzzyInference.Grid

open Double

/-- A width `d`, rounded to `w`, that takes `n` steps at a resolution `r`. -/
structure Divided (d w r : ℚ) (n : ℕ) : Prop where
  width : ∃ k : ℕ, 0 < k ∧ d = k * 2 ^ (-1074 : ℤ)
  resolution : ∃ k : ℕ, 0 < k ∧ r = k * 2 ^ (-1074 : ℤ)
  rounded : w = nearest d
  exact : Exact w
  pos : 0 < n
  le : n ≤ 10 ^ 7
  lt : w / r < n + 1
  ge : n = 1 ∨ n * (1 - 3 / 10 ^ 9) ≤ w / r

/-- The step as computed. -/
def stride (w : ℚ) (n : ℕ) : ℚ := nearest (w / n)

/-- The distance of a sample point from the lower bound as computed. -/
def offset (d w : ℚ) (n i : ℕ) : ℚ := if i = n then d else nearest (stride w n * i)

variable {d w r : ℚ} {n i j : ℕ}

/-! ## The smallest doubles -/

/-- A width of `k` is divided by `n`, and `s` is the whole number next to the quotient. The resolution `r` is
whole as well, which leaves no room for `s` to be so far above the quotient that the errors add up to `s`. -/
theorem mul_le_add_of_rounded {k r s n : ℕ} (hn : n ≤ 10 ^ 7) (hround : 2 * (s * n) ≤ 2 * k + n)
    (hround' : 2 * k ≤ 2 * (s * n) + n) (hlt : k < r * (n + 1)) (hge : (n : ℚ) * r * (1 - 3 / 10 ^ 9) ≤ k) :
    s * n ≤ k + s := by
  by_contra hlarge
  have hs : 2 * s + 2 ≤ n := by omega
  have hk : (k : ℚ) + s + 1 ≤ s * n := by exact_mod_cast not_le.mp hlarge
  have hs' : (2 : ℚ) * s + 2 ≤ n := by exact_mod_cast hs
  have hn' : (n : ℚ) ≤ 10 ^ 7 := by exact_mod_cast hn
  have hs0 : (0 : ℚ) ≤ s := Nat.cast_nonneg s
  rcases lt_trichotomy r s with h | rfl | h
  · -- then the quotient is less than half a step above `s`
    have hr : (r + 1) * (n + 1) ≤ s * (n + 1) := Nat.mul_le_mul_right _ h
    rw [add_mul, one_mul, mul_add, mul_add, mul_one] at hr
    rw [mul_add, mul_one] at hlt
    omega
  · nlinarith
  · have hr : (s : ℚ) + 1 ≤ r := by exact_mod_cast h
    have hge' : (n : ℚ) * (s + 1) * (1 - 3 / 10 ^ 9) ≤ k := by
      refine le_trans ?_ hge
      exact mul_le_mul_of_nonneg_right (mul_le_mul_of_nonneg_left hr (Nat.cast_nonneg n)) (by norm_num)
    nlinarith

theorem exact_smallest {k : ℕ} (h : k ≤ 2 ^ 53) : Exact (k * 2 ^ (-1074 : ℤ)) := by
  rcases h.lt_or_eq with hlt | rfl
  · exact exact_mul_zpow hlt le_rfl (by norm_num)
  · rw [Nat.cast_pow, Nat.cast_ofNat]
    exact exact_two_pow_mul_smallest

/-- A quotient of the smallest doubles in whole numbers. -/
theorem exists_quotient_eq {k n : ℕ} (hk : k ≤ 2 ^ 53) (hn : 0 < n) :
    ∃ s : ℕ, nearest (k * 2 ^ (-1074 : ℤ) / n) = s * 2 ^ (-1074 : ℤ) ∧ 2 * (s * n) ≤ 2 * k + n ∧
      2 * k ≤ 2 * (s * n) + n := by
  have hu : (0 : ℚ) < 2 ^ (-1074 : ℤ) := zpow_pos two_pos _
  have hn' : (0 : ℚ) < n := Nat.cast_pos.mpr hn
  have hnonneg : 0 ≤ (k : ℚ) * 2 ^ (-1074 : ℤ) := mul_nonneg (Nat.cast_nonneg k) hu.le
  have hle : (k : ℚ) * 2 ^ (-1074 : ℤ) / n ≤ 2 ^ 53 * 2 ^ (-1074 : ℤ) :=
    (div_le_self hnonneg (by exact_mod_cast hn)).trans
      (mul_le_mul_of_nonneg_right (by exact_mod_cast hk) hu.le)
  obtain ⟨s, hs⟩ := exists_nearest_eq (div_nonneg hnonneg hn'.le)
  have hround := abs_nearest_sub_le_smallest (div_nonneg hnonneg hn'.le) hle
  have herror : (s * 2 ^ (-1074 : ℤ) - k * 2 ^ (-1074 : ℤ) / n : ℚ) = (s * n - k) / n * 2 ^ (-1074 : ℤ) := by
    field_simp
  -- half a unit of rounding, cleared of fractions
  have hhalf : |(s * n - k : ℚ)| ≤ n / 2 := by
    rw [hs, herror, abs_mul, abs_of_pos hu, abs_div, abs_of_pos hn', div_mul_eq_mul_div,
      div_le_div_iff₀ hn' two_pos] at hround
    have := le_of_mul_le_mul_right (a := (2 : ℚ) ^ (-1074 : ℤ)) (b := |(s * n - k : ℚ)| * 2) (c := n)
      (by linarith) hu
    linarith
  obtain ⟨hlow, hhigh⟩ := abs_le.mp hhalf
  refine ⟨s, hs, ?_, ?_⟩
  · have hq : (2 : ℚ) * (s * n) ≤ 2 * k + n := by linarith
    exact_mod_cast hq
  · have hq : (2 : ℚ) * k ≤ 2 * (s * n) + n := by linarith
    exact_mod_cast hq

theorem Divided.width_pos (h : Divided d w r n) : 0 < d := by
  obtain ⟨k, hk, rfl⟩ := h.width
  exact mul_pos (Nat.cast_pos.mpr hk) (zpow_pos two_pos _)

theorem Divided.nonneg (h : Divided d w r n) : 0 ≤ w := by
  rw [h.rounded]
  exact nearest_nonneg h.width_pos.le

theorem Divided.cast_pos (h : Divided d w r n) : (0 : ℚ) < n := Nat.cast_pos.mpr h.pos

theorem Divided.stride_nonneg (h : Divided d w r n) : 0 ≤ stride w n :=
  nearest_nonneg (div_nonneg h.nonneg h.cast_pos.le)

/-- Widths among the smallest doubles are not rounded, and the errors of the step do not add up to it. -/
theorem Divided.stride_mul_le_of_small (h : Divided d w r n) (hsmall : d ≤ 2 ^ 53 * 2 ^ (-1074 : ℤ))
    (hi : i < n) : w = d ∧ stride w n * i ≤ d := by
  obtain ⟨k, hk, hd⟩ := h.width
  obtain ⟨ρ, hρ, hr⟩ := h.resolution
  have hu : (0 : ℚ) < 2 ^ (-1074 : ℤ) := zpow_pos two_pos _
  have hbits : k ≤ 2 ^ 53 := by
    rw [hd] at hsmall
    exact_mod_cast le_of_mul_le_mul_right hsmall hu
  have hw : w = d := by rw [h.rounded, hd, (exact_smallest hbits).nearest_eq]
  obtain ⟨s, hs, hround, hround'⟩ := exists_quotient_eq hbits h.pos
  rw [hw, stride, hd, hs]
  refine ⟨rfl, ?_⟩
  rcases Nat.eq_zero_or_pos i with rfl | hpos
  · rw [Nat.cast_zero, mul_zero]
    exact mul_nonneg (Nat.cast_nonneg k) hu.le
  have hratio : w / r = k / ρ := by rw [hw, hd, hr, mul_div_mul_right _ _ hu.ne']
  have hρ' : (0 : ℚ) < ρ := Nat.cast_pos.mpr hρ
  -- all in units of the smallest double, so these are inequalities of natural numbers
  have hbound : s * n ≤ k + s := by
    refine mul_le_add_of_rounded (r := ρ) h.le hround hround' ?_ ?_
    · have hlt := h.lt
      rw [hratio, div_lt_iff₀ hρ'] at hlt
      have hq : (k : ℚ) < ρ * (n + 1) := by linarith
      exact_mod_cast hq
    · have hge := h.ge.resolve_left (by omega)
      rw [hratio, le_div_iff₀ hρ'] at hge
      linarith
  have hlast : s * i ≤ k := by
    have hnext : s * (i + 1) ≤ s * n := Nat.mul_le_mul_left s hi
    rw [mul_add, mul_one] at hnext
    omega
  rw [mul_right_comm]
  exact mul_le_mul_of_nonneg_right (by exact_mod_cast hlast) hu.le

/-! ## Relative errors -/

/-- The step, its multiples and the width are rounded by less than a share, which is small against a step. -/
structure Close (ε d w : ℚ) (n : ℕ) : Prop where
  stride_close : |stride w n - w / n| ≤ ε * (w / n)
  product_close (k : ℕ) : |nearest (stride w n * k) - stride w n * k| ≤ ε * (stride w n * k)
  width_close : w * (1 - ε) ≤ d
  nonneg : 0 ≤ ε
  small : n * ε ≤ 1 / 16

/-- Enough of the last place is left for each step when the width is normal. -/
theorem Divided.close (h : Divided d w r n) (hx : 2 * 2 ^ (-1022 - j : ℤ) ≤ w / n) (hd : 2 ^ (-1022 - j : ℤ) ≤ d)
    (hsmall : n * 2 ^ (j - 53 : ℤ) ≤ (1 / 16 : ℚ)) : Close (2 ^ (j - 53 : ℤ)) d w n := by
  have hpos : (0 : ℚ) < 2 ^ (-1022 - j : ℤ) := zpow_pos two_pos _
  have hε : (0 : ℚ) < 2 ^ (j - 53 : ℤ) := zpow_pos two_pos _
  have hone : (1 : ℚ) ≤ n := by exact_mod_cast h.pos
  have hhalf : (2 : ℚ) ^ (j - 53 : ℤ) ≤ 1 / 16 := (le_mul_of_one_le_left hε.le hone).trans hsmall
  have hstride := abs_nearest_sub_le_share (j := j) (q := w / n) (by linarith)
  have hwidth := (abs_le.mp (abs_nearest_sub_le_share hd)).2
  rw [← h.rounded] at hwidth
  refine ⟨hstride, ?_, ?_, hε.le, hsmall⟩
  · intro k
    rcases Nat.eq_zero_or_pos k with rfl | hk
    · rw [Nat.cast_zero, mul_zero, exact_zero.nearest_eq, sub_zero, abs_zero, mul_zero]
    · -- half of the exact step is left, so products are not too small either
      have hk : (1 : ℚ) ≤ k := by exact_mod_cast hk
      have hleft : 2 ^ (-1022 - j : ℤ) ≤ stride w n := by
        have hlow := (abs_le.mp hstride).1
        unfold stride
        nlinarith
      exact abs_nearest_sub_le_share (hleft.trans (le_mul_of_one_le_right (hpos.le.trans hleft) hk))
  · have hproduct := mul_le_mul_of_nonneg_right (sub_le_iff_le_add'.mp hwidth) (sub_nonneg.mpr (by linarith :
      (2 : ℚ) ^ (j - 53 : ℤ) ≤ 1))
    have hsquare := mul_nonneg h.width_pos.le (mul_nonneg hε.le hε.le)
    linarith

theorem cast_le_sub_one (hi : i < n) : (i : ℚ) ≤ n - 1 := by
  have hle : ((i + 1 : ℕ) : ℚ) ≤ n := Nat.cast_le.mpr hi
  push_cast at hle
  linarith

theorem Divided.div_mul_cancel (h : Divided d w r n) : w / n * n = w := div_mul_cancel₀ w h.cast_pos.ne'

/-- The multiples of the step before the last one, with all their errors. -/
theorem Close.mul_le {ε : ℚ} (hc : Close ε d w n) (h : Divided d w r n) (hi : i < n) :
    stride w n * i ≤ w / n * (1 + ε) * (n - 1) ∧
      nearest (stride w n * i) ≤ w / n * (1 + ε) * (n - 1) * (1 + ε) := by
  have hx : 0 ≤ w / n := div_nonneg h.nonneg h.cast_pos.le
  have hlow := (abs_le.mp hc.stride_close).2
  have hround := (abs_le.mp (hc.product_close i)).2
  have hε := hc.nonneg
  have hproduct : stride w n * i ≤ w / n * (1 + ε) * (n - 1) :=
    mul_le_mul (by linarith) (cast_le_sub_one hi) (Nat.cast_nonneg i) (mul_nonneg hx (by linarith))
  refine ⟨hproduct, ?_⟩
  calc nearest (stride w n * i) ≤ stride w n * i * (1 + ε) := by linarith
    _ ≤ w / n * (1 + ε) * (n - 1) * (1 + ε) := mul_le_mul_of_nonneg_right hproduct (by linarith)

/-- What the errors leave of a step at the end. -/
theorem Close.le_sub {ε : ℚ} (hc : Close ε d w n) (h : Divided d w r n) :
    w / n * (1 - 4 * n * ε) ≤ d - w / n * (1 + ε) * (n - 1) * (1 + ε) := by
  have hx : 0 ≤ w / n := div_nonneg h.nonneg h.cast_pos.le
  have hn : (1 : ℚ) ≤ n := by exact_mod_cast h.pos
  have hwidth := hc.width_close
  have hε := hc.nonneg
  have hsmall := hc.small
  rw [← h.div_mul_cancel] at hwidth
  have hfactor : 1 - 4 * n * ε ≤ n * (1 - ε) - (1 + ε) * (n - 1) * (1 + ε) := by nlinarith
  have hmul := mul_le_mul_of_nonneg_left hfactor hx
  linarith

/-- Strides close to the exact ones do not overshoot the width. -/
theorem Close.stride_mul_le {ε : ℚ} (hc : Close ε d w n) (h : Divided d w r n) (hi : i < n) :
    stride w n * i ≤ w ∧ nearest (stride w n * i) ≤ d := by
  have hx : 0 ≤ w / n := div_nonneg h.nonneg h.cast_pos.le
  have hsmall := hc.small
  obtain ⟨hproduct, hround⟩ := hc.mul_le h hi
  have hleft := hc.le_sub h
  have hrest : 0 ≤ w / n * (1 - 4 * n * ε) := mul_nonneg hx (by linarith)
  refine ⟨hproduct.trans ?_, by linarith⟩
  have hfactor : (1 + ε) * (n - 1) ≤ n := by linarith [hc.nonneg]
  calc w / n * (1 + ε) * (n - 1) = w / n * ((1 + ε) * (n - 1)) := mul_assoc _ _ _
    _ ≤ w / n * n := mul_le_mul_of_nonneg_left hfactor hx
    _ = w := h.div_mul_cancel

theorem Divided.cast_le (h : Divided d w r n) : (n : ℚ) ≤ 10 ^ 7 := by exact_mod_cast h.le

/-- Above the smallest doubles errors are small enough. -/
theorem Divided.close_of_large (h : Divided d w r n) (hlarge : 2 ^ 53 * 2 ^ (-1074 : ℤ) < d) :
    Close (2 ^ ((24 : ℕ) - 53 : ℤ)) d w n := by
  have hsplit : (2 ^ 53 * 2 ^ (-1074 : ℤ) : ℚ) = 2 ^ 24 * (2 * 2 ^ (-1022 - (24 : ℕ) : ℤ)) := by
    rw [← zpow_natCast, ← zpow_natCast, ← zpow_one_add₀ two_ne_zero, ← zpow_add₀ two_ne_zero,
      ← zpow_add₀ two_ne_zero]
    norm_num
  have hwidth : (2 : ℚ) ^ 53 * 2 ^ (-1074 : ℤ) ≤ w := by
    rw [h.rounded, ← exact_two_pow_mul_smallest.nearest_eq]
    exact nearest_mono hlarge.le
  have hn := h.cast_le
  have hpos : (0 : ℚ) < 2 ^ (-1022 - (24 : ℕ) : ℤ) := zpow_pos two_pos _
  rw [hsplit] at hwidth hlarge
  refine h.close ?_ (by linarith) ?_
  · rw [le_div_iff₀ h.cast_pos]
    refine le_trans ?_ hwidth
    rw [mul_comm]
    exact mul_le_mul_of_nonneg_right (hn.trans (by norm_num)) (by linarith)
  · have hε : (2 : ℚ) ^ ((24 : ℕ) - 53 : ℤ) = 1 / 2 ^ 29 := by norm_num
    rw [hε]
    linarith

/-- No sample but the last reaches the end, whatever the width: small ones are divided exactly
enough, large ones leave room. -/
theorem Divided.stride_mul_le (h : Divided d w r n) (hi : i < n) :
    stride w n * i ≤ w ∧ nearest (stride w n * i) ≤ d := by
  rcases le_or_gt d (2 ^ 53 * 2 ^ (-1074 : ℤ)) with hsmall | hlarge
  · obtain ⟨hw, hle⟩ := h.stride_mul_le_of_small hsmall hi
    refine ⟨hle.trans hw.ge, (nearest_mono hle).trans ?_⟩
    rw [← h.rounded, hw]
  · exact (h.close_of_large hlarge).stride_mul_le h hi

/-! ## Distances -/

@[simp] theorem offset_last : offset d w n n = d := if_pos rfl

theorem offset_of_lt (hi : i < n) : offset d w n i = nearest (stride w n * i) := if_neg hi.ne

theorem Divided.offset_zero (h : Divided d w r n) : offset d w n 0 = 0 := by
  rw [offset_of_lt h.pos, Nat.cast_zero, mul_zero, exact_zero.nearest_eq]

/-- Offsets never decrease, the pinned last one included. -/
theorem Divided.offset_mono (h : Divided d w r n) (hij : i ≤ j) (hj : j ≤ n) :
    offset d w n i ≤ offset d w n j := by
  rcases hj.lt_or_eq with hj | rfl
  · rw [offset_of_lt hj, offset_of_lt (hij.trans_lt hj)]
    exact nearest_mono (mul_le_mul_of_nonneg_left (Nat.cast_le.mpr hij) h.stride_nonneg)
  · rcases hij.lt_or_eq with hi | rfl
    · rw [offset_of_lt hi, offset_last]
      exact (h.stride_mul_le hi).2
    · exact le_rfl

/-- They stay between 0 and the width. -/
theorem Divided.offset_mem (h : Divided d w r n) (hi : i ≤ n) : 0 ≤ offset d w n i ∧ offset d w n i ≤ d := by
  have hlow := h.offset_mono (Nat.zero_le i) hi
  have hhigh := h.offset_mono hi le_rfl
  rw [h.offset_zero] at hlow
  rw [offset_last] at hhigh
  exact ⟨hlow, hhigh⟩

/-! ## Distances of neighbors -/

/-- Rounding up does not cross a power of two by a factor. -/
theorem two_zpow_le_of_nearest {q : ℚ} {e : ℤ} (he : -1074 ≤ e) (he' : e ≤ 971) (h : 2 ^ (e + 1) ≤ nearest q) :
    2 ^ e ≤ q := by
  by_contra hlt
  have hle := nearest_mono (not_le.mp hlt).le
  rw [(exact_two_zpow he he').nearest_eq] at hle
  rw [two_zpow_succ] at h
  linarith [zpow_pos (two_pos : (0 : ℚ) < 2) e]

/-- Where the step is a normal double, errors are as small as they get. -/
theorem Divided.close_of_normal (h : Divided d w r n) (hs : 2 ^ (-1022 : ℤ) ≤ stride w n) :
    2 ^ (-1023 : ℤ) ≤ w / n ∧ Close (2 ^ ((2 : ℕ) - 53 : ℤ)) d w n := by
  have hx : (2 : ℚ) ^ (-1023 : ℤ) ≤ w / n := two_zpow_le_of_nearest (by norm_num) (by norm_num) hs
  have hle : stride w n ≤ w := by
    have hdiv : w / n ≤ w := div_le_self h.nonneg (by exact_mod_cast h.pos)
    exact (nearest_mono hdiv).trans h.exact.nearest_eq.le
  have hd : (2 : ℚ) ^ (-1023 : ℤ) ≤ d := by
    refine two_zpow_le_of_nearest (by norm_num) (by norm_num) ?_
    rw [← h.rounded]
    exact hs.trans hle
  have htwice : (2 : ℚ) * 2 ^ (-1022 - (2 : ℕ) : ℤ) = 2 ^ (-1023 : ℤ) := by
    rw [← zpow_one_add₀ two_ne_zero]
    norm_num
  refine ⟨hx, h.close (htwice.trans_le hx) ((zpow_le_zpow_right₀ one_le_two (by norm_num)).trans hd) ?_⟩
  have hn := h.cast_le
  have hε : (2 : ℚ) ^ ((2 : ℕ) - 53 : ℤ) = 1 / 2 ^ 51 := by norm_num
  rw [hε]
  linarith

/-- Two multiples of the step, with the errors of both. -/
theorem Close.le_nearest_sub {ε : ℚ} (hc : Close ε d w n) (h : Divided d w r n) (hi : i < n) :
    stride w n * (1 - 2 * n * ε) ≤ nearest (stride w n * (i + 1 : ℕ)) - nearest (stride w n * i) := by
  have hhigh := (abs_le.mp (hc.product_close i)).2
  have hlow := (abs_le.mp (hc.product_close (i + 1))).1
  have hindex := cast_le_sub_one hi
  have hcount : stride w n * ε * (2 * i + 1) ≤ stride w n * ε * (2 * n) :=
    mul_le_mul_of_nonneg_left (by linarith) (mul_nonneg h.stride_nonneg hc.nonneg)
  push_cast at hlow ⊢
  linarith

/-- Neighbouring offsets differ by almost a full stride. -/
theorem Close.le_offset_sub {ε : ℚ} (hc : Close ε d w n) (h : Divided d w r n) (hi : i < n) :
    w / n * (1 - 4 * n * ε) ≤ offset d w n (i + 1) - offset d w n i := by
  rw [offset_of_lt hi]
  have hcases : i + 1 < n ∨ i + 1 = n := by omega
  -- the last step ends at the pinned width and is estimated on its own
  rcases hcases with hnext | hlast
  · rw [offset_of_lt hnext]
    refine le_trans ?_ (hc.le_nearest_sub h hi)
    have hx : 0 ≤ w / n := div_nonneg h.nonneg h.cast_pos.le
    have hs := (abs_le.mp hc.stride_close).1
    have hn : (1 : ℚ) ≤ n := by exact_mod_cast h.pos
    have hε := hc.nonneg
    have hsmall := hc.small
    have hfactor : 0 ≤ 1 - 2 * n * ε := by linarith
    have hfactor' : 1 - 4 * n * ε ≤ (1 - ε) * (1 - 2 * n * ε) := by
      have hshare : ε ≤ n * ε := le_mul_of_one_le_left hε hn
      have hsquare : 0 ≤ n * ε * ε := mul_nonneg (mul_nonneg h.cast_pos.le hε) hε
      linarith
    calc w / n * (1 - 4 * n * ε) ≤ w / n * ((1 - ε) * (1 - 2 * n * ε)) := mul_le_mul_of_nonneg_left hfactor' hx
      _ = w / n * (1 - ε) * (1 - 2 * n * ε) := (mul_assoc _ _ _).symm
      _ ≤ stride w n * (1 - 2 * n * ε) := mul_le_mul_of_nonneg_right (by linarith) hfactor
  · rw [hlast, offset_last]
    have hhigh := (hc.mul_le h hi).2
    have hleft := hc.le_sub h
    linarith

/-- Half a unit more than a unit for each step is enough for all of the errors. -/
theorem Divided.lt_offset_sub {u : ℚ} (h : Divided d w r n) (hs : 2 ^ (-1022 : ℤ) ≤ stride w n) (hu : 0 < u)
    (hwide : u * (n + 1 / 2) ≤ w) (hi : i < n) : u < offset d w n (i + 1) - offset d w n i := by
  obtain ⟨-, hc⟩ := h.close_of_normal hs
  refine lt_of_lt_of_le ?_ (hc.le_offset_sub h hi)
  have hε : (2 : ℚ) ^ ((2 : ℕ) - 53 : ℤ) = 1 / 2 ^ 51 := by norm_num
  have hn := h.cast_le
  have hpos := h.cast_pos
  rw [hε]
  rw [← h.div_mul_cancel] at hwide
  generalize w / n = x at hwide
  have hsquare : (n : ℚ) * n ≤ 10 ^ 14 := by nlinarith
  have hfactor : 0 ≤ 1 - 4 * (n : ℚ) * (1 / 2 ^ 51) := by linarith
  have hshare : (n : ℚ) < (n + 1 / 2) * (1 - 4 * n * (1 / 2 ^ 51)) := by linarith
  have hscaled : u * n < x * (1 - 4 * n * (1 / 2 ^ 51)) * n :=
    calc u * n < u * ((n + 1 / 2) * (1 - 4 * n * (1 / 2 ^ 51))) := mul_lt_mul_of_pos_left hshare hu
      _ = u * (n + 1 / 2) * (1 - 4 * n * (1 / 2 ^ 51)) := (mul_assoc _ _ _).symm
      _ ≤ x * n * (1 - 4 * n * (1 / 2 ^ 51)) := mul_le_mul_of_nonneg_right hwide hfactor
      _ = x * (1 - 4 * n * (1 / 2 ^ 51)) * n := by ring
  exact lt_of_mul_lt_mul_right hscaled hpos.le

/-- The multiples of half a unit that a width can be are not rounded. -/
theorem Divided.exact_mul_half {e k : ℤ} (h : Divided d w r n) (hs : 2 ^ (-1022 : ℤ) ≤ stride w n)
    (he : e ≤ 971) (htight : w < 2 ^ e * (n + 1 / 2)) (hk : |k| < 2 ^ 53) : Exact (k * (2 ^ e / 2)) := by
  obtain ⟨hx, -⟩ := h.close_of_normal hs
  have hone : (1 : ℚ) ≤ n := by exact_mod_cast h.pos
  have hlow : (2 : ℚ) ^ (-1023 : ℤ) < 2 ^ (e + 1) := by
    rw [two_zpow_succ]
    refine hx.trans_lt ((div_lt_iff₀ h.cast_pos).mpr (htight.trans_le ?_))
    rw [mul_comm (2 : ℚ), mul_assoc]
    exact mul_le_mul_of_nonneg_left (by linarith) (zpow_pos two_pos e).le
  have := (zpow_lt_zpow_iff_right₀ one_lt_two).mp hlow
  have hhalf : (2 : ℚ) ^ e / 2 = 2 ^ (e - 1) := (zpow_sub_one₀ two_ne_zero e).symm
  rw [hhalf]
  exact exact_intCast_mul_zpow hk (by omega) (by omega)

/-- Half a unit more for all steps together would show in the width as rounded. -/
theorem Divided.le_of_tight {e m : ℤ} (h : Divided d w r n) (hs : 2 ^ (-1022 : ℤ) ≤ stride w n)
    (he : e ≤ 971) (htight : w < 2 ^ e * (n + 1 / 2)) (hd : d = m * (2 ^ e / 2)) : m ≤ 2 * n := by
  by_contra hlarge
  have hbits := h.le
  have hm : ((2 * n + 1 : ℤ) : ℚ) ≤ m := by exact_mod_cast not_le.mp hlarge
  have hexact := h.exact_mul_half (k := 2 * n + 1) hs he htight (by rw [abs_of_pos] <;> omega)
  have hle : ((2 * n + 1 : ℤ) : ℚ) * (2 ^ e / 2) ≤ w := by
    rw [h.rounded, ← hexact.nearest_eq, hd]
    exact nearest_mono (mul_le_mul_of_nonneg_right hm (half_pos (zpow_pos two_pos e)).le)
  push_cast at hle
  linarith

/-- Half a unit less would show in the step, unless the width is rounded. -/
theorem Divided.ge_of_tight {e m : ℤ} (h : Divided d w r n) (hs : 2 ^ (-1022 : ℤ) ≤ stride w n)
    (hu : 2 ^ e ≤ stride w n) (hw : w = d) (hd : d = m * (2 ^ e / 2)) : 2 * n ≤ m := by
  -- one half gap less would leave the steps shorter than a gap
  by_contra hsmall
  obtain ⟨-, hc⟩ := h.close_of_normal hs
  have hε : (2 : ℚ) ^ ((2 : ℕ) - 53 : ℤ) = 1 / 2 ^ 51 := by norm_num
  have hclose := (abs_le.mp hc.stride_close).2
  rw [hε] at hclose
  have hm : (m : ℚ) ≤ 2 * n - 1 := by
    have : ((m + 1 : ℤ) : ℚ) ≤ (2 * n : ℤ) := Int.cast_le.mpr (not_le.mp hsmall)
    push_cast at this
    linarith
  have hscaled : 2 ^ e * n ≤ w * (1 + 1 / 2 ^ 51) := by
    have hstep : (2 : ℚ) ^ e ≤ w / n * (1 + 1 / 2 ^ 51) := by linarith
    have := mul_le_mul_of_nonneg_right hstep h.cast_pos.le
    rw [← h.div_mul_cancel]
    linarith
  rw [hw, hd] at hscaled
  have hle : (2 * n : ℚ) ≤ m * (1 + 1 / 2 ^ 51) := by
    refine le_of_mul_le_mul_right ?_ (half_pos (zpow_pos two_pos e))
    linarith
  have := h.cast_le
  linarith

/-- With less than that, a width that is a multiple of half the unit is one of the unit, and nothing is
rounded. -/
theorem Divided.eq_of_tight {e : ℤ} {m : ℤ} (h : Divided d w r n) (hs : 2 ^ (-1022 : ℤ) ≤ stride w n)
    (he : e ≤ 971) (hu : 2 ^ e ≤ stride w n) (htight : w < 2 ^ e * (n + 1 / 2)) (hd : d = m * (2 ^ e / 2)) :
    d = n * 2 ^ e ∧ stride w n = 2 ^ e := by
  have hhalf : (0 : ℚ) < 2 ^ e / 2 := half_pos (zpow_pos two_pos e)
  have hupper := h.le_of_tight hs he htight hd
  have hw : w = d := by
    have hm : 0 < m := by
      have hpos := h.width_pos
      rw [hd] at hpos
      exact_mod_cast pos_of_mul_pos_left hpos hhalf.le
    have hbits := h.le
    rw [h.rounded, hd, (h.exact_mul_half hs he htight (by rw [abs_of_pos hm]; omega)).nearest_eq]
  have hm : (m : ℚ) = 2 * n := by exact_mod_cast le_antisymm hupper (h.ge_of_tight hs hu hw hd)
  have hwidth : d = n * 2 ^ e := by
    rw [hd, hm]
    ring
  have hunit := h.exact_mul_half (k := 2) hs he htight (by norm_num)
  rw [Int.cast_ofNat, mul_div_cancel₀ _ two_ne_zero] at hunit
  refine ⟨hwidth, ?_⟩
  rw [stride, hw, hwidth, mul_div_cancel_left₀ _ h.cast_pos.ne', hunit.nearest_eq]

/-! ## Steps that are not smaller than a unit -/

/-- A width of some units for each step makes the step no smaller. -/
theorem Divided.two_zpow_le_stride {e : ℤ} (h : Divided d w r n) (he : -1074 ≤ e) (he' : e ≤ 971)
    (hd : n * 2 ^ e ≤ d) : 2 ^ e ≤ stride w n := by
  have hbits := h.le
  have hexact : Exact (n * 2 ^ e) := exact_mul_zpow (by omega) he he'
  have hle : n * 2 ^ e ≤ w := by
    rw [h.rounded, ← hexact.nearest_eq]
    exact nearest_mono hd
  have hx : 2 ^ e ≤ w / n := by
    rw [le_div_iff₀ h.cast_pos, mul_comm]
    exact hle
  rw [← (exact_two_zpow he he').nearest_eq]
  exact nearest_mono hx

/-- The width is the smallest double for each step at least, since the resolution is. -/
theorem Divided.mul_smallest_le (h : Divided d w r n) : n * 2 ^ (-1074 : ℤ) ≤ d := by
  have hu : (0 : ℚ) < 2 ^ (-1074 : ℤ) := zpow_pos two_pos _
  -- a narrow domain is counted in units; a wide one has more of them than any step count
  rcases le_or_gt d (2 ^ 53 * 2 ^ (-1074 : ℤ)) with hsmall | hlarge
  · obtain ⟨k, hk, hd⟩ := h.width
    obtain ⟨ρ, hρ, hr⟩ := h.resolution
    have hw := (h.stride_mul_le_of_small hsmall h.pos).1
    have hle : n ≤ k := by
      rcases h.ge with hone | hge
      · omega
      · have hρ' : (1 : ℚ) ≤ ρ := by exact_mod_cast hρ
        have hn := h.cast_le
        have hpos := h.cast_pos
        rw [hw, hd, hr, mul_div_mul_right _ _ hu.ne', le_div_iff₀ (by linarith)] at hge
        have hless : (n : ℚ) < k + 1 := by
          have := le_mul_of_one_le_right (mul_nonneg hpos.le (by norm_num : (0 : ℚ) ≤ 1 - 3 / 10 ^ 9)) hρ'
          linarith
        exact Nat.lt_add_one_iff.mp (by exact_mod_cast hless)
    rw [hd]
    exact mul_le_mul_of_nonneg_right (by exact_mod_cast hle) hu.le
  · refine le_trans (mul_le_mul_of_nonneg_right ?_ hu.le) hlarge.le
    exact h.cast_le.trans (by norm_num)

end FuzzyInference.Grid

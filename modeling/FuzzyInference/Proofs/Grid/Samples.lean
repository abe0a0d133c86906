import FuzzyInference.Proofs.Grid.Limit
import FuzzyInference.Proofs.Grid.Offset

/-!
# Sample points in doubles

The sample points of an accepted domain are the doubles nearest to the lower bound and a computed distance, and
the upper bound itself. So they begin and end with the bounds, stay between them and do not descend. They
ascend where the step is not smaller than the spacing of doubles at both bounds, and not where it is smaller at
both; no test of a domain asks for that.

## Contents
- `Accepted.divided`: the width of an accepted domain and its number of steps.
- `sampleAt`, `Accepted.within_step`, `Accepted.within_sampleAt`: the step and the points as computed.
- `Accepted.sampleAt_zero`, `Accepted.sampleAt_last`, `Accepted.sampleAt_le`: their ends and their order.
- `Coarser`: the bound where doubles are further apart. `Accepted.lt_of_wide`, `Accepted.lt_of_tight`: what
  happens to neighbors, with and without room for the errors.
- `Accepted.sampleAt_lt`, `Accepted.gap_le_step`: when they ascend.
- `Accepted.mem_points`, `Accepted.pairwise_points`: all of them.
- `Domain.range_ordered`: the result.
-/

namespace FuzzyInference

open Scalar

namespace Grid

open Double

variable {low high res : Float} {i j : ℕ}

/-- The number of steps of an accepted domain. -/
def stepsOf (low high res : Float) : ℕ := steps (value ((high - low) / res))

/-- A quotient that is computed as less than a whole number is less than it, -/
theorem lt_of_nearest_lt {q : ℚ} {n : ℕ} (hn : n + 1 < 2 ^ 53) (h : nearest q < n + 1) : q < n + 1 := by
  by_contra hlarge
  have hexact := exact_natCast hn
  have hle := nearest_mono (not_lt.mp hlarge)
  rw [Nat.cast_add, Nat.cast_one] at hexact
  rw [hexact.nearest_eq] at hle
  linarith

/-- and one that is computed as hardly less is hardly less. -/
theorem le_of_le_nearest {q : ℚ} {n : ℕ} (hn : 2 ≤ n) (h : n * (1 - 2 / 10 ^ 9) ≤ nearest q) :
    n * (1 - 3 / 10 ^ 9) ≤ q := by
  have hn : (2 : ℚ) ≤ n := by exact_mod_cast hn
  have hlow : (2 : ℚ) ^ (-1 : ℤ) ≤ q := by
    refine two_zpow_le_of_nearest (by norm_num) (by norm_num) (le_trans ?_ h)
    norm_num
    linarith
  have hnormal : (2 : ℚ) ^ (-1022 - (0 : ℕ) : ℤ) ≤ q :=
    (zpow_le_zpow_right₀ one_le_two (by norm_num)).trans hlow
  have hshare := (abs_le.mp (abs_nearest_sub_le_share (j := 0) hnormal)).2
  have hε : (2 : ℚ) ^ ((0 : ℕ) - 53 : ℤ) = 1 / 2 ^ 53 := by norm_num
  rw [hε] at hshare
  have hnonneg := (zpow_pos two_pos _).le.trans hlow
  linarith

/-- An accepted domain divides its width into its steps. -/
theorem Accepted.divided (h : Accepted low high res) :
    Divided (value high - value low) (value (high - low)) (value res) (stepsOf low high res) := by
  have hpos : 1 ≤ stepsOf low high res := one_le_steps _
  have hle : stepsOf low high res ≤ 10 ^ 7 := steps_le (by exact_mod_cast h.ratio_lt) (by norm_num)
  have hlt : value ((high - low) / res) < stepsOf low high res + 1 := lt_steps_add_one h.ratio_nonneg
  have hge : stepsOf low high res = 1 ∨ stepsOf low high res * (1 - 2 / 10 ^ 9) ≤ value ((high - low) / res) :=
    steps_mul_le h.ratio_nonneg
  rw [h.ratio_eq] at hlt hge
  refine ⟨?_, ?_, (rounds_sub h.finite_high h.finite_low).value_eq h.finite_width, exact_value h.finite_width,
    hpos, hle, lt_of_nearest_lt (by omega) hlt, ?_⟩
  · obtain ⟨k, hk⟩ := exists_intCast_mul high
    obtain ⟨l, hl⟩ := exists_intCast_mul low
    refine exists_natCast_mul (sub_pos.mpr h.lt) (k := k - l) ?_
    rw [hk, hl, Int.cast_sub, sub_mul]
  · obtain ⟨k, hk⟩ := exists_intCast_mul res
    exact exists_natCast_mul h.res_pos hk
  · rcases hpos.eq_or_lt with hone | htwo
    · exact Or.inl hone.symm
    · exact hge.imp_right (le_of_le_nearest htwo)

/-! ## The step and the points -/

/-- The sample point of an index. -/
def sampleAt (low high res : Float) (i : ℕ) : Float :=
  (ofResolution low high res).point (ofResolution low high res).step i

/-- The distance of a sample point from the lower bound as computed. -/
def distanceAt (low high res : Float) (i : ℕ) : ℚ :=
  offset (value high - value low) (value (high - low)) (stepsOf low high res) i

theorem Accepted.len_eq (h : Accepted low high res) :
    (ofResolution low high res).len = stepsOf low high res + 1 := h.count_eq

theorem Accepted.points_eq (h : Accepted low high res) : (ofResolution low high res).points =
    (List.range (stepsOf low high res + 1)).map (sampleAt low high res) := by
  rw [points, h.len_eq]
  rfl

theorem Accepted.within_step (h : Accepted low high res) :
    Within (stride (value (high - low)) (stepsOf low high res))
      (stride (value (high - low)) (stepsOf low high res)) (ofResolution low high res).step := by
  have hd := h.divided
  have hcount := within_ofNat (n := stepsOf low high res) (hd.le.trans_lt (by norm_num))
  have hlen : 1 < stepsOf low high res + 1 := Nat.succ_lt_succ hd.pos
  have hstep : (ofResolution low high res).step = (high - low) / Float.ofNat (stepsOf low high res) := by
    rw [step, h.len_eq, if_pos hlen, Nat.add_sub_cancel]
    rfl
  rw [hstep]
  have hround := rounds_div h.finite_width hcount.finite (hcount.value_eq.trans_ne hd.cast_pos.ne')
  rw [hcount.value_eq] at hround
  exact hround.within_nearest exact_zero hd.exact (div_nonneg hd.nonneg hd.cast_pos.le)
    (div_le_self hd.nonneg (by exact_mod_cast hd.pos))

/-- The last sample is pinned to the upper bound. -/
theorem Accepted.sampleAt_last (h : Accepted low high res) :
    sampleAt low high res (stepsOf low high res) = high := by
  have hpos := h.divided.pos
  unfold sampleAt point
  rw [h.len_eq, if_pos (by simp [hpos])]
  rfl

/-- Every other one is computed from the lower bound. -/
theorem Accepted.sampleAt_of_lt (h : Accepted low high res) (hi : i < stepsOf low high res) :
    sampleAt low high res i = low + (ofResolution low high res).step * Float.ofNat i := by
  have hne : ¬ i + 1 = stepsOf low high res + 1 := by omega
  simp only [sampleAt, point, h.len_eq, hne]
  rfl

/-- A point is the double nearest to the lower bound and its distance; so is the last one, at the full
distance. -/
theorem Accepted.within_sampleAt (h : Accepted low high res) (hi : i ≤ stepsOf low high res) :
    Within (value low) (value high) (sampleAt low high res i) ∧
      value (sampleAt low high res i) = nearest (value low + distanceAt low high res i) := by
  have hd := h.divided
  have hlt := h.lt
  obtain ⟨hge, hle⟩ := hd.offset_mem hi
  rcases hi.lt_or_eq with hi | rfl
  · have hstep := h.within_step
    have hindex := within_ofNat (n := i) ((hi.le.trans hd.le).trans_lt (by norm_num))
    have hproduct := rounds_mul hstep.finite hindex.finite
    rw [hstep.value_eq, hindex.value_eq] at hproduct
    have hwithin := hproduct.within exact_zero hd.exact (mul_nonneg hd.stride_nonneg (Nat.cast_nonneg i))
      (hd.stride_mul_le hi).1
    have hsum := rounds_add h.finite_low hwithin.finite
    rw [hproduct.value_eq hwithin.finite, ← offset_of_lt (d := value high - value low) hi,
      ← h.sampleAt_of_lt hi] at hsum
    have hmem := hsum.within (exact_value h.finite_low) (exact_value h.finite_high) (by linarith) (by linarith)
    exact ⟨hmem, hsum.value_eq hmem.finite⟩
  · rw [h.sampleAt_last, distanceAt, offset_last, add_sub_cancel, (exact_value h.finite_high).nearest_eq]
    exact ⟨⟨h.finite_high, hlt.le, le_rfl⟩, rfl⟩

/-- The first sample is the lower bound, as a number. -/
theorem Accepted.sampleAt_zero (h : Accepted low high res) :
    value (sampleAt low high res 0) = value low := by
  have hdistance : distanceAt low high res 0 = 0 := h.divided.offset_zero
  rw [(h.within_sampleAt (Nat.zero_le _)).2, hdistance, add_zero, (exact_value h.finite_low).nearest_eq]

/-- Samples never decrease, the pinned last one included. -/
theorem Accepted.sampleAt_le (h : Accepted low high res) (hij : i ≤ j) (hj : j ≤ stepsOf low high res) :
    sampleAt low high res i ≤ sampleAt low high res j := by
  obtain ⟨hi', hi⟩ := h.within_sampleAt (hij.trans hj)
  obtain ⟨hj', hj''⟩ := h.within_sampleAt hj
  rw [le_iff_value hi'.finite hj'.finite, hi, hj'']
  exact nearest_mono (add_le_add_right (h.divided.offset_mono hij hj) _)

/-! ## Ascending points -/

/-- The bound with the larger unit. -/
structure Coarser (low high b : Float) : Prop where
  bound : b = low ∨ b = high
  low_le : gap low ≤ gap b
  high_le : gap high ≤ gap b

/-- One of the bounds has the wider gap to its neighbours. -/
theorem exists_coarser (low high : Float) : ∃ b, Coarser low high b := by
  rcases le_total (gap low) (gap high) with hle | hle
  · exact ⟨high, Or.inr rfl, hle, le_rfl⟩
  · exact ⟨low, Or.inl rfl, le_rfl, hle⟩

/-- Between the bounds rounding loses at most half of the larger unit. -/
theorem Coarser.abs_nearest_sub_le {b : Float} {q : ℚ} (hb : Coarser low high b) (hge : value low ≤ q)
    (hle : q ≤ value high) : |nearest q - q| ≤ gap b / 2 := by
  have habs : |q| ≤ |value low| ∨ |q| ≤ |value high| := le_max_iff.mp (abs_le_max_abs_abs hge hle)
  rcases habs with h | h
  · exact (abs_nearest_sub_le_gap h).trans (div_le_div_of_nonneg_right hb.low_le two_pos.le)
  · exact (abs_nearest_sub_le_gap h).trans (div_le_div_of_nonneg_right hb.high_le two_pos.le)

/-- Distances that grow by more than a unit. -/
theorem Accepted.lt_of_wide {b : Float} (h : Accepted low high res) (hb : Coarser low high b)
    (hnormal : 2 ^ (-1022 : ℤ) ≤ stride (value (high - low)) (stepsOf low high res))
    (hwide : gap b * (stepsOf low high res + 1 / 2) ≤ value (high - low)) (hi : i < stepsOf low high res) :
    nearest (value low + distanceAt low high res i) < nearest (value low + distanceAt low high res (i + 1)) := by
  have hd := h.divided
  have hmore : gap b < distanceAt low high res (i + 1) - distanceAt low high res i :=
    hd.lt_offset_sub hnormal (gap_pos b) hwide hi
  have hround : ∀ {j : ℕ}, j ≤ stepsOf low high res →
      |nearest (value low + distanceAt low high res j) - (value low + distanceAt low high res j)| ≤ gap b / 2 := by
    intro j hj
    obtain ⟨hge, hle⟩ := hd.offset_mem hj
    rw [← distanceAt] at hge hle
    exact hb.abs_nearest_sub_le (by linarith) (by linarith)
  have hupper := (abs_le.mp (hround hi.le)).2
  have hlower := (abs_le.mp (hround (Nat.succ_le_of_lt hi))).1
  linarith

theorem Accepted.exponent_le {b : Float} (h : Accepted low high res) (hb : b = low ∨ b = high) :
    (unpack b).exponent ≤ 971 := by
  rcases hb with rfl | rfl
  · exact Double.exponent_le (field_ne_of_isFinite h.finite_low)
  · exact Double.exponent_le (field_ne_of_isFinite h.finite_high)

/-- If the width leaves no room for that, then the bounds are close, measured in the larger unit, -/
theorem Accepted.sub_le_of_tight {b : Float} (h : Accepted low high res) (hb : b = low ∨ b = high)
    (htight : value (high - low) < gap b * (stepsOf low high res + 1 / 2)) :
    value high - value low ≤ 2 ^ 51 * gap b := by
  by_contra hlarge
  have hexact : Exact ((2 ^ 51 : ℤ) * gap b) :=
    exact_intCast_mul_zpow (by norm_num) (le_exponent b) (h.exponent_le hb)
  rw [Int.cast_pow, Int.cast_ofNat] at hexact
  have hle := nearest_mono (not_le.mp hlarge).le
  rw [hexact.nearest_eq, ← h.divided.rounded] at hle
  have hsteps : gap b * (stepsOf low high res + 1 / 2) ≤ gap b * 2 ^ 51 :=
    mul_le_mul_of_nonneg_left (by linarith [h.divided.cast_le]) (gap_pos b).le
  linarith

/-- and all points are multiples of that unit. -/
theorem Accepted.exists_multiple {b : Float} (h : Accepted low high res) (hb : Coarser low high b)
    (hnormal : 2 ^ (-1022 : ℤ) ≤ stride (value (high - low)) (stepsOf low high res))
    (hu : gap b ≤ stride (value (high - low)) (stepsOf low high res))
    (htight : value (high - low) < gap b * (stepsOf low high res + 1 / 2)) :
    ∃ l : ℤ, value low = l * gap b ∧ value high - value low = stepsOf low high res * gap b ∧
      stride (value (high - low)) (stepsOf low high res) = gap b := by
  have hd := h.divided
  have hclose := h.sub_le_of_tight hb.bound htight
  obtain ⟨k, -, hk⟩ := exists_value_eq b
  have hwidth : ∀ m : ℤ, value high - value low = m * (gap b / 2) → value high - value low =
      stepsOf low high res * gap b ∧ stride (value (high - low)) (stepsOf low high res) = gap b :=
    fun m hm => hd.eq_of_tight hnormal (h.exponent_le hb.bound) hu htight hm
  have habs := abs_of_pos hd.width_pos
  -- one bound is a whole number of units and the other one of half units
  rcases hb.bound with rfl | rfl
  · obtain ⟨j, hj⟩ := exists_half_gap hb.high_le (by rw [abs_sub_comm, habs]; exact hclose)
    refine ⟨k, hk, hwidth (j - 2 * k) ?_⟩
    rw [hj, hk]
    push_cast
    ring
  · obtain ⟨j, hj⟩ := exists_half_gap hb.low_le (by rw [habs]; exact hclose)
    obtain ⟨hd', hstride⟩ := hwidth (2 * k - j) (by rw [hj, hk]; push_cast; ring)
    refine ⟨k - stepsOf low b res, ?_, hd', hstride⟩
    push_cast
    linarith

/-- Then no point is rounded. -/
theorem Accepted.nearest_of_multiple {b : Float} {l : ℤ} (h : Accepted low high res) (hb : Coarser low high b)
    (hl : value low = l * gap b) (hwidth : value high - value low = stepsOf low high res * gap b)
    (hstride : stride (value (high - low)) (stepsOf low high res) = gap b) (hi : i ≤ stepsOf low high res) :
    nearest (value low + distanceAt low high res i) = (l + i : ℤ) * gap b := by
  have hhigh : value high = (l + stepsOf low high res : ℤ) * gap b := by
    push_cast
    linarith
  have hfirst := abs_lt.mp (abs_lt_of_eq_mul_gap hb.low_le hl)
  have hlast := abs_lt.mp (abs_lt_of_eq_mul_gap hb.high_le hhigh)
  -- multiples of the gap with 53 bits are doubles, so they round to themselves
  have hmultiple : ∀ {k : ℤ}, |k| < 2 ^ 53 → nearest (k * gap b) = k * gap b :=
    fun hk => (exact_intCast_mul_zpow hk (le_exponent b) (h.exponent_le hb.bound)).nearest_eq
  have hdistance : distanceAt low high res i = (i : ℤ) * gap b := by
    unfold distanceAt
    rcases hi.lt_or_eq with hi | rfl
    · have hbits : |(i : ℤ)| < 2 ^ 53 := by
        have := h.divided.le
        rw [abs_of_nonneg (Int.natCast_nonneg i)]
        omega
      rw [offset_of_lt hi, hstride, mul_comm, ← Int.cast_natCast, hmultiple hbits]
    · rw [offset_last, hwidth, Int.cast_natCast]
  rw [hdistance, hl, ← add_mul, ← Int.cast_add, hmultiple]
  rw [abs_lt]
  constructor <;> omega

/-- Even where a sample's last place is nearly a step, the last but one stays below the end. -/
theorem Accepted.lt_of_tight {b : Float} (h : Accepted low high res) (hb : Coarser low high b)
    (hnormal : 2 ^ (-1022 : ℤ) ≤ stride (value (high - low)) (stepsOf low high res))
    (hu : gap b ≤ stride (value (high - low)) (stepsOf low high res))
    (htight : value (high - low) < gap b * (stepsOf low high res + 1 / 2)) (hi : i < stepsOf low high res) :
    nearest (value low + distanceAt low high res i) < nearest (value low + distanceAt low high res (i + 1)) := by
  obtain ⟨l, hl, hwidth, hstride⟩ := h.exists_multiple hb hnormal hu htight
  rw [h.nearest_of_multiple hb hl hwidth hstride hi.le,
    h.nearest_of_multiple hb hl hwidth hstride (Nat.succ_le_of_lt hi)]
  exact mul_lt_mul_of_pos_right (by push_cast; linarith) (gap_pos b)

/-- Points ascend if the step is a normal double and not smaller than the unit of either bound. -/
theorem Accepted.sampleAt_lt (h : Accepted low high res)
    (hnormal : 2 ^ (-1022 : ℤ) ≤ value (ofResolution low high res).step)
    (hlow : gap low ≤ value (ofResolution low high res).step)
    (hhigh : gap high ≤ value (ofResolution low high res).step) (hij : i < j) (hj : j ≤ stepsOf low high res) :
    sampleAt low high res i < sampleAt low high res j := by
  rw [h.within_step.value_eq] at hnormal hlow hhigh
  -- strict from one sample to the next, and no sample falls behind after that
  have hnext : sampleAt low high res i < sampleAt low high res (i + 1) := by
    have hi : i < stepsOf low high res := hij.trans_le hj
    obtain ⟨hfinite, hvalue⟩ := h.within_sampleAt hi.le
    obtain ⟨hfinite', hvalue'⟩ := h.within_sampleAt (Nat.succ_le_of_lt hi)
    rw [lt_iff_value hfinite.finite hfinite'.finite, hvalue, hvalue']
    obtain ⟨b, hb⟩ := exists_coarser low high
    have hu : gap b ≤ stride (value (high - low)) (stepsOf low high res) := by
      rcases hb.bound with rfl | rfl
      · exact hlow
      · exact hhigh
    rcases le_or_gt (gap b * (stepsOf low high res + 1 / 2)) (value (high - low)) with hwide | htight
    · exact h.lt_of_wide hb hnormal hwide hi
    · exact h.lt_of_tight hb hnormal hu htight hi
  have hle := h.sampleAt_le (Nat.succ_le_of_lt hij) hj
  obtain ⟨hfinite, -⟩ := h.within_sampleAt (hij.le.trans hj)
  obtain ⟨hfinite', -⟩ := h.within_sampleAt (Nat.succ_le_of_lt (hij.trans_le hj))
  obtain ⟨hfinite'', -⟩ := h.within_sampleAt hj
  rw [lt_iff_value hfinite.finite hfinite'.finite] at hnext
  rw [le_iff_value hfinite'.finite hfinite''.finite] at hle
  exact (lt_iff_value hfinite.finite hfinite''.finite).mpr (hnext.trans_le hle)

/-- Points that ascend by units of a bound fill the width. -/
theorem Accepted.mul_gap_le {b : Float} (h : Accepted low high res)
    (hlt : ∀ i < stepsOf low high res, sampleAt low high res i < sampleAt low high res (i + 1))
    (hgap : ∀ x, value low ≤ value x → value x ≤ value high → gap b ≤ gap x) :
    stepsOf low high res * gap b ≤ value high - value low := by
  have hpoints : ∀ i ≤ stepsOf low high res, value low + i * gap b ≤ value (sampleAt low high res i) := by
    intro i hi
    induction i with
    | zero => simp [h.sampleAt_zero]
    | succ i ih =>
      obtain ⟨hwithin, -⟩ := h.within_sampleAt (Nat.le_of_succ_le hi)
      obtain ⟨hwithin', -⟩ := h.within_sampleAt hi
      have hnext := (lt_iff_value hwithin.finite hwithin'.finite).mp (hlt i hi)
      have hunit := gap_le_sub (hgap _ hwithin.le hwithin.ge) (hgap _ hwithin'.le hwithin'.ge) hnext
      have := ih (Nat.le_of_succ_le hi)
      push_cast
      linarith
  have hlast := hpoints _ le_rfl
  rw [h.sampleAt_last] at hlast
  linarith

/-- Zero is far from the bounds, measured in their units, if it is between them. -/
theorem Accepted.mul_gap_le_of_abs_le {b : Float} (h : Accepted low high res)
    (hb : 2 * |value b| ≤ value high - value low) : stepsOf low high res * gap b ≤ value high - value low := by
  have hd := h.divided
  by_cases hleast : (unpack b).exponent = -1074
  · rw [gap, hleast]
    exact hd.mul_smallest_le
  · have hle := le_abs_value hleast
    have hmul := mul_le_mul_of_nonneg_right (hd.cast_le.trans (by norm_num : (10 ^ 7 : ℚ) ≤ 2 ^ 53)) (gap_pos b).le
    linarith

/-- Points ascend only if the step is not smaller than the unit of one of the bounds. -/
theorem Accepted.gap_le_step (h : Accepted low high res)
    (hlt : ∀ i < stepsOf low high res, sampleAt low high res i < sampleAt low high res (i + 1)) :
    gap low ≤ value (ofResolution low high res).step ∨ gap high ≤ value (ofResolution low high res).step := by
  rw [h.within_step.value_eq]
  have hfill : ∀ b, b = low ∨ b = high → stepsOf low high res * gap b ≤ value high - value low →
      gap b ≤ stride (value (high - low)) (stepsOf low high res) :=
    fun b hb hle => h.divided.two_zpow_le_stride (le_exponent b) (h.exponent_le hb) hle
  -- between bounds of one sign the unit of the one closer to zero is the least
  rcases le_total 0 (value low) with hlow | hlow
  · refine Or.inl (hfill low (Or.inl rfl) (h.mul_gap_le hlt ?_))
    intro x hx _
    exact gap_le_of_abs_le (by rwa [abs_of_nonneg hlow, abs_of_nonneg (hlow.trans hx)])
  · rcases le_total (value high) 0 with hhigh | hhigh
    · refine Or.inr (hfill high (Or.inr rfl) (h.mul_gap_le hlt ?_))
      intro x _ hx
      exact gap_le_of_abs_le (by rw [abs_of_nonpos hhigh, abs_of_nonpos (hx.trans hhigh)]; exact neg_le_neg hx)
    · rcases le_total |value low| |value high| with hle | hle
      · refine Or.inl (hfill low (Or.inl rfl) (h.mul_gap_le_of_abs_le ?_))
        rw [abs_of_nonpos hlow, abs_of_nonneg hhigh] at hle
        rw [abs_of_nonpos hlow]
        linarith
      · refine Or.inr (hfill high (Or.inr rfl) (h.mul_gap_le_of_abs_le ?_))
        rw [abs_of_nonpos hlow, abs_of_nonneg hhigh] at hle
        rw [abs_of_nonneg hhigh]
        linarith

/-! ## All points -/

theorem Accepted.mem_points (h : Accepted low high res) {x : Float} (hx : x ∈ (ofResolution low high res).points) :
    low ≤ x ∧ x ≤ high := by
  rw [h.points_eq] at hx
  obtain ⟨i, hi, rfl⟩ := List.mem_map.mp hx
  obtain ⟨hwithin, -⟩ := h.within_sampleAt (Nat.lt_succ_iff.mp (List.mem_range.mp hi))
  exact ⟨(Double.le_iff_value h.finite_low hwithin.finite).mpr hwithin.le,
    (Double.le_iff_value hwithin.finite h.finite_high).mpr hwithin.ge⟩

/-- The points of an accepted domain are in order. -/
theorem Accepted.pairwise_points (h : Accepted low high res) :
    (ofResolution low high res).points.Pairwise (· ≤ ·) := by
  rw [h.points_eq, List.pairwise_map]
  refine List.pairwise_lt_range.imp_of_mem ?_
  intro i j _ hj hij
  exact h.sampleAt_le hij.le (Nat.lt_succ_iff.mp (List.mem_range.mp hj))

end Grid

/-! ## The result -/

namespace Domain

/-- **Sample points begin and end with the bounds and do not descend.** They ascend if the step is a normal
double and not smaller than the unit in the last place of either bound, and only if it is not smaller than that
of one of them. -/
theorem range_ordered {name : String} {low high res : Float} {domain : Domain Float}
    (h : Domain.make name low high res = .ok domain) :
    2 ≤ domain.range.length ∧
      (∃ first, domain.range.head? = some first ∧ (first == low) = true) ∧
      domain.range.getLast? = some high ∧
      (∀ x ∈ domain.range, low ≤ x ∧ x ≤ high) ∧
      domain.range.Pairwise (· ≤ ·) ∧
      (2 ^ (-1022 : ℤ) ≤ Double.value domain.step → Double.gap low ≤ Double.value domain.step →
        Double.gap high ≤ Double.value domain.step → domain.range.Pairwise (· < ·)) ∧
      (domain.range.Pairwise (· < ·) →
        Double.gap low ≤ Double.value domain.step ∨ Double.gap high ≤ Double.value domain.step) := by
  obtain ⟨haccepted, hgrid⟩ := Grid.accepted_of_make h
  have hrange : domain.range = (List.range (Grid.stepsOf low high res + 1)).map (Grid.sampleAt low high res) := by
    rw [range, hgrid, haccepted.points_eq]
  have hstep : domain.step = (Grid.ofResolution low high res).step := by rw [step, hgrid]
  have hpos := haccepted.divided.pos
  rw [hrange, hstep]
  -- at least two samples, both ends, bounds, order, strict order, and the converse of that
  refine ⟨by simpa [Nat.succ_le_iff] using hpos, ?_, ?_, ?_, ?_, ?_, ?_⟩
  · refine ⟨Grid.sampleAt low high res 0, by simp [List.head?_range], ?_⟩
    have hfinite := (haccepted.within_sampleAt (Nat.zero_le _)).1.finite
    exact (Double.beq_iff_value hfinite haccepted.finite_low).mpr haccepted.sampleAt_zero
  · rw [List.range_succ, List.map_append, List.map_singleton, List.getLast?_concat, haccepted.sampleAt_last]
  · rw [← haccepted.points_eq]
    exact fun x => haccepted.mem_points
  · rw [← haccepted.points_eq]
    exact haccepted.pairwise_points
  · intro hnormal hlow hhigh
    rw [List.pairwise_map]
    refine List.pairwise_lt_range.imp_of_mem ?_
    intro i j _ hj hij
    exact haccepted.sampleAt_lt hnormal hlow hhigh hij (Nat.lt_succ_iff.mp (List.mem_range.mp hj))
  · intro hlt
    apply haccepted.gap_le_step
    intro i hi
    have hpair := List.pairwise_iff_getElem.mp hlt i (i + 1) (by simp; omega) (by simpa using hi) (Nat.lt_succ_self i)
    simpa using hpair

theorem range_ordered_ten : ∃ domain : Domain Float, Domain.make "room" 0.0 10.0 1.0 = .ok domain ∧
    2 ≤ domain.range.length ∧ domain.range.getLast? = some 10.0 ∧ domain.range.Pairwise (· < ·) := by
  have hmake : Domain.make "room" 0.0 10.0 1.0 =
      .ok (⟨"room", .ofResolution 0.0 10.0 1.0, 1.0, .empty, 1⟩ : Domain Float) := by
    rw [make_eq_ok_iff]
    refine ⟨by decide +kernel, by decide +kernel, by decide +kernel, by decide +kernel, rfl⟩
  refine ⟨_, hmake, ?_⟩
  have hstep : (Grid.ofResolution (0.0 : Float) 10.0 1.0).step = 1.0 := by decide +kernel
  have hlow : (Double.unpack 0.0).exponent = -1074 := by decide +kernel
  have hhigh : (Double.unpack 10.0).exponent = -49 := by decide +kernel
  obtain ⟨hlength, -, hlast, -, -, hascends, -⟩ := range_ordered hmake
  refine ⟨hlength, hlast, hascends ?_ ?_ ?_⟩ <;> rw [step, hstep, Double.within_one.value_eq]
  · exact zpow_le_one_of_nonpos₀ one_le_two (by norm_num)
  · rw [Double.gap, hlow]
    exact zpow_le_one_of_nonpos₀ one_le_two (by norm_num)
  · rw [Double.gap, hhigh]
    exact zpow_le_one_of_nonpos₀ one_le_two (by norm_num)

/-- Where the spacing of doubles goes from 1 to 2, a step of 1.5 takes one sample twice. -/
theorem range_repeats : ∃ domain : Domain Float,
    Domain.make "room" 9007199254740989 9007199254740998 1.5 = .ok domain ∧
      domain.range = [9007199254740989, 9007199254740990, 9007199254740992, 9007199254740994,
        9007199254740996, 9007199254740996, 9007199254740998] ∧
      ¬ domain.range.Pairwise (· < ·) := by
  refine ⟨⟨"room", .ofResolution 9007199254740989 9007199254740998 1.5, 1.5, .empty, 1⟩, ?_, ?_, ?_⟩
  · rw [make_eq_ok_iff]
    refine ⟨by decide +kernel, by decide +kernel, by decide +kernel, by decide +kernel, rfl⟩
  · decide +kernel
  · decide +kernel

end Domain

end FuzzyInference

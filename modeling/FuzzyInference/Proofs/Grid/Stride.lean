import FuzzyInference.Proofs.Exact.Rounding
import FuzzyInference.Proofs.Grid
import FuzzyInference.Proofs.Store.Registry

/-!
# The stride of a grid

In exact arithmetic the number of steps is the whole number that the quotient of width and resolution is
within a billionth of, or else the whole part of the quotient. So a step is as wide as the resolution, up to
a billionth, and less than twice as wide, unless the resolution is wider than the domain. All points, the last
one included, are whole multiples of one step away from the lower bound.

## Contents
- `Near`: a quotient that counts as a whole number. `wholeSteps_of_near`, `wholeSteps_of_not_near`: the whole
  number of a quotient.
- `count_of_near`, `count_of_not_near`: how many points there are. `count_cases`: what is known of the steps.
- `points_eq`: where the points are.
- `Domain.stride_fits_resolution`: the result.
-/

set_option linter.unusedSectionVars false

namespace FuzzyInference

open Scalar

variable {K : Type} [Field K] [LinearOrder K] [IsStrictOrderedRing K] [FloorRing K] [Elementary K]

namespace Grid

variable {q low high res : K} {k n : ℕ}

/-! ## Quotients that count as whole -/

/-- A quotient that counts as a whole number, since it is within a billionth of it. -/
def Near (q : K) (k : ℕ) : Prop := 1 ≤ k ∧ |q - k| ≤ 1e-9 * k

theorem Near.le (h : Near q k) : k * (1 - 1e-9) ≤ q := by
  have := (abs_le.mp h.2).1
  linarith

theorem Near.ge (h : Near q k) : q ≤ k * (1 + 1e-9) := by
  have := (abs_le.mp h.2).2
  linarith

/-- Below the limit on points a billionth is less than a half, so that whole number is the nearest one. -/
theorem Near.round_eq (h : Near q k) (hlimit : q < 10 ^ 7) : Scalar.round q = k := by
  have hlow := h.le
  refine (round_eq_intCast (n := k) ?_).trans (Int.cast_natCast k)
  rw [Int.cast_natCast]
  refine h.2.trans_lt ?_
  norm_num at hlow hlimit ⊢
  linarith

/-- The steps are the rounded quotient where that is near, else the floor. -/
theorem wholeSteps_eq (q : K) : wholeSteps q =
    if |q - Scalar.round q| ≤ 1e-9 * max (Scalar.round q) 1 then Scalar.round q else (⌊q⌋ : K) := by
  rw [← one_literal, ← greater_eq]
  rfl

/-- A quotient near a whole number snaps to it. -/
theorem wholeSteps_of_near (h : Near q k) (hlimit : q < 10 ^ 7) : wholeSteps q = k := by
  have hone : (1 : K) ≤ k := by exact_mod_cast h.1
  rw [wholeSteps_eq, h.round_eq hlimit, max_eq_left hone, if_pos h.2]

/-- A quotient next to no whole number but perhaps zero is cut off, and zero is replaced by one. -/
theorem wholeSteps_of_not_near (h0 : 0 ≤ q) (h : ∀ k, ¬ Near q k) :
    max (wholeSteps q) 1 = max (⌊q⌋ : K) 1 := by
  obtain ⟨n, hn⟩ : ∃ n : ℕ, Scalar.round q = n := by
    have hnonneg : (0 : ℤ) ≤ ⌊q + 1 / 2⌋ := Int.floor_nonneg.mpr (by linarith)
    obtain ⟨n, hn⟩ := Int.eq_ofNat_of_zero_le hnonneg
    exact ⟨n, by rw [round_of_nonneg h0, hn, Int.cast_natCast]⟩
  rw [wholeSteps_eq, hn]
  split
  next hclose =>
    rcases Nat.eq_zero_or_pos n with rfl | hpos
    · -- what is next to zero is cut off to zero as well
      rw [Nat.cast_zero, max_eq_right zero_le_one, sub_zero, abs_of_nonneg h0] at hclose
      have hsmall : q < 1 := by
        norm_num at hclose
        linarith
      have hfloor : ⌊q⌋ = 0 := Int.floor_eq_zero_iff.mpr ⟨h0, hsmall⟩
      rw [hfloor, Nat.cast_zero, Int.cast_zero]
    · have hone : (1 : K) ≤ n := by exact_mod_cast hpos
      rw [max_eq_left hone] at hclose
      exact absurd ⟨hpos, hclose⟩ (h n)
  next => rfl

/-! ## The number of points -/

theorem count_eq_of_wholeSteps (h : max (wholeSteps ((high - low) / res)) 1 = (n : K)) :
    count low high res = n + 1 := by
  show ⌊greater (wholeSteps ((high - low) / res)) 1.0⌋.toNat + 1 = n + 1
  rw [greater_eq, one_literal, h, Int.floor_natCast, Int.toNat_natCast]

/-- A quotient near a whole number counts that many points and one. -/
theorem count_of_near (h : Near ((high - low) / res) k) (hlimit : (high - low) / res < 10 ^ 7) :
    count low high res = k + 1 := by
  have hone : (1 : K) ≤ k := by exact_mod_cast h.1
  exact count_eq_of_wholeSteps (by rw [wholeSteps_of_near h hlimit, max_eq_left hone])

/-- Any other quotient is floored, with one step at least. -/
theorem count_of_not_near (h0 : 0 ≤ (high - low) / res) (h : ∀ k, ¬ Near ((high - low) / res) k) :
    count low high res = max ⌊(high - low) / res⌋₊ 1 + 1 := by
  refine count_eq_of_wholeSteps ?_
  rw [wholeSteps_of_not_near h0 h, Nat.cast_max, Nat.cast_one, natCast_floor_eq_intCast_floor h0]

/-- The steps are those of a whole number next to the quotient, or of its whole part, or there is one step. -/
theorem count_cases (h0 : 0 ≤ (high - low) / res) (hlimit : (high - low) / res < 10 ^ 7) :
    ∃ n : ℕ, 1 ≤ n ∧ count low high res = n + 1 ∧
      (Near ((high - low) / res) n ∨ (∀ k, ¬ Near ((high - low) / res) k) ∧
        n = max ⌊(high - low) / res⌋₊ 1) := by
  by_cases h : ∃ k, Near ((high - low) / res) k
  · obtain ⟨k, hk⟩ := h
    exact ⟨k, hk.1, count_of_near hk hlimit, Or.inl hk⟩
  · have hfar := not_exists.mp h
    exact ⟨_, le_max_right _ 1, count_of_not_near h0 hfar, Or.inr ⟨hfar, rfl⟩⟩

/-- What is not cut off by more than the quotient's fraction or moved by more than a billionth is about the
    quotient. -/
theorem steps_mem (h1 : 1 ≤ q) (h : Near q n ∨ n = ⌊q⌋₊) :
    n * (1 - 1e-9) ≤ q ∧ q < 2 * n := by
  rcases h with h | rfl
  · have hn : (1 : K) ≤ n := by exact_mod_cast h.1
    have hge := h.ge
    refine ⟨h.le, ?_⟩
    norm_num at hge
    linarith
  · have hfloor : (⌊q⌋₊ : K) ≤ q := Nat.floor_le (zero_le_one.trans h1)
    have hnext := Nat.lt_floor_add_one q
    have hn : (1 : K) ≤ ⌊q⌋₊ := by exact_mod_cast (Nat.one_le_floor_iff q).mpr h1
    constructor
    · norm_num
      linarith
    · linarith

/-- A step in multiples of the resolution. -/
theorem step_mem (hres : 0 < res) (hn : 1 ≤ n) (hlow : n * (1 - 1e-9) ≤ (high - low) / res)
    (hhigh : (high - low) / res < 2 * n) :
    res * (1 - 1e-9) ≤ (high - low) / n ∧ (high - low) / n < 2 * res := by
  have hpos : (0 : K) < n := by exact_mod_cast hn
  rw [le_div_iff₀ hres] at hlow
  rw [div_lt_iff₀ hres] at hhigh
  constructor
  · rw [le_div_iff₀ hpos]
    linarith
  · rw [div_lt_iff₀ hpos]
    linarith

/-! ## The points -/

theorem step_of_len {g : Grid K} (hn : 1 ≤ n) (hlen : g.len = n + 1) : g.step = (g.high - g.low) / n := by
  rw [step_eq, hlen, if_pos (Nat.succ_lt_succ hn), Nat.add_sub_cancel]

/-- **Every point is a whole number of steps away from the lower bound,** also the last one, which is taken
    from the upper bound. -/
theorem points_eq {g : Grid K} (hn : 1 ≤ n) (hlen : g.len = n + 1) :
    g.points = (List.range (n + 1)).map fun i : ℕ => g.low + i * g.step := by
  have hpos : (n : K) ≠ 0 := Nat.cast_ne_zero.mpr (by omega)
  unfold points
  rw [hlen]
  refine List.map_congr_left fun i _ => ?_
  rw [point_eq, mul_comm]
  split
  next h =>
    obtain rfl : i = n := by omega
    rw [step_of_len hn hlen, mul_div_cancel₀ _ hpos, add_sub_cancel]
  next => rfl

/-- Neighbors are one step apart. -/
theorem sub_of_points {g : Grid K} (hn : 1 ≤ n) (hlen : g.len = n + 1) {i : ℕ} {x y : K}
    (hx : g.points[i]? = some x) (hy : g.points[i + 1]? = some y) : y - x = g.step := by
  rw [points_eq hn hlen, List.getElem?_map, Option.map_eq_some_iff] at hx hy
  obtain ⟨j, hj, rfl⟩ := hx
  obtain ⟨k, hk, rfl⟩ := hy
  obtain rfl : i = j := (List.getElem?_eq_some_iff.mp hj).elim fun _ h => by rw [← h, List.getElem_range]
  obtain rfl : i + 1 = k := (List.getElem?_eq_some_iff.mp hk).elim fun _ h => by rw [← h, List.getElem_range]
  push_cast
  ring

end Grid

/-! ## The result -/

namespace Domain

open Grid

variable {low high res : K}

/-- Without rounding a domain is refused for its name, its bounds and its resolution alone. -/
theorem make_of_bounds {name : String} (hname : Text.isIdentifier name = true) (hbounds : low < high)
    (hres : 0 < res) (hlimit : (high - low) / res < maxPoints) :
    Domain.make name low high res = .ok ⟨name, .ofResolution low high res, res, .empty, 1⟩ := by
  have hres : (0.0 : K) < res := by rwa [zero_literal]
  exact make_eq_ok_iff.mpr ⟨hname, decide_eq_true hbounds, decide_eq_true hres, decide_eq_true hlimit, rfl⟩

/-- **The stride fits the resolution.** In exact arithmetic, let the width be positive and less than the limit
    on points times the resolution. Then there is at least one step; there are as many as the whole number that
    the quotient of width and resolution is next to, or else as the whole part of the quotient. A resolution
    that is not wider than the domain is at most a billionth wider than the step, and more than half as wide.
    The points are one more than the steps, each of them is as many steps away from the lower bound as there are
    points before it, the last one is the upper bound, and neighbors differ by the step of the domain. -/
theorem stride_fits_resolution (hbounds : low < high) (hres : 0 < res)
    (hlimit : (high - low) / res < maxPoints) :
    ∃ n : ℕ, Grid.count low high res = n + 1 ∧ 1 ≤ n ∧
      (∀ k, Near ((high - low) / res) k → n = k) ∧
      ((∀ k, ¬ Near ((high - low) / res) k) → n = max ⌊(high - low) / res⌋₊ 1) ∧
      (res ≤ high - low → 1 ≤ ⌊(high - low) / res⌋₊ ∧
        res * (1 - 1e-9) ≤ (high - low) / n ∧ (high - low) / n < 2 * res) ∧
      ∀ name, Text.isIdentifier name = true → ∃ domain, Domain.make name low high res = .ok domain ∧
        domain.step = (high - low) / n ∧
        domain.range = ((List.range (n + 1)).map fun i : ℕ => low + i * domain.step) ∧
        domain.range.getLast? = some high ∧
        ∀ i x y, domain.range[i]? = some x → domain.range[i + 1]? = some y → y - x = domain.step := by
  have h0 : 0 ≤ (high - low) / res := div_nonneg (sub_pos.mpr hbounds).le hres.le
  have hlimit' : (high - low) / res < 10 ^ 7 := by
    refine hlimit.trans_eq ?_
    norm_num [maxPoints]
  obtain ⟨n, hn, hcount, hcases⟩ := count_cases h0 hlimit'
  refine ⟨n, hcount, hn, ?_, ?_, ?_, ?_⟩
  · intro k hk
    have := count_of_near hk hlimit'
    omega
  · intro hfar
    have := count_of_not_near h0 hfar
    omega
  · -- a resolution no wider than the domain leaves at least one whole step
    intro hle
    have h1 : 1 ≤ (high - low) / res := (one_le_div hres).mpr hle
    have hfloor : 1 ≤ ⌊(high - low) / res⌋₊ := (Nat.one_le_floor_iff _).mpr h1
    refine ⟨hfloor, ?_⟩
    obtain ⟨hlow, hhigh⟩ := steps_mem h1 (hcases.imp_right fun h => h.2.trans (max_eq_left hfloor))
    exact step_mem hres hn hlow hhigh
  · intro name hname
    have hlen : (Grid.ofResolution low high res).len = n + 1 := hcount
    have hstep := step_of_len hn hlen
    refine ⟨_, make_of_bounds hname hbounds hres hlimit, hstep, points_eq hn hlen, ?_, fun i x y => ?_⟩
    · have hlast : low + n * ((high - low) / n) = high := by
        rw [mul_div_cancel₀ _ (Nat.cast_ne_zero.mpr (by omega)), add_sub_cancel]
      show (Grid.ofResolution low high res).points.getLast? = some high
      rw [points_eq hn hlen, List.range_succ, List.map_append, List.map_singleton, List.getLast?_concat, hstep]
      exact congrArg some hlast
    · exact sub_of_points hn hlen

/-- A resolution that is a hair too wide for three steps. -/
theorem stride_fits_resolution_hair :
    (0 : ℚ) < 3 ∧ (0 : ℚ) < 1.0000000005 ∧ ((3 : ℚ) - 0) / 1.0000000005 < maxPoints ∧
      Grid.count (0 : ℚ) 3 1.0000000005 = 4 ∧
      ∃ domain, Domain.make "room" (0 : ℚ) 3 1.0000000005 = .ok domain ∧ domain.step = 1 ∧
        domain.range.getLast? = some 3 := by
  have hbounds : (0 : ℚ) < 3 := by norm_num
  have hres : (0 : ℚ) < 1.0000000005 := by norm_num
  have hlimit : ((3 : ℚ) - 0) / 1.0000000005 < maxPoints := by norm_num [maxPoints]
  have hthree : Near (((3 : ℚ) - 0) / 1.0000000005) 3 := by norm_num [Near, abs_le]
  obtain ⟨n, hcount, -, hnear, -, -, hmake⟩ := stride_fits_resolution hbounds hres hlimit
  obtain rfl := hnear 3 hthree
  obtain ⟨domain, hdomain, hstep, -, hlast, -⟩ := hmake "room" (by decide +kernel)
  exact ⟨hbounds, hres, hlimit, hcount, domain, hdomain, hstep.trans (by norm_num), hlast⟩

end Domain

end FuzzyInference

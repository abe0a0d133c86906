import FuzzyInference.Proofs.Grid.Count
import FuzzyInference.Proofs.Store.Registry

/-!
# The limit on sample points

A domain is accepted if the quotient of its width and its resolution is below the limit on sample points. A
quotient just below it still counts as the limit itself, and both ends of the domain are sample points, so
there can be one more of them than the limit allows.

## Contents
- `Accepted`, `accepted_of_make`: what is known of the bounds and the resolution of a domain.
- `Double.exists_eq_div`, `sub_le_of_lt`: doubles near the limit. `limit_le_steps_iff`: quotients near it.
- `Domain.range_length`: the number of sample points.
-/

namespace FuzzyInference

open Scalar

namespace Double

/-- What a double as large as this is a multiple of. -/
theorem exists_eq_div {x : Float} (h : 2 ^ 23 ≤ value x) : ∃ k : ℤ, value x = k / 2 ^ 29 := by
  have hexponent : -29 ≤ (unpack x).exponent := by
    have hlt := abs_value_lt x
    rw [abs_of_nonneg (le_trans (by norm_num) h)] at hlt
    have hgap : (2 : ℚ) ^ (-30 : ℤ) < gap x := by
      norm_num at h ⊢
      linarith
    have := (zpow_lt_zpow_iff_right₀ one_lt_two).mp hgap
    omega
  obtain ⟨k, hk⟩ := exists_eq_mul_zpow hexponent
  refine ⟨k, ?_⟩
  rw [hk, zpow_neg, ← div_eq_mul_inv]
  rfl

end Double

namespace Grid

open Double

variable {low high res : Float}

/-! ## Accepted bounds -/

/-- What is asked of the bounds and the resolution of a domain. -/
structure Accepted (low high res : Float) : Prop where
  finite_low : isFinite low = true
  finite_high : isFinite high = true
  lt : value low < value high
  finite_res : isFinite res = true
  res_pos : 0 < value res
  finite_ratio : isFinite ((high - low) / res) = true
  ratio_lt : value ((high - low) / res) < 10 ^ 7

/-- A domain is made from accepted bounds, with the grid of its resolution. -/
theorem accepted_of_make {name : String} {domain : Domain Float}
    (h : Domain.make name low high res = .ok domain) :
    Accepted low high res ∧ domain.grid = .ofResolution low high res := by
  obtain ⟨-, hbounds, hres, hratio, rfl⟩ := Domain.make_eq_ok_iff.mp h
  simp only [Bool.and_eq_true, decide_eq_true_eq] at hbounds hres hratio
  obtain ⟨⟨hlow, hhigh⟩, hlt⟩ := hbounds
  have hlimit : Within (10 ^ 7 : ℕ) (10 ^ 7 : ℕ) (Float.ofNat Domain.maxPoints) :=
    within_ofNat (n := 10 ^ 7) (by norm_num)
  have hless : value ((high - low) / res) < (10 ^ 7 : ℕ) := by
    rw [← hlimit.value_eq]
    exact (lt_iff_value hratio.1 hlimit.finite).mp hratio.2
  refine ⟨⟨hlow, hhigh, (lt_iff_value hlow hhigh).mp hlt, hres.1, ?_, hratio.1, ?_⟩, rfl⟩
  · have hpos := (lt_iff_value within_zero.finite hres.1).mp hres.2
    rwa [within_zero.value_eq] at hpos
  · exact_mod_cast hless

/-- The width of an accepted domain does not overflow. -/
theorem Accepted.finite_width (h : Accepted low high res) : isFinite (high - low) = true :=
  isFinite_of_div h.finite_ratio

/-- The width of an accepted domain does not round to 0. -/
theorem Accepted.width_pos (h : Accepted low high res) : 0 < value (high - low) :=
  sub_pos_of_lt h.finite_low h.finite_high h.lt h.finite_width

/-- The quotient is the nearest double to the ratio of width and resolution. -/
theorem Accepted.ratio_eq (h : Accepted low high res) :
    value ((high - low) / res) = nearest (value (high - low) / value res) :=
  (rounds_div h.finite_width h.finite_res h.res_pos.ne').value_eq h.finite_ratio

theorem Accepted.ratio_nonneg (h : Accepted low high res) : 0 ≤ value ((high - low) / res) := by
  rw [h.ratio_eq]
  exact nearest_nonneg (div_nonneg h.width_pos.le h.res_pos.le)

/-- The points are counted from that quotient. -/
theorem Accepted.count_eq (h : Accepted low high res) :
    count low high res = steps (value ((high - low) / res)) + 1 :=
  Grid.count_eq h.finite_ratio h.ratio_nonneg (h.ratio_lt.trans (by norm_num))

/-! ## The limit -/

/-- Nothing lies between two neighbors. -/
theorem sub_le_of_lt {x : Float} (hx : 2 ^ 23 ≤ value x) {n : ℤ} (h : 10 ^ 7 - value x < (n + 1) / 2 ^ 29) :
    10 ^ 7 - value x ≤ n / 2 ^ 29 := by
  obtain ⟨k, hk⟩ := exists_eq_div hx
  rw [hk, lt_div_iff₀ (by norm_num), sub_mul, div_mul_cancel₀ _ (by norm_num)] at h
  rw [hk, le_div_iff₀ (by norm_num), sub_mul, div_mul_cancel₀ _ (by norm_num)]
  have hlt : 10 ^ 7 * 2 ^ 29 - k < n + 1 := by exact_mod_cast h
  exact_mod_cast Int.lt_add_one_iff.mp hlt

/-- The last double within the threshold of the limit is the last one that is a hundredth away. -/
theorem sub_le_tolerance_iff {x : Float} :
    10 ^ 7 - value x ≤ tolerance (10 ^ 7) ↔ 10 ^ 7 - 1 / 100 ≤ value x := by
  obtain ⟨hlow, hhigh⟩ := tolerance_mem (10 ^ 7)
  have hmax : max ((10 ^ 7 : ℕ) : ℚ) 1 / 10 ^ 9 = 1 / 100 := by norm_num
  rw [hmax] at hlow hhigh
  generalize tolerance (10 ^ 7) = t at hlow hhigh ⊢
  rcases lt_or_ge (value x) (2 ^ 23) with hlt | hge
  · norm_num at hlt hhigh ⊢
    constructor <;> intro <;> linarith
  · constructor
    · intro hle
      have hneighbor := sub_le_of_lt hge (n := 5368709) (by norm_num at hhigh ⊢; linarith)
      norm_num at hneighbor ⊢
      linarith
    · intro hle
      have hneighbor := sub_le_of_lt hge (n := 5368709) (by norm_num at hle ⊢; linarith)
      norm_num at hneighbor hlow ⊢
      linarith

/-- The steps reach the limit when the quotient comes within a hundredth of it. -/
theorem limit_le_steps_iff {x : Float} (h : value x < 10 ^ 7) :
    10 ^ 7 ≤ steps (value x) ↔ 10 ^ 7 - 1 / 100 ≤ value x := by
  have hle : nearestWhole (value x) ≤ 10 ^ 7 := nearestWhole_le (by exact_mod_cast h)
  rw [← sub_le_tolerance_iff]
  unfold steps
  constructor
  · -- below the limit only snapping up can reach it
    intro hsteps
    have hlarge := (le_max_iff.mp hsteps).resolve_right (by norm_num)
    split at hlarge
    next hclose =>
      rw [le_antisymm hle hlarge] at hclose
      have := (abs_le.mp hclose).1
      rw [Nat.cast_pow, Nat.cast_ofNat] at this
      linarith
    next =>
      have hfloor : ⌊value x⌋₊ < 10 ^ 7 := (Nat.floor_lt' (by norm_num)).mpr (by exact_mod_cast h)
      omega
  · intro hclose
    have hhigh := (tolerance_mem (10 ^ 7)).2
    have hnearest : nearestWhole (value x) = 10 ^ 7 := by
      refine le_antisymm hle (Nat.le_floor ?_)
      norm_num at hhigh hclose ⊢
      linarith
    have habs : |value x - nearestWhole (value x)| ≤ tolerance (nearestWhole (value x)) := by
      rw [hnearest, abs_sub_comm, Nat.cast_pow, Nat.cast_ofNat, abs_of_pos (sub_pos.mpr h)]
      exact hclose
    rw [if_pos habs, hnearest]
    exact le_max_left _ _

end Grid

namespace Domain

/-- **How many sample points a domain can have.** There can be one more than the limit, and there is if the
quotient of width and resolution is less than a hundredth below it. -/
theorem range_length {name : String} {low high res : Float} {domain : Domain Float}
    (h : Domain.make name low high res = .ok domain) :
    domain.range.length ≤ maxPoints + 1 ∧
      (maxPoints < domain.range.length ↔ (maxPoints : ℚ) - 1 / 100 ≤ Double.value ((high - low) / res)) := by
  obtain ⟨haccepted, hgrid⟩ := Grid.accepted_of_make h
  have hlength : domain.range.length = Grid.steps (Double.value ((high - low) / res)) + 1 := by
    have hlen : domain.range.length = domain.grid.len := by
      simp [range, Grid.points]
    rw [hlen, hgrid]
    exact haccepted.count_eq
  have hlimit : (maxPoints : ℚ) = 10 ^ 7 := by norm_num [maxPoints]
  have hsteps : Grid.steps (Double.value ((high - low) / res)) ≤ 10 ^ 7 :=
    Grid.steps_le (by exact_mod_cast haccepted.ratio_lt) (by norm_num)
  rw [hlength, hlimit, ← Grid.limit_le_steps_iff haccepted.ratio_lt]
  unfold maxPoints
  constructor <;> omega

/-- A domain of ten steps is far from the limit. -/
theorem range_length_ten :
    Domain.make "room" 0.0 10.0 1.0 = .ok ⟨"room", ⟨0.0, 10.0, 11⟩, 1.0, .empty, 1⟩ ∧
      (⟨"room", ⟨0.0, 10.0, 11⟩, 1.0, .empty, 1⟩ : Domain Float).range.length ≤ maxPoints + 1 := by
  have hmake : Domain.make "room" 0.0 10.0 1.0 =
      .ok (⟨"room", ⟨0.0, 10.0, 11⟩, 1.0, .empty, 1⟩ : Domain Float) := by
    rw [make_eq_ok_iff]
    refine ⟨by decide +kernel, by decide +kernel, by decide +kernel, by decide +kernel, ?_⟩
    have hcount : Grid.count (0.0 : Float) 10.0 1.0 = 11 := by decide +kernel
    rw [Grid.ofResolution, hcount]
  exact ⟨hmake, (range_length hmake).1⟩

/-- Half of a hundredth below the limit, and one sample point above it. -/
theorem range_length_exceeds :
    ∃ domain : Domain Float, Domain.make "room" 0.0 9999999.995 1.0 = .ok domain ∧
      domain.range.length = 10000001 ∧ maxPoints = 10000000 := by
  refine ⟨⟨"room", .ofResolution 0.0 9999999.995 1.0, 1.0, .empty, 1⟩, ?_, ?_, rfl⟩
  · rw [make_eq_ok_iff]
    refine ⟨by decide +kernel, by decide +kernel, by decide +kernel, by decide +kernel, rfl⟩
  · have hcount : Grid.count (0.0 : Float) 9999999.995 1.0 = 10000001 := by decide +kernel
    have hlen : (Grid.ofResolution (0.0 : Float) 9999999.995 1.0).points.length =
        Grid.count (0.0 : Float) 9999999.995 1.0 := by simp [Grid.points, Grid.ofResolution]
    exact hlen.trans hcount

end Domain

end FuzzyInference

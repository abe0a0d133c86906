import FuzzyInference.Grid
import FuzzyInference.Proofs.Exact.Scalar

/-!
# Points of a grid

In exact arithmetic every point of a grid lies between its bounds.
-/

set_option linter.unusedSectionVars false

namespace FuzzyInference

open Scalar

namespace Grid

variable {K : Type} [Field K] [LinearOrder K] [IsStrictOrderedRing K] [FloorRing K] [Elementary K]

theorem step_eq (g : Grid K) :
    g.step = if 1 < g.len then (g.high - g.low) / ((g.len - 1 : Nat) : K) else 0 := by
  rw [← zero_literal]
  rfl

theorem point_eq (g : Grid K) (step : K) (i : Nat) :
    g.point step i = if i + 1 = g.len ∧ 1 < g.len then g.high else g.low + step * (i : K) := by
  show (if (decide (i + 1 = g.len) && decide (1 < g.len)) = true then g.high
    else g.low + step * (i : K)) = _
  simp only [Bool.and_eq_true, decide_eq_true_eq]

/-- The steps before a point add up to at most the width. -/
theorem step_mul_mem {g : Grid K} (h : g.low ≤ g.high) {i : Nat} (hi : i < g.len) :
    0 ≤ g.step * (i : K) ∧ g.step * (i : K) ≤ g.high - g.low := by
  have hwidth : 0 ≤ g.high - g.low := sub_nonneg.mpr h
  rw [step_eq]
  by_cases hlen : 1 < g.len
  · rw [if_pos hlen]
    have hpos : (0 : K) < ((g.len - 1 : Nat) : K) := Nat.cast_pos.mpr (by omega)
    have hle : (i : K) ≤ ((g.len - 1 : Nat) : K) := Nat.cast_le.mpr (by omega)
    refine ⟨mul_nonneg (div_nonneg hwidth hpos.le) (Nat.cast_nonneg i), ?_⟩
    rw [div_mul_eq_mul_div, div_le_iff₀ hpos]
    exact mul_le_mul_of_nonneg_left hle hwidth
  · rw [if_neg hlen, zero_mul]
    exact ⟨le_refl 0, hwidth⟩

/-- The points of a grid lie between its bounds. -/
theorem points_mem {g : Grid K} (h : g.low ≤ g.high) {x : K} (hx : x ∈ g.points) :
    g.low ≤ x ∧ x ≤ g.high := by
  obtain ⟨i, hi, rfl⟩ := List.mem_map.mp hx
  have hstep := step_mul_mem h (List.mem_range.mp hi)
  rw [point_eq]
  split
  · exact ⟨h, le_refl _⟩
  · constructor
    · linarith [hstep.1]
    · linarith [hstep.2]

end Grid

end FuzzyInference

import FuzzyInference.Proofs.Double.Complement
import FuzzyInference.Proofs.Defuzzify
import Mathlib.Order.Bounds.Basic

/-!
# The bisector splits the area

The bisector goes over a curve twice: once for its area, and once more until half of that is reached. Both
passes add up the same numbers in the same order, so that the second one, if it goes to the end, arrives at
the area that the first one has found. It therefore stops at the latest where the curve ends, in whatever
arithmetic the area is not less than half of itself. Doubles that are not negative have this property, and
what the sums round does not matter; only where zero is multiplied with infinity there is no area to halve.
In exact arithmetic the step and the scale of the memberships cancel.

## Contents
- `areaFrom`, `area`: what a curve accumulates. `pastHalf`: where half of it has been accumulated.
- `Bisects`, `bisects_of_isLeast`: the bisector is the point at the first of these indices.
- `areaFrom_nonneg`, `half_le`, `isNaN_areaFrom`: areas in doubles. `exists_bisects_of_number`: half of them is
  reached.
- `area_eq`, `mem_pastHalf_iff`: areas in exact arithmetic. `Bisects.drop_le`, `Bisects.take_lt`: the halves.
  `Bisects.bisector_congr`: step and scale cancel.
- `bisector_halves`: the result.
-/

set_option linter.unusedSectionVars false

namespace FuzzyInference

open Scalar

/-! ## The search for half of the area -/

section Reaching

variable {α : Type} [Scalar α]

/-- The area that memberships add to what has been accumulated before. -/
def areaFrom (step cumulative : α) (membership : List α) : α :=
  membership.foldl (fun area m => area + m * step) cumulative

/-- The area of a curve, accumulated from left to right. -/
def area (step : α) (membership : List α) : α := areaFrom step 0.0 membership

/-- The indices up to which at least half of the area has been accumulated. -/
def pastHalf (step : α) (membership : List α) : Set ℕ :=
  {i | i < membership.length ∧ area step membership / (1.0 + 1.0) ≤ area step (membership.take (i + 1))}

variable {points membership : List α} {step half cumulative : α} {i : ℕ}

/-- The bisector is the first point past half of the area, or the last point. -/
theorem bisector_eq (points membership : List α) (step : α) :
    bisector points membership step =
      (firstReaching step (area step membership / (1.0 + 1.0)) 0.0 (points.zip membership)).or
        points.getLast? := rfl

/-- The search stops at the first index at which enough has been accumulated. -/
theorem firstReaching_eq_getElem? (hlen : points.length = membership.length) (hi : i < membership.length)
    (hreached : half ≤ areaFrom step cumulative (membership.take (i + 1)))
    (hbefore : ∀ j < i, ¬ half ≤ areaFrom step cumulative (membership.take (j + 1))) :
    firstReaching step half cumulative (points.zip membership) = points[i]? := by
  induction membership generalizing points cumulative i with
  | nil => exact absurd hi (Nat.not_lt_zero i)
  | cons m ms ih =>
    cases points with
    | nil => cases hlen
    | cons p ps =>
      rw [List.zip_cons_cons, firstReaching]
      cases i with
      | zero =>
        have hfirst : half ≤ cumulative + m * step := hreached
        rw [if_pos hfirst, List.getElem?_cons_zero]
      | succ i =>
        have hfirst : ¬ half ≤ cumulative + m * step := hbefore 0 (Nat.succ_pos i)
        rw [if_neg hfirst, List.getElem?_cons_succ]
        refine ih (Nat.succ.inj hlen) (Nat.lt_of_succ_lt_succ hi) hreached ?_
        intro j hj
        exact hbefore (j + 1) (Nat.succ_lt_succ hj)

/-- Where there is never enough it finds nothing. -/
theorem firstReaching_eq_none
    (hnever : ∀ i < membership.length, ¬ half ≤ areaFrom step cumulative (membership.take (i + 1))) :
    firstReaching step half cumulative (points.zip membership) = none := by
  induction membership generalizing points cumulative with
  | nil => simp [firstReaching]
  | cons m ms ih =>
    cases points with
    | nil => rfl
    | cons p ps =>
      have hfirst : ¬ half ≤ cumulative + m * step := hnever 0 (Nat.succ_pos _)
      rw [List.zip_cons_cons, firstReaching, if_neg hfirst]
      apply ih
      intro i hi
      exact hnever (i + 1) (Nat.succ_lt_succ hi)

/-- The bisector is the point at an index, the first one past half of the area, and the search has found it:
the last point does not have to stand in. -/
structure Bisects (points membership : List α) (step : α) (i : ℕ) : Prop where
  first : IsLeast (pastHalf step membership) i
  found : firstReaching step (area step membership / (1.0 + 1.0)) 0.0 (points.zip membership) = points[i]?
  answer : bisector points membership step = points[i]?

/-- The least index past half of the area bisects. -/
theorem bisects_of_isLeast (hlen : points.length = membership.length)
    (h : IsLeast (pastHalf step membership) i) : Bisects points membership step i := by
  obtain ⟨⟨hi, hreached⟩, hleast⟩ := id h
  have hbefore : ∀ j < i, ¬ area step membership / (1.0 + 1.0) ≤ area step (membership.take (j + 1)) := by
    intro j hj hhalf
    exact absurd (hleast ⟨hj.trans hi, hhalf⟩) (not_le.mpr hj)
  have hfound := firstReaching_eq_getElem? hlen hi hreached hbefore
  have hpoint : points[i]? = some points[i] := List.getElem?_eq_getElem (hlen ▸ hi)
  refine ⟨h, hfound, ?_⟩
  rw [bisector_eq, hfound, hpoint]
  rfl

theorem bisector_of_empty (h : pastHalf step membership = ∅) :
    firstReaching step (area step membership / (1.0 + 1.0)) 0.0 (points.zip membership) = none ∧
      bisector points membership step = points.getLast? := by
  have hnone : firstReaching step (area step membership / (1.0 + 1.0)) 0.0 (points.zip membership) = none := by
    apply firstReaching_eq_none
    intro i hi hhalf
    have hmem : i ∈ pastHalf step membership := ⟨hi, hhalf⟩
    rw [h] at hmem
    exact hmem
  refine ⟨hnone, ?_⟩
  rw [bisector_eq, hnone, Option.none_or]

/-- The second pass ends at the area that the first one has found. -/
theorem exists_bisects (hlen : points.length = membership.length) (hne : points ≠ [])
    (h : area step membership / (1.0 + 1.0) ≤ area step membership) :
    ∃ i, Bisects points membership step i := by
  have hpos : 0 < membership.length := hlen ▸ List.length_pos_of_ne_nil hne
  have hlast : membership.length - 1 ∈ pastHalf step membership := by
    refine ⟨by omega, ?_⟩
    rwa [Nat.sub_add_cancel hpos, List.take_length]
  classical
  have hleast : IsLeast (pastHalf step membership) (Nat.find ⟨_, hlast⟩) :=
    ⟨Nat.find_spec ⟨_, hlast⟩, fun j hj => Nat.find_min' _ hj⟩
  exact ⟨_, bisects_of_isLeast hlen hleast⟩

end Reaching

/-! ## Areas in doubles -/

namespace Double

variable {x step cumulative : Float} {membership : List Float}

/-- Half of a number that is not negative is not larger than the number, be it infinite. -/
theorem half_le (h : (0.0 : Float) ≤ x) : x / (1.0 + 1.0) ≤ x := by
  have hsum : (1 + 1 : ℚ) = 2 := by norm_num
  have htwo : Within 2 2 (1.0 + 1.0 : Float) := by
    have htwo := within_one.add within_one (hsum ▸ exact_two) (hsum ▸ exact_two)
    rwa [hsum] at htwo
  rcases zero_le_iff.mp h with ⟨hx, h0⟩ | hinfinite
  · change 0 ≤ value x at h0
    have hhalf : Within 0 (value x) (x / (1.0 + 1.0)) := by
      refine (rounds_div hx htwo.finite ?_).within exact_zero (exact_value hx) ?_ ?_ <;> rw [htwo.value_eq]
      · norm_num
      · linarith
      · linarith
    exact (le_iff_value hhalf.finite hx).mpr hhalf.ge
  · have hpos : (0.0 : Float) < 1.0 / 0.0 := by decide +kernel
    have hlarge : isInfinite (1.0 / 0.0 : Float) = true := by decide +kernel
    obtain ⟨s, hs⟩ := infinity_of_isInfinite hlarge
    rcases pos_iff.mp hpos with ⟨m, e, hm, hfinite⟩ | hpositive
    · rw [hs] at hfinite
      cases hfinite
    · rw [eq_of_infinity hinfinite hpositive]
      decide +kernel

/-- A membership contributes a number unless it is zero and the step infinite. -/
theorem isNaN_contribution_iff {m : Float} (hm : (0.0 : Float) ≤ m) (hstep : (0.0 : Float) < step) :
    isNaN (m * step) = true ↔ isInfinite step = true ∧ (m == 0.0) = true := by
  have hpos : (step == 0.0) = false := beq_zero_of_pos hstep
  rw [isNaN_mul_iff (not_isNaN_of_le hm).2 (not_isNaN_of_lt hstep).2, hpos]
  simp [and_comm]

/-- Without a NaN product, running areas are not negative. -/
theorem areaFrom_nonneg (hstep : (0.0 : Float) < step) (hmembership : ∀ m ∈ membership, (0.0 : Float) ≤ m)
    (hnumber : ∀ m ∈ membership, ¬ isNaN (m * step) = true) (hcumulative : (0.0 : Float) ≤ cumulative) :
    (0.0 : Float) ≤ areaFrom step cumulative membership := by
  induction membership generalizing cumulative with
  | nil => exact hcumulative
  | cons m ms ih =>
    obtain ⟨hm, hms⟩ := List.forall_mem_cons.mp hmembership
    obtain ⟨hnm, hnms⟩ := List.forall_mem_cons.mp hnumber
    have hcontribution : (0.0 : Float) ≤ m * step :=
      mul_nonneg_of_not_isNaN hm (le_of_less hstep) (Bool.eq_false_iff.mpr hnm)
    exact ih hms hnms (zero_le_add hcumulative hcontribution)

/-- NaN, once accumulated, stays. -/
theorem isNaN_areaFrom (h : isNaN cumulative = true ∨ ∃ m ∈ membership, isNaN (m * step) = true) :
    isNaN (areaFrom step cumulative membership) = true := by
  induction membership generalizing cumulative with
  | nil =>
    rcases h with h | ⟨m, hm, -⟩
    · exact h
    · cases hm
  | cons m ms ih =>
    apply ih
    rcases h with h | ⟨m', hm', h⟩
    · exact Or.inl (isNaN_add_left h)
    · rcases List.mem_cons.mp hm' with rfl | hm'
      · exact Or.inl (isNaN_add_right h)
      · exact Or.inr ⟨m', hm', h⟩

/-- A NaN product makes the total NaN, and no area reaches half of that. -/
theorem pastHalf_eq_empty (h : ∃ m ∈ membership, isNaN (m * step) = true) :
    pastHalf step membership = ∅ := by
  have hhalf : isNaN (area step membership / (1.0 + 1.0)) = true := isNaN_div_left (isNaN_areaFrom (Or.inr h))
  ext i
  refine iff_of_false ?_ (Set.notMem_empty i)
  rintro ⟨-, hle⟩
  rw [(not_isNaN_of_le hle).1] at hhalf
  cases hhalf

/-- Without a NaN product some index bisects, infinite areas included. -/
theorem exists_bisects_of_number {points : List Float} (hlen : points.length = membership.length)
    (hne : points ≠ []) (hnonneg : ∀ m ∈ membership, (0.0 : Float) ≤ m) (hstep : (0.0 : Float) < step)
    (hnumber : ¬ (isInfinite step = true ∧ ∃ m ∈ membership, (m == 0.0) = true)) :
    ∃ i, Bisects points membership step i := by
  have hall : ∀ m ∈ membership, ¬ isNaN (m * step) = true := by
    intro m hm hnan
    obtain ⟨hinfinite, hzero⟩ := (isNaN_contribution_iff (hnonneg m hm) hstep).mp hnan
    exact hnumber ⟨hinfinite, m, hm, hzero⟩
  have harea : (0.0 : Float) ≤ area step membership :=
    areaFrom_nonneg hstep hnonneg hall (Ordered.le_refl within_zero.not_isNaN)
  exact exists_bisects hlen hne (half_le harea)

end Double

/-! ## Areas in exact arithmetic -/

section Exact

variable {K : Type} [Field K] [LinearOrder K] [IsStrictOrderedRing K] [FloorRing K] [Elementary K]
variable {points membership : List K} {step : K} {i : ℕ}

theorem area_eq (step : K) (membership : List K) : area step membership = membership.sum * step := by
  have h := foldl_add (fun m : K => m * step) membership (0.0 : K)
  rw [zero_literal, zero_add, List.sum_map_mul_right, List.map_id'] at h
  rw [← h, ← zero_literal]
  rfl

/-- The step cancels. -/
theorem mem_pastHalf_iff (hstep : 0 < step) : i ∈ pastHalf step membership ↔
    i < membership.length ∧ membership.sum ≤ 2 * (membership.take (i + 1)).sum := by
  have htwo : (1.0 + 1.0 : K) = 2 := by norm_num
  show i < _ ∧ area step membership / (1.0 + 1.0) ≤ area step (membership.take (i + 1)) ↔ _
  rw [area_eq, area_eq, htwo, div_le_iff₀ two_pos, mul_right_comm, mul_le_mul_iff_left₀ hstep,
    mul_comm (List.sum _) 2]

/-- Scaling heights and step moves no index past half of the area. -/
theorem pastHalf_congr {other : List K} {step' c : K} (hstep : 0 < step) (hstep' : 0 < step') (hc : 0 < c)
    (h : other = membership.map (c * ·)) : pastHalf step' other = pastHalf step membership := by
  ext i
  have hsum : ∀ ms : List K, (ms.map (c * ·)).sum = c * ms.sum := by
    intro ms
    rw [List.sum_map_mul_left, List.map_id']
  rw [mem_pastHalf_iff hstep, mem_pastHalf_iff hstep', h, List.length_map, ← List.map_take, hsum, hsum,
    mul_left_comm 2, mul_le_mul_iff_right₀ hc]

/-- At most half of the area lies after the index, -/
theorem Bisects.drop_le (h : Bisects points membership step i) (hstep : 0 < step) :
    area step (membership.drop (i + 1)) ≤ area step membership / 2 := by
  obtain ⟨-, hhalf⟩ := (mem_pastHalf_iff hstep).mp h.first.1
  have hsplit : (membership.take (i + 1)).sum + (membership.drop (i + 1)).sum = membership.sum :=
    List.sum_take_add_sum_drop ..
  rw [area_eq, area_eq, mul_div_right_comm]
  refine mul_le_mul_of_nonneg_right ?_ hstep.le
  linarith

/-- and less than half before it, -/
theorem Bisects.take_lt (h : Bisects points membership step i) (hstep : 0 < step)
    (hpos : 0 < area step membership) : area step (membership.take i) < area step membership / 2 := by
  rw [area_eq] at hpos
  have hsum : 0 < membership.sum := (mul_pos_iff_of_pos_right hstep).mp hpos
  have htake : 2 * (membership.take i).sum < membership.sum := by
    cases i with
    | zero => simpa using hsum
    | succ j =>
      by_contra hhalf
      have hj : j < membership.length := (Nat.lt_succ_self j).trans h.first.1.1
      have hle : j + 1 ≤ j := h.first.2 ((mem_pastHalf_iff hstep).mpr ⟨hj, not_lt.mp hhalf⟩)
      omega
  rw [area_eq, area_eq, mul_div_right_comm]
  refine mul_lt_mul_of_pos_right ?_ hstep
  linarith

/-- or the index is the first one, if there is no area. -/
theorem Bisects.eq_zero (h : Bisects points membership step i) (hstep : 0 < step)
    (hnonneg : ∀ m ∈ membership, 0 ≤ m) (hzero : area step membership = 0) : i = 0 := by
  rw [area_eq] at hzero
  have hsum : membership.sum = 0 := (mul_eq_zero.mp hzero).resolve_right hstep.ne'
  have htake : 0 ≤ (membership.take 1).sum :=
    List.sum_nonneg fun m hm => hnonneg m (List.mem_of_mem_take hm)
  have hmem : 0 ∈ pastHalf step membership := by
    refine (mem_pastHalf_iff hstep).mpr ⟨(Nat.zero_le i).trans_lt h.first.1.1, ?_⟩
    rw [hsum]
    exact mul_nonneg two_pos.le htake
  exact Nat.le_zero.mp (h.first.2 hmem)

/-- Over an ordered field some index always bisects. -/
theorem exists_bisects_of_exact (hlen : points.length = membership.length) (hne : points ≠ [])
    (hnonneg : ∀ m ∈ membership, 0 ≤ m) (hstep : 0 < step) : ∃ i, Bisects points membership step i := by
  apply exists_bisects hlen hne
  have htwo : (1.0 + 1.0 : K) = 2 := by norm_num
  rw [area_eq, htwo]
  exact half_le_self (mul_nonneg (List.sum_nonneg hnonneg) hstep.le)

/-- Other steps and other scales have the same bisector. -/
theorem Bisects.bisector_congr {other : List K} {step' c : K} (h : Bisects points membership step i)
    (hlen : points.length = membership.length) (hstep : 0 < step) (hstep' : 0 < step') (hc : 0 < c)
    (hother : other = membership.map (c * ·)) :
    bisector points other step' = bisector points membership step := by
  have hleast : IsLeast (pastHalf step' other) i := pastHalf_congr hstep hstep' hc hother ▸ h.first
  have hlen' : points.length = other.length := by rw [hother, List.length_map, hlen]
  rw [(bisects_of_isLeast hlen' hleast).answer, h.answer]

end Exact

/-! ## The result -/

/-- **The bisector splits the area.** In doubles, for memberships that are not negative and a positive step, it
is the point at the first index past half of the area, unless some membership is zero and the step infinite:
then nothing is past half of the area, and the last point stands in. In exact arithmetic at most half of the
area lies after that index and less than half before it, or there is no area and the index is the first one;
neither the step nor the scale of the memberships has any influence. -/
theorem bisector_halves {K : Type} [Field K] [LinearOrder K] [IsStrictOrderedRing K] [FloorRing K]
    [Elementary K] :
    (∀ (points membership : List Float) (step : Float), points.length = membership.length → points ≠ [] →
      (∀ m ∈ membership, (0.0 : Float) ≤ m) → (0.0 : Float) < step →
        (¬ (isInfinite step = true ∧ ∃ m ∈ membership, (m == 0.0) = true) →
          ∃ i, Bisects points membership step i) ∧
        (isInfinite step = true ∧ (∃ m ∈ membership, (m == 0.0) = true) →
          firstReaching step (area step membership / (1.0 + 1.0)) 0.0 (points.zip membership) = none ∧
            bisector points membership step = points.getLast?)) ∧
    ∀ (points membership : List K) (step : K), points.length = membership.length → points ≠ [] →
      (∀ m ∈ membership, 0 ≤ m) → 0 < step →
        (∃ i, Bisects points membership step i ∧
          area step (membership.drop (i + 1)) ≤ area step membership / 2 ∧
          (0 < area step membership → area step (membership.take i) < area step membership / 2) ∧
          (area step membership = 0 → i = 0)) ∧
        (∀ step', 0 < step' → bisector points membership step' = bisector points membership step) ∧
        ∀ c, 0 < c → bisector points (membership.map (c * ·)) step = bisector points membership step := by
  constructor
  case left =>
    intro points membership step hlen hne hnonneg hstep
    refine ⟨Double.exists_bisects_of_number hlen hne hnonneg hstep, ?_⟩
    rintro ⟨hinfinite, m, hm, hzero⟩
    have hnan := (Double.isNaN_contribution_iff (hnonneg m hm) hstep).mpr ⟨hinfinite, hzero⟩
    exact bisector_of_empty (Double.pastHalf_eq_empty ⟨m, hm, hnan⟩)
  case right =>
    intro points membership step hlen hne hnonneg hstep
    obtain ⟨i, h⟩ := exists_bisects_of_exact hlen hne hnonneg hstep
    refine ⟨⟨i, h, h.drop_le hstep, h.take_lt hstep, h.eq_zero hstep hnonneg⟩, ?_, ?_⟩
    · intro step' hstep'
      exact h.bisector_congr hlen hstep hstep' one_pos (by simp)
    · intro c hc
      exact h.bisector_congr hlen hstep hstep hc rfl

/-- Zeros at both ends, sums that round, and areas close to the largest double. -/
theorem bisector_halves_zeroRuns :
    let points : List Float := [3.0, -1.0, 2.0, 0.5]
    let membership : List Float := [0.0, 0.1, 0.7, 0.0]
    points.length = membership.length ∧ points ≠ [] ∧ (∀ m ∈ membership, (0.0 : Float) ≤ m) ∧
      (0.0 : Float) < 1e308 ∧ ¬ (isInfinite (1e308 : Float) = true ∧ ∃ m ∈ membership, (m == 0.0) = true) ∧
      (∃ i, Bisects points membership 1e308 i) ∧
      (∀ m ∈ [0, 1 / 3, 1 / 2, 0], (0 : ℚ) ≤ m) ∧
      (∃ i, Bisects [3, -1, 2, 1 / 2] [0, 1 / 3, 1 / 2, 0] (1 / 5 : ℚ) i ∧
        area (1 / 5) ([0, 1 / 3, 1 / 2, 0].drop (i + 1)) ≤ area (1 / 5 : ℚ) [0, 1 / 3, 1 / 2, 0] / 2) := by
  intro points membership
  have hlen : points.length = membership.length := by simp [points, membership]
  obtain ⟨hdoubles, hexact⟩ := bisector_halves (K := ℚ)
  have hnonneg : ∀ m ∈ membership, (0.0 : Float) ≤ m := by decide +kernel
  have hstep : (0.0 : Float) < 1e308 := by decide +kernel
  have hfinite : isInfinite (1e308 : Float) = false := by decide +kernel
  have hnumber : ¬ (isInfinite (1e308 : Float) = true ∧ ∃ m ∈ membership, (m == 0.0) = true) := by
    simp [hfinite]
  have hnonneg' : ∀ m ∈ [0, 1 / 3, 1 / 2, 0], (0 : ℚ) ≤ m := by decide +kernel
  have hbisects := (hdoubles points membership 1e308 hlen (List.cons_ne_nil _ _) hnonneg hstep).1 hnumber
  have hhalves := (hexact [3, -1, 2, 1 / 2] [0, 1 / 3, 1 / 2, 0] (1 / 5) rfl (List.cons_ne_nil _ _) hnonneg'
    (by norm_num)).1
  obtain ⟨i, hi, hdrop, -⟩ := hhalves
  exact ⟨hlen, List.cons_ne_nil _ _, hnonneg, hstep, hnumber, hbisects, hnonneg', i, hi, hdrop⟩

/-- Zero times infinity is NaN, and half of NaN is never reached: all of the mass lies at the first point, and
the answer is the last one. -/
theorem bisector_infiniteStep :
    [1.0, 2.0].length = ([1.0, 0.0] : List Float).length ∧ (∀ m ∈ [1.0, 0.0], (0.0 : Float) ≤ m) ∧
      (0.0 : Float) < 1.0 / 0.0 ∧ pastHalf (1.0 / 0.0) [1.0, 0.0] = (∅ : Set ℕ) ∧
      firstReaching (1.0 / 0.0) (area (1.0 / 0.0) [1.0, 0.0] / (1.0 + 1.0)) (0.0 : Float)
        ([1.0, 2.0].zip [1.0, 0.0]) = none ∧
      bisector [1.0, 2.0] [1.0, 0.0] (1.0 / 0.0 : Float) = some 2.0 := by
  refine ⟨by simp, by decide +kernel, by decide +kernel, ?_, by decide +kernel, by decide +kernel⟩
  exact Double.pastHalf_eq_empty ⟨0.0, by simp, by decide +kernel⟩

end FuzzyInference

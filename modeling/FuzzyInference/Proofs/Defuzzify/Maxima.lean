import FuzzyInference.Proofs.Defuzzify
import Mathlib.Order.Bounds.Basic

/-!
# Defuzzified values and the maxima of the curve

In exact arithmetic every method but the center of gravity has an answer, and so has that one unless all
memberships are zero. The methods of the maximum are known by the points near it, those whose membership is
less than the tolerance away from the largest one. There always is such a point, and their mean lies between
the first and the last of them.

## Contents
- `isLeast_smallest`, `isGreatest_largest`: the ends of a list.
- `pickBy_lesser`, `pickBy_greater`: a pick from some numbers is their smallest or largest one.
- `nearMaximum`, `nearMaximum_eq`, `maximalPoints_ne_nil_of_exact`: the points near the maximum.
- `som_isLeast`, `lom_isGreatest`, `exists_mom`: the methods of the maximum.
- `apply_eq_none_iff`, `mem_of_apply`: the other methods with them.
- `apply_between`: the result.
-/

set_option linter.unusedSectionVars false

namespace FuzzyInference

open Scalar

variable {K : Type} [Field K] [LinearOrder K] [IsStrictOrderedRing K] [FloorRing K] [Elementary K]
variable {points membership xs : List K} {step v : K}

/-! ## Smallest and largest -/

theorem isLeast_smallest (hne : xs ≠ []) : IsLeast {x | x ∈ xs} (smallest xs) := by
  refine ⟨smallest_mem hne, ?_⟩
  intro x hx
  exact (Ordered.le_smallest_iff hne fun _ _ => rfl).mp (le_refl (smallest xs)) x hx

theorem isGreatest_largest (hne : xs ≠ []) : IsGreatest {x | x ∈ xs} (largest xs) := by
  refine ⟨largest_mem hne, ?_⟩
  intro x hx
  exact (Ordered.le_largest_iff hne fun _ _ => rfl).mpr ⟨x, hx, le_refl x⟩

theorem pickBy_lesser (hne : xs ≠ []) : pickBy lesser xs = some (smallest xs) := by
  cases xs with
  | nil => exact absurd rfl hne
  | cons x xs => rfl

theorem pickBy_greater (hne : xs ≠ []) : pickBy greater xs = some (largest xs) := by
  cases xs with
  | nil => exact absurd rfl hne
  | cons x xs => rfl

/-! ## Near the maximum -/

/-- The points whose membership is less than the tolerance away from `maximum`. -/
def nearMaximum (points membership : List K) (maximum : K) : Set K :=
  {x | ∃ m, (x, m) ∈ points.zip membership ∧ |m - maximum| < 1 / 10 ^ 6}

theorem maximumTolerance_eq : (maximumTolerance : K) = 1 / 10 ^ 6 := by
  norm_num [maximumTolerance]

/-- The points collected are those with a membership near the largest. -/
theorem mem_maximalPoints_iff (hne : membership ≠ []) :
    v ∈ maximalPoints points membership ↔ v ∈ nearMaximum points membership (largest membership) := by
  unfold maximalPoints
  rw [pickBy_greater hne]
  simp only [List.mem_filterMap, Prod.exists, Option.ite_none_right_eq_some, Option.some.injEq,
    maximumTolerance_eq]
  constructor
  · rintro ⟨x, m, hmem, hclose, rfl⟩
    exact ⟨m, hmem, hclose⟩
  · rintro ⟨m, hmem, hclose⟩
    exact ⟨v, m, hmem, hclose, rfl⟩

theorem nearMaximum_eq (hne : membership ≠ []) : nearMaximum points membership (largest membership) =
    {x | x ∈ maximalPoints points membership} :=
  Set.ext fun _ => (mem_maximalPoints_iff hne).symm

/-- In exact arithmetic nothing has to be finite for that. -/
theorem maximalPoints_ne_nil_of_exact (hlen : points.length = membership.length)
    (hne : membership ≠ []) : maximalPoints points membership ≠ [] := by
  refine maximalPoints_ne_nil_of_close hlen hne fun m _ => ?_
  show |m - m| < maximumTolerance
  rw [maximumTolerance_eq, sub_self, abs_zero]
  positivity

/-! ## The methods of the maximum -/

/-- The first of the maxima is the least point with a membership near the largest. -/
theorem som_isLeast (hlen : points.length = membership.length) (hne : membership ≠ []) :
    ∃ s, som points membership = some s ∧
      IsLeast (nearMaximum points membership (largest membership)) s := by
  have hmaxima := maximalPoints_ne_nil_of_exact hlen hne
  refine ⟨_, pickBy_lesser hmaxima, ?_⟩
  rw [nearMaximum_eq hne]
  exact isLeast_smallest hmaxima

/-- The last of the maxima is the greatest such point. -/
theorem lom_isGreatest (hlen : points.length = membership.length) (hne : membership ≠ []) :
    ∃ l, lom points membership = some l ∧
      IsGreatest (nearMaximum points membership (largest membership)) l := by
  have hmaxima := maximalPoints_ne_nil_of_exact hlen hne
  refine ⟨_, pickBy_greater hmaxima, ?_⟩
  rw [nearMaximum_eq hne]
  exact isGreatest_largest hmaxima

/-- The mean lies between any bounds of the points near the maximum. -/
theorem exists_mom (hlen : points.length = membership.length) (hne : membership ≠ []) {s l : K}
    (hs : IsLeast (nearMaximum points membership (largest membership)) s)
    (hl : IsGreatest (nearMaximum points membership (largest membership)) l) :
    ∃ m, mom points membership = some m ∧ s ≤ m ∧ m ≤ l := by
  have hmaxima := maximalPoints_ne_nil_of_exact hlen hne
  refine ⟨_, mom_of_maximal rfl hmaxima, mean_mem hmaxima ?_⟩
  intro x hx
  rw [mem_maximalPoints_iff hne] at hx
  exact ⟨hs.2 hx, hl.2 hx⟩

/-! ## All methods -/

/-- Only the centroid of a curve without area answers nothing. -/
theorem apply_eq_none_iff (hlen : points.length = membership.length) (hne : points ≠ []) {method : Method} :
    method.apply points membership step = none ↔ method = .cog ∧ membership.sum = 0 := by
  have hne' : membership ≠ [] := by
    rintro rfl
    exact hne (List.length_eq_zero_iff.mp hlen)
  obtain ⟨s, hsom, hs⟩ := som_isLeast hlen hne'
  obtain ⟨l, hlom, hl⟩ := lom_isGreatest hlen hne'
  obtain ⟨m, hmom, -⟩ := exists_mom hlen hne' hs hl
  cases method with
  | cog =>
    show centroid points membership = none ↔ _
    rw [centroid_eq, List.map_snd_zip (le_of_eq hlen.symm)]
    simp
  | bisector => simp [Method.apply, bisector, hne]
  | mom => simp [Method.apply, hmom]
  | som => simp [Method.apply, hsom]
  | lom => simp [Method.apply, hlom]

/-- The methods that pick a point. -/
theorem mem_of_apply {method : Method} (hmethod : method ∈ [Method.som, .lom, .bisector])
    (h : method.apply points membership step = some v) : v ∈ points := by
  simp only [List.mem_cons, List.not_mem_nil, or_false] at hmethod
  rcases hmethod with rfl | rfl | rfl
  · exact mem_of_som h
  · exact mem_of_lom h
  · exact mem_of_bisector h

/-- **Every method stays within the curve.** In exact arithmetic, over at least one point and for memberships
that are not negative, no method but the center of gravity fails, and that one fails only if the memberships
add up to zero. Answers lie between the smallest and the largest point. The smallest and the largest of the
maximum are the ends of what is less than `1e-6` away from it in membership, the mean of the maximum lies
between them, and these two and the bisector are points. -/
theorem apply_between (hlen : points.length = membership.length) (hne : points ≠ [])
    (hnonneg : ∀ m ∈ membership, 0 ≤ m) (step : K) :
    (∀ method : Method, method.apply points membership step = none ↔ method = .cog ∧ membership.sum = 0) ∧
      (∃ low high, IsLeast {p | p ∈ points} low ∧ IsGreatest {p | p ∈ points} high ∧
        ∀ method : Method, ∀ v, method.apply points membership step = some v →
          low ≤ v ∧ v ≤ high ∧ (method ∈ [Method.som, .lom, .bisector] → v ∈ points)) ∧
      ∃ maximum s m l, IsGreatest {m | m ∈ membership} maximum ∧
        Method.som.apply points membership step = some s ∧
        Method.mom.apply points membership step = some m ∧
        Method.lom.apply points membership step = some l ∧
        IsLeast (nearMaximum points membership maximum) s ∧
        IsGreatest (nearMaximum points membership maximum) l ∧ s ≤ m ∧ m ≤ l := by
  have hne' : membership ≠ [] := by
    rintro rfl
    exact hne (List.length_eq_zero_iff.mp hlen)
  refine ⟨fun method => apply_eq_none_iff hlen hne, ?_, ?_⟩
  · have hlow := isLeast_smallest hne
    have hhigh := isGreatest_largest hne
    refine ⟨smallest points, largest points, hlow, hhigh, ?_⟩
    intro method v hv
    obtain ⟨hle, hge⟩ := apply_mem (fun p hp => ⟨hlow.2 hp, hhigh.2 hp⟩) hnonneg hv
    exact ⟨hle, hge, fun hmethod => mem_of_apply hmethod hv⟩
  · obtain ⟨s, hsom, hs⟩ := som_isLeast hlen hne'
    obtain ⟨l, hlom, hl⟩ := lom_isGreatest hlen hne'
    obtain ⟨m, hmom, hsm, hml⟩ := exists_mom hlen hne' hs hl
    exact ⟨largest membership, s, m, l, isGreatest_largest hne', hsom, hmom, hlom, hs, hl, hsm, hml⟩

/-- Points in no order, with two of them near the maximum. -/
theorem apply_between_unordered :
    [3, 1, 2].length = [1 / 2, 1 / 4, 1 / 2 - 1 / 10 ^ 7].length ∧ ([3, 1, 2] : List ℚ) ≠ [] ∧
      (∀ m ∈ [1 / 2, 1 / 4, 1 / 2 - 1 / 10 ^ 7], (0 : ℚ) ≤ m) ∧
      ∃ s m l : ℚ, som [3, 1, 2] [1 / 2, 1 / 4, 1 / 2 - 1 / 10 ^ 7] = some s ∧
        mom [3, 1, 2] [1 / 2, 1 / 4, 1 / 2 - 1 / 10 ^ 7] = some m ∧
        lom [3, 1, 2] [1 / 2, 1 / 4, 1 / 2 - 1 / 10 ^ 7] = some l ∧ s ≤ m ∧ m ≤ l := by
  have hlen : ([3, 1, 2] : List ℚ).length = ([1 / 2, 1 / 4, 1 / 2 - 1 / 10 ^ 7] : List ℚ).length := rfl
  have hne : ([3, 1, 2] : List ℚ) ≠ [] := List.cons_ne_nil _ _
  have hnonneg : ∀ m ∈ [1 / 2, 1 / 4, 1 / 2 - 1 / 10 ^ 7], (0 : ℚ) ≤ m := by decide +kernel
  obtain ⟨-, -, -, s, m, l, -, hsom, hmom, hlom, -, -, hsm, hml⟩ := apply_between hlen hne hnonneg 1
  exact ⟨rfl, hne, hnonneg, s, m, l, hsom, hmom, hlom, hsm, hml⟩

end FuzzyInference

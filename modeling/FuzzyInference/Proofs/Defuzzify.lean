import FuzzyInference.Defuzzify
import FuzzyInference.Proofs.Exact.Scalar
import FuzzyInference.Proofs.Scalar.Ordered
import Mathlib.Algebra.Order.BigOperators.Group.List

/-!
# Defuzzified values lie among the points

Every method answers a point of the curve or a mean of points, so its answer lies in any interval that
holds the points. For the methods that pick a point this needs no arithmetic; for the means it holds in
exact arithmetic, for the centroid with memberships that are not negative.

## Contents
- `mem_of_pickBy`, `mem_of_maximalPoints`, `mem_of_som`, `mem_of_lom`, `mem_of_bisector`.
- `maximalPoints_ne_nil_of_close`: there are points near the maximum.
- `weightedMean_mem`: a mean with weights lies between the bounds of what it is the mean of.
- `centroid_eq`, `centroid_mem`, `mom_of_maximal`, `mom_mem`, `apply_mem`.
-/

set_option linter.unusedSectionVars false

namespace FuzzyInference

open Scalar

/-! ## Methods that pick a point -/

section Picking

variable {α : Type} [Scalar α]

/-- A running choice between two answers one of the list. -/
theorem mem_of_pickBy {pick : α → α → α} (hpick : ∀ u v, pick u v = u ∨ pick u v = v)
    {xs : List α} {x : α} (h : pickBy pick xs = some x) : x ∈ xs := by
  cases xs with
  | nil => cases h
  | cons y ys =>
    rw [← Option.some.inj h]
    exact foldl_pick_mem hpick y ys

theorem mem_of_maximalPoints {points membership : List α} {x : α}
    (h : x ∈ maximalPoints points membership) : x ∈ points := by
  unfold maximalPoints at h
  cases hmax : pickBy greater membership with
  | none =>
    rw [hmax] at h
    cases h
  | some maximum =>
    rw [hmax] at h
    obtain ⟨⟨y, m⟩, hmem, hy⟩ := List.mem_filterMap.mp h
    dsimp only at hy
    by_cases hclose : abs (m - maximum) < maximumTolerance
    · rw [if_pos hclose] at hy
      exact Option.some.inj hy ▸ (List.of_mem_zip hmem).1
    · rw [if_neg hclose] at hy
      cases hy

/-- The largest membership is near itself, if its distance from itself is computed as less than the
    tolerance. -/
theorem maximalPoints_ne_nil_of_close {points membership : List α} (hlen : points.length = membership.length)
    (hne : membership ≠ []) (hclose : ∀ m ∈ membership, abs (m - m) < maximumTolerance) :
    maximalPoints points membership ≠ [] := by
  obtain ⟨first, rest, rfl⟩ := List.exists_cons_of_ne_nil hne
  obtain ⟨maximum, hmaximum⟩ : ∃ m, pickBy greater (first :: rest) = some m := ⟨_, rfl⟩
  have hmem := mem_of_pickBy greater_cases hmaximum
  have hself := hclose maximum hmem
  rw [← List.map_snd_zip (le_of_eq hlen.symm)] at hmem
  obtain ⟨⟨x, m⟩, hzip, rfl⟩ := List.mem_map.mp hmem
  unfold maximalPoints
  rw [hmaximum]
  exact List.ne_nil_of_mem (a := x) (List.mem_filterMap.mpr ⟨(x, m), hzip, if_pos hself⟩)

theorem mem_of_som {points membership : List α} {x : α} (h : som points membership = some x) :
    x ∈ points :=
  mem_of_maximalPoints (mem_of_pickBy lesser_cases h)

theorem mem_of_lom {points membership : List α} {x : α} (h : lom points membership = some x) :
    x ∈ points :=
  mem_of_maximalPoints (mem_of_pickBy greater_cases h)

/-- The loop answers a point that it has passed. -/
theorem mem_of_firstReaching {step half cumulative : α} {curve : List (α × α)} {x : α}
    (h : firstReaching step half cumulative curve = some x) : x ∈ curve.map Prod.fst := by
  induction curve generalizing cumulative with
  | nil => cases h
  | cons entry rest ih =>
    obtain ⟨y, m⟩ := entry
    rw [firstReaching] at h
    split at h
    · rw [← Option.some.inj h]
      exact List.mem_cons_self ..
    · exact List.mem_cons_of_mem _ (ih h)

theorem mem_of_bisector {points membership : List α} {step x : α}
    (h : bisector points membership step = some x) : x ∈ points := by
  unfold bisector at h
  rcases Option.or_eq_some_iff.mp h with hfirst | ⟨-, hlast⟩
  · obtain ⟨⟨y, m⟩, hmem, rfl⟩ := List.mem_map.mp (mem_of_firstReaching hfirst)
    exact (List.of_mem_zip hmem).1
  · exact List.mem_of_getLast? hlast

end Picking

/-! ## Methods that take a mean -/

section Means

variable {K : Type} [Field K] [LinearOrder K] [IsStrictOrderedRing K]

/-- A weighted mean lies between the bounds of what it is the mean of. -/
theorem weightedMean_mem {entries : List (K × K)} {low high : K}
    (hvalue : ∀ e ∈ entries, low ≤ e.1 ∧ e.1 ≤ high) (hweight : ∀ e ∈ entries, 0 ≤ e.2)
    (htotal : 0 < (entries.map Prod.snd).sum) :
    low ≤ (entries.map fun e => e.1 * e.2).sum / (entries.map Prod.snd).sum ∧
      (entries.map fun e => e.1 * e.2).sum / (entries.map Prod.snd).sum ≤ high := by
  have hbounds : low * (entries.map Prod.snd).sum ≤ (entries.map fun e => e.1 * e.2).sum ∧
      (entries.map fun e => e.1 * e.2).sum ≤ high * (entries.map Prod.snd).sum := by
    -- a sum may well be 0 on the way, so the induction is on the bounds without the division
    clear htotal
    induction entries with
    | nil => simp
    | cons e rest ih =>
      obtain ⟨hlow, hhigh⟩ := ih (fun f hf => hvalue f (List.mem_cons_of_mem _ hf))
        (fun f hf => hweight f (List.mem_cons_of_mem _ hf))
      have hv := hvalue e (List.mem_cons_self ..)
      have hw := hweight e (List.mem_cons_self ..)
      have h1 := mul_le_mul_of_nonneg_right hv.1 hw
      have h2 := mul_le_mul_of_nonneg_right hv.2 hw
      simp only [List.map_cons, List.sum_cons, mul_add]
      exact ⟨add_le_add h1 hlow, add_le_add h2 hhigh⟩
  exact ⟨(le_div_iff₀ htotal).mpr hbounds.1, (div_le_iff₀ htotal).mpr hbounds.2⟩

variable [FloorRing K] [Elementary K]

theorem centroid_eq (points membership : List K) :
    centroid points membership =
      if ((points.zip membership).map Prod.snd).sum = 0 then none
      else some (((points.zip membership).map fun e => e.1 * e.2).sum /
        ((points.zip membership).map Prod.snd).sum) := by
  have htotal := foldl_add Prod.snd (points.zip membership) (0.0 : K)
  have hweighted := foldl_add (fun e : K × K => e.1 * e.2) (points.zip membership) (0.0 : K)
  rw [zero_literal, zero_add] at htotal hweighted
  rw [← htotal, ← hweighted, ← zero_literal]
  show (if decide _ = true then none else _) = _
  simp only [decide_eq_true_eq]

/-- A weighted mean with nonnegative weights lies between bounds of the points. -/
theorem centroid_mem {points membership : List K} {low high x : K}
    (hpoints : ∀ p ∈ points, low ≤ p ∧ p ≤ high) (hnonneg : ∀ m ∈ membership, 0 ≤ m)
    (h : centroid points membership = some x) : low ≤ x ∧ x ≤ high := by
  rw [centroid_eq] at h
  split at h
  · cases h
  · rename_i hne
    have hvalue : ∀ e ∈ points.zip membership, low ≤ e.1 ∧ e.1 ≤ high :=
      fun e he => hpoints e.1 (List.of_mem_zip he).1
    have hweight : ∀ e ∈ points.zip membership, 0 ≤ e.2 :=
      fun e he => hnonneg e.2 (List.of_mem_zip he).2
    have hsum : 0 ≤ ((points.zip membership).map Prod.snd).sum := by
      refine List.sum_nonneg fun m hm => ?_
      obtain ⟨e, he, rfl⟩ := List.mem_map.mp hm
      exact hweight e he
    rw [← Option.some.inj h]
    exact weightedMean_mem hvalue hweight (lt_of_le_of_ne hsum (Ne.symm hne))

/-- The centroid is missing only where all memberships are 0. -/
theorem eq_zero_of_centroid {points membership : List K} (hlen : points.length = membership.length)
    (hnonneg : ∀ m ∈ membership, 0 ≤ m) (h : centroid points membership = none) :
    ∀ m ∈ membership, m = 0 := by
  rw [centroid_eq] at h
  split at h
  · rename_i hsum
    rw [List.map_snd_zip (le_of_eq hlen.symm)] at hsum
    exact fun m hm => List.all_zero_of_le_zero_le_of_sum_eq_zero hnonneg hsum hm
  · cases h

/-- A mean is the weighted one with all weights 1. -/
theorem mean_mem {xs : List K} {low high : K} (hne : xs ≠ []) (hxs : ∀ x ∈ xs, low ≤ x ∧ x ≤ high) :
    low ≤ xs.sum / xs.length ∧ xs.sum / xs.length ≤ high := by
  have hcurve : ∀ e ∈ xs.map fun x => (x, (1 : K)), (low ≤ e.1 ∧ e.1 ≤ high) ∧ e.2 = 1 := by
    intro e he
    obtain ⟨x, hx, rfl⟩ := List.mem_map.mp he
    exact ⟨hxs x hx, rfl⟩
  have hweights : ((xs.map fun x => (x, (1 : K))).map Prod.snd).sum = xs.length := by
    simp [Function.comp_def]
  have hvalues : ((xs.map fun x => (x, (1 : K))).map fun e => e.1 * e.2).sum = xs.sum := by
    simp [Function.comp_def]
  have htotal : (0 : K) < xs.length := Nat.cast_pos.mpr (List.length_pos_of_ne_nil hne)
  have hmean := weightedMean_mem (fun e he => (hcurve e he).1)
    (fun e he => (hcurve e he).2 ▸ zero_le_one) (hweights.symm ▸ htotal)
  rwa [hweights, hvalues] at hmean

/-- The mean of the maximum counts the points as it adds them up. -/
theorem mom_of_maximal {points membership maxima : List K} (h : maximalPoints points membership = maxima)
    (hne : maxima ≠ []) : mom points membership = some (maxima.sum / maxima.length) := by
  obtain ⟨p, ps, rfl⟩ := List.exists_cons_of_ne_nil hne
  have hsum := foldl_add (fun y : K => y) (p :: ps) (0.0 : K)
  have hcount := foldl_add (fun _ : K => (1.0 : K)) (p :: ps) (0.0 : K)
  rw [zero_literal, zero_add, List.map_id'] at hsum
  rw [zero_literal, zero_add, List.map_const', List.sum_replicate, one_literal, nsmul_one] at hcount
  unfold mom
  rw [h]
  show some ((p :: ps).foldl (fun total y => total + y) (0.0 : K) /
    (p :: ps).foldl (fun count _ => count + (1.0 : K)) 0.0) = _
  rw [zero_literal, one_literal, hsum, hcount]

/-- The mean of the largest points lies between bounds of the points. -/
theorem mom_mem {points membership : List K} {low high x : K}
    (hpoints : ∀ p ∈ points, low ≤ p ∧ p ≤ high) (h : mom points membership = some x) :
    low ≤ x ∧ x ≤ high := by
  by_cases hne : maximalPoints points membership = []
  · unfold mom at h
    rw [hne] at h
    cases h
  · rw [mom_of_maximal rfl hne] at h
    rw [← Option.some.inj h]
    exact mean_mem hne fun y hy => hpoints y (mem_of_maximalPoints hy)

/-- **Defuzzified values lie among the points.** Each method stays within any bounds of the points; the
    center of gravity needs memberships that are not negative. -/
theorem apply_mem {method : Method} {points membership : List K} {step low high x : K}
    (hpoints : ∀ p ∈ points, low ≤ p ∧ p ≤ high) (hnonneg : ∀ m ∈ membership, 0 ≤ m)
    (h : method.apply points membership step = some x) : low ≤ x ∧ x ≤ high := by
  cases method with
  | cog => exact centroid_mem hpoints hnonneg h
  | bisector => exact hpoints x (mem_of_bisector h)
  | mom => exact mom_mem hpoints h
  | som => exact hpoints x (mem_of_som h)
  | lom => exact hpoints x (mem_of_lom h)

end Means

end FuzzyInference

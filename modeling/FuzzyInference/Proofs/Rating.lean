import FuzzyInference.Proofs.Exact.Norm
import FuzzyInference.Proofs.Exact.Rounding
import FuzzyInference.Proofs.Store.Registry
import FuzzyInference.Rating
import Mathlib.Algebra.BigOperators.Ring.List
import Mathlib.Algebra.Order.BigOperators.Group.Finset
import Mathlib.Algebra.Order.BigOperators.Group.List
import Mathlib.Tactic.Ring

/-!
# Where ratings lie

Degrees that are weighed with weights from 0 on, which add up to 1, make a degree again, and a degree is
carried to a number between the bounds of the target. The last step rounds this number to a multiple of the
target's resolution, counted from 0 and not from the lower bound. So ratings lie between the rounded bounds,
and reach these. A bound that is no multiple of the resolution may be rounded outwards, and then there are
ratings that are not on the target.

## Contents
- `roundPartial_mono`, `abs_roundPartial_sub_le`: rounding to multiples of a step.
- `WeightedSum.Chosen`: memberships that can be rated. `weighted_isDegree`: what they add up to.
- `rate_eq`: a rating in one formula. `rate_mem_iff`: where ratings lie.
- `rate_outside`: a target that they leave.
-/

set_option linter.unusedSectionVars false

namespace FuzzyInference

open Scalar

variable {K : Type} [Field K] [LinearOrder K] [IsStrictOrderedRing K] [FloorRing K] [Elementary K]
  {x y step : K}

/-! ## Rounding -/

/-- Rounding to a multiple is rounding the quotient. -/
theorem roundPartial_eq (h : step ≠ 0) (x : K) : roundPartial x step = Scalar.round (x / step) * step := by
  have hcondition : (step == 0.0 || isInfinite step) = false := by
    rw [zero_literal]
    exact Bool.or_eq_false_iff.mpr ⟨decide_eq_false h, rfl⟩
  rw [roundPartial, hcondition]
  rfl

/-- Rounding to multiples keeps the order, the step being positive. -/
theorem roundPartial_mono (hstep : 0 < step) (h : x ≤ y) : roundPartial x step ≤ roundPartial y step := by
  rw [roundPartial_eq hstep.ne', roundPartial_eq hstep.ne']
  exact mul_le_mul_of_nonneg_right (round_mono (div_le_div_of_nonneg_right h hstep.le)) hstep.le

/-- Rounding goes half a step at most. -/
theorem abs_roundPartial_sub_le (hstep : 0 < step) (x : K) : |roundPartial x step - x| ≤ step / 2 := by
  have hscaled : roundPartial x step - x = (Scalar.round (x / step) - x / step) * step := by
    rw [roundPartial_eq hstep.ne', sub_mul, div_mul_cancel₀ x hstep.ne']
  rw [hscaled, abs_mul, abs_of_pos hstep]
  calc |Scalar.round (x / step) - x / step| * step ≤ 1 / 2 * step :=
        mul_le_mul_of_nonneg_right (abs_round_sub_le _) hstep.le
    _ = step / 2 := by ring

/-- A multiple of the step stays. -/
theorem roundPartial_intCast_mul (hstep : 0 < step) (n : ℤ) : roundPartial (n * step) step = n * step := by
  rw [roundPartial_eq hstep.ne', mul_div_cancel_right₀ _ hstep.ne', round_intCast]

/-! ## Weighing -/

namespace WeightedSum

variable {w : WeightedSum K} {memberships : List (String × K)}

/-- Memberships in distinct factors that have weights. -/
structure Chosen (w : WeightedSum K) (memberships : List (String × K)) : Prop where
  distinct : (memberships.map Prod.fst).Nodup
  known : ∀ e ∈ memberships, e.1 ∈ w.weights.keys
  degree : ∀ e ∈ memberships, IsDegree e.2

/-- The weight of a factor, 0 for one without. -/
def weightOf (w : WeightedSum K) (name : String) : K := (w.weights.get? name).getD 0

/-- The weighted sum of memberships. -/
def weighted (w : WeightedSum K) (memberships : List (String × K)) : K :=
  (memberships.map fun e => e.2 * w.weightOf e.1).sum

theorem get?_of_mem_keys {name : String} (h : name ∈ w.weights.keys) :
    w.weights.get? name = some (w.weightOf name) := by
  obtain ⟨⟨key, weight⟩, hentry, rfl⟩ := List.mem_map.mp h
  have hget := OrderedMap.get?_eq_some_iff.mpr hentry
  rw [weightOf, hget]
  rfl

theorem map_weightOf_keys (w : WeightedSum K) : w.weights.keys.map w.weightOf = w.weights.values := by
  rw [OrderedMap.keys, OrderedMap.values, List.map_map]
  refine List.map_congr_left fun e he => ?_
  show (w.weights.get? e.1).getD 0 = e.2
  rw [OrderedMap.get?_eq_some_iff.mpr he]
  rfl

/-- Factors that have weights can be weighed. -/
theorem weigh_eq (hknown : ∀ e ∈ memberships, e.1 ∈ w.weights.keys) (total : K) :
    w.weigh total memberships = .ok (total + w.weighted memberships) := by
  induction memberships generalizing total with
  | nil => simp [weigh, weighted]
  | cons e rest ih =>
    obtain ⟨hfirst, hrest⟩ := List.forall_mem_cons.mp hknown
    rw [weigh, get?_of_mem_keys hfirst]
    dsimp only
    rw [ih hrest, weighted, weighted, List.map_cons, List.sum_cons, add_assoc]

section Degrees

variable (hnonneg : ∀ v ∈ w.weights.values, 0 ≤ v) (htotal : w.weights.values.sum = 1)
include hnonneg

theorem weightOf_nonneg {name : String} (h : name ∈ w.weights.keys) : 0 ≤ w.weightOf name :=
  hnonneg _ (w.map_weightOf_keys ▸ List.mem_map_of_mem h)

/-- Distinct factors have weights that add up to no more than all weights. -/
theorem sum_weightOf_le {names : List String} (hdistinct : names.Nodup)
    (hknown : ∀ name ∈ names, name ∈ w.weights.keys) :
    (names.map w.weightOf).sum ≤ w.weights.values.sum := by
  have hkeys : w.weights.keys.Nodup := w.weights.distinct
  rw [← map_weightOf_keys, ← List.sum_toFinset _ hdistinct, ← List.sum_toFinset _ hkeys]
  refine Finset.sum_le_sum_of_subset_of_nonneg (fun name h => ?_) fun name h _ => ?_
  · exact List.mem_toFinset.mpr (hknown name (List.mem_toFinset.mp h))
  · exact weightOf_nonneg hnonneg (List.mem_toFinset.mp h)

include htotal

/-- **A convex sum of degrees is a degree.** -/
theorem weighted_isDegree (h : w.Chosen memberships) : IsDegree (w.weighted memberships) := by
  have hweight : ∀ e ∈ memberships, 0 ≤ w.weightOf e.1 := fun e he =>
    weightOf_nonneg hnonneg (h.known e he)
  constructor
  · refine List.sum_nonneg fun v hv => ?_
    obtain ⟨e, he, rfl⟩ := List.mem_map.mp hv
    exact mul_nonneg (h.degree e he).nonneg (hweight e he)
  · calc w.weighted memberships ≤ (memberships.map fun e => w.weightOf e.1).sum :=
          List.sum_le_sum fun e he => mul_le_of_le_one_left (hweight e he) (h.degree e he).le_one
      _ = ((memberships.map Prod.fst).map w.weightOf).sum := by rw [List.map_map]; rfl
      _ ≤ w.weights.values.sum := sum_weightOf_le hnonneg h.distinct (List.forall_mem_map.mpr h.known)
      _ = 1 := htotal

end Degrees

/-- All factors with the same membership. -/
theorem weighted_all (htotal : w.weights.values.sum = 1) (m : K) :
    w.weighted (w.weights.keys.map fun name => (name, m)) = m := by
  have hvalues : (w.weights.keys.map fun name => m * w.weightOf name).sum = m * w.weights.values.sum := by
    rw [← map_weightOf_keys, List.sum_map_mul_left]
  rw [weighted, List.map_map]
  exact hvalues.trans (by rw [htotal, mul_one])

theorem chosen_all {m : K} (hm : IsDegree m) : w.Chosen (w.weights.keys.map fun name => (name, m)) := by
  refine ⟨?_, fun e he => ?_, fun e he => ?_⟩
  · rw [List.map_map]
    exact (List.map_id _).symm ▸ w.weights.distinct
  · obtain ⟨name, hname, rfl⟩ := List.mem_map.mp he
    exact hname
  · obtain ⟨name, -, rfl⟩ := List.mem_map.mp he
    exact hm

/-! ## Rating -/

/-- **A rating in one formula.** -/
theorem rate_eq (hknown : ∀ e ∈ memberships, e.1 ∈ w.weights.keys) :
    w.rate memberships = .ok (roundPartial (w.low + (w.high - w.low) * w.weighted memberships) w.res) := by
  have hscale : Rescale.make w.low w.high none none = .ok ⟨w.low, w.high, 0.0, 1.0⟩ :=
    check_bind_eq_ok_iff.mpr ⟨ensure_eq_ok_iff.mpr (decide_eq_true (by norm_num)), rfl⟩
  have hplace : ∀ x : K, Rescale.apply ⟨w.low, w.high, 0.0, 1.0⟩ x = w.low + (w.high - w.low) * x := by
    intro x
    rw [Rescale.apply, zero_literal, one_literal]
    ring
  rw [rate, weigh_eq hknown, zero_literal, zero_add]
  show (Rescale.make w.low w.high none none >>= fun scale => _) = _
  rw [hscale]
  show Except.ok _ = _
  rw [hplace]

/-- Weights that add up to 1 are accepted. -/
theorem make_eq_ok {weights : List (String × K)} (htotal : (OrderedMap.ofList weights).values.sum = 1)
    (target : Domain K) :
    make weights target = .ok ⟨.ofList weights, target.grid.low, target.grid.high, target.res⟩ := by
  refine check_bind_eq_ok_iff.mpr ⟨ensure_eq_ok_iff.mpr ?_, rfl⟩
  have hexact : ¬ (totalTolerance : K) < |Scalar.sum (OrderedMap.ofList weights).values - 1.0| := by
    rw [sum_eq, htotal, one_literal, sub_self, abs_zero, totalTolerance]
    norm_num
  exact congrArg not (decide_eq_false hexact)

section Bounds

variable (hnonneg : ∀ v ∈ w.weights.values, 0 ≤ v) (htotal : w.weights.values.sum = 1)
  (hbounds : w.low ≤ w.high) (hres : 0 < w.res)
include hnonneg htotal hbounds hres

/-- A rating lies between the rounded bounds. -/
theorem rate_between (h : w.Chosen memberships) :
    ∃ rating, w.rate memberships = .ok rating ∧ roundPartial w.low w.res ≤ rating ∧
      rating ≤ roundPartial w.high w.res := by
  obtain ⟨hlow, hhigh⟩ := weighted_isDegree hnonneg htotal h
  have hwidth : 0 ≤ w.high - w.low := sub_nonneg.mpr hbounds
  refine ⟨_, rate_eq h.known, roundPartial_mono hres ?_, roundPartial_mono hres ?_⟩
  · exact le_add_of_nonneg_right (mul_nonneg hwidth hlow)
  · linarith [mul_le_of_le_one_right hwidth hhigh]

omit hnonneg hbounds hres in
/-- What all factors with the same membership are rated with. -/
theorem rate_all (m : K) : w.rate (w.weights.keys.map fun name => (name, m)) =
    .ok (roundPartial (w.low + (w.high - w.low) * m) w.res) := by
  rw [rate_eq, weighted_all htotal]
  intro e he
  obtain ⟨name, hname, rfl⟩ := List.mem_map.mp he
  exact hname

end Bounds

/-- **Where ratings lie.** In exact arithmetic, let a target be accepted, and let no weight be negative and
    the weights add up to 1. Then they are accepted, and distinct factors with weights and degrees always get
    a rating, between the lower and the upper bound of the target, each rounded to a multiple of the
    resolution, and at most half the resolution away from the target. All ratings lie on the target just when
    neither bound is rounded outwards, as in a target whose bounds are multiples of its resolution. -/
theorem rate_mem_iff {name : String} {low high res : K} {target : Domain K}
    (htarget : Domain.make name low high res = .ok target) {weights : List (String × K)}
    (hnonneg : ∀ v ∈ (OrderedMap.ofList weights).values, 0 ≤ v)
    (htotal : (OrderedMap.ofList weights).values.sum = 1) :
    ∃ w : WeightedSum K, make weights target = .ok w ∧
      (∀ memberships, w.Chosen memberships → ∃ rating, w.rate memberships = .ok rating ∧
        roundPartial low res ≤ rating ∧ rating ≤ roundPartial high res ∧
        low - res / 2 ≤ rating ∧ rating ≤ high + res / 2) ∧
      ((∀ memberships, w.Chosen memberships →
          ∃ rating, w.rate memberships = .ok rating ∧ low ≤ rating ∧ rating ≤ high) ↔
        low ≤ roundPartial low res ∧ roundPartial high res ≤ high) ∧
      ∀ m n : ℤ, low = m * res → high = n * res →
        roundPartial low res = low ∧ roundPartial high res = high := by
  obtain ⟨-, hbounds, hres, -, rfl⟩ := Domain.make_eq_ok_iff.mp htarget
  have hbounds : low ≤ high := (of_decide_eq_true (Bool.and_eq_true_iff.mp hbounds).2 : low < high).le
  have hres : 0 < res := zero_literal (K := K) ▸ of_decide_eq_true (Bool.and_eq_true_iff.mp hres).2
  refine ⟨_, make_eq_ok htotal _, ?_, ⟨fun hall => ?_, fun hrounded memberships h => ?_⟩, ?_⟩
  · intro memberships h
    obtain ⟨rating, hrating, hlow, hhigh⟩ := rate_between hnonneg htotal hbounds hres h
    change roundPartial low res ≤ rating at hlow
    change rating ≤ roundPartial high res at hhigh
    have hbelow := (abs_le.mp (abs_roundPartial_sub_le hres low)).1
    have habove := (abs_le.mp (abs_roundPartial_sub_le hres high)).2
    exact ⟨rating, hrating, hlow, hhigh, by linarith, by linarith⟩
  · -- no factor at all and every factor altogether are rated with the rounded bounds
    obtain ⟨least, hleast, hlow, -⟩ := hall _ (chosen_all isDegree_zero)
    obtain ⟨most, hmost, -, hhigh⟩ := hall _ (chosen_all isDegree_one)
    rw [rate_all htotal] at hleast hmost
    rw [← Except.ok.inj hleast, mul_zero, add_zero] at hlow
    rw [← Except.ok.inj hmost, mul_one, add_sub_cancel] at hhigh
    exact ⟨hlow, hhigh⟩
  · obtain ⟨rating, hrating, hlow, hhigh⟩ := rate_between hnonneg htotal hbounds hres h
    exact ⟨rating, hrating, hrounded.1.trans hlow, hhigh.trans hrounded.2⟩
  · rintro m n rfl rfl
    exact ⟨roundPartial_intCast_mul hres m, roundPartial_intCast_mul hres n⟩

/-- Weights for four factors. -/
def fourFactors : List (String × ℚ) :=
  [("beverage", 0.3), ("atmosphere", 0.2), ("looks", 0.2), ("taste", 0.3)]

/-- Ratings from 1 to 10 in tenths stay there. -/
theorem rate_mem_iff_fourFactors :
    (∃ target, Domain.make "rating" (1 : ℚ) 10 0.1 = .ok target) ∧
      (∀ v ∈ (OrderedMap.ofList fourFactors).values, 0 ≤ v) ∧
      (OrderedMap.ofList fourFactors).values.sum = 1 ∧
      ∃ target w, Domain.make "rating" (1 : ℚ) 10 0.1 = .ok target ∧ make fourFactors target = .ok w ∧
        ∀ memberships, w.Chosen memberships →
          ∃ rating, w.rate memberships = .ok rating ∧ 1 ≤ rating ∧ rating ≤ 10 := by
  have htarget : ∃ target, Domain.make "rating" (1 : ℚ) 10 0.1 = .ok target :=
    ⟨_, Domain.make_eq_ok_iff.mpr ⟨by decide +kernel, by decide +kernel, by decide +kernel,
      by decide +kernel, rfl⟩⟩
  have hnonneg : ∀ v ∈ (OrderedMap.ofList fourFactors).values, 0 ≤ v := by decide +kernel
  have htotal : (OrderedMap.ofList fourFactors).values.sum = 1 := by decide +kernel
  refine ⟨htarget, hnonneg, htotal, ?_⟩
  obtain ⟨target, htarget⟩ := htarget
  obtain ⟨w, hw, -, hiff, hmultiples⟩ := rate_mem_iff htarget hnonneg htotal
  refine ⟨target, w, htarget, hw, hiff.mpr ?_⟩
  obtain ⟨hlow, hhigh⟩ := hmultiples 10 100 (by norm_num) (by norm_num)
  exact ⟨hlow.ge, hhigh.le⟩

/-- **Ratings can leave the target.** From 1 to 10 in steps of 4 the only multiples of the resolution between
    the bounds are 4 and 8. The worst rating is 0 and the best one 12, in exact and in machine arithmetic, and
    the target refuses both. -/
theorem rate_outside :
    (∃ target w, Domain.make "rating" (1 : ℚ) 10 4 = .ok target ∧ make [("a", 1)] target = .ok w ∧
      w.Chosen [("a", 0)] ∧ w.Chosen [("a", 1)] ∧ w.rate [("a", 0)] = .ok 0 ∧ w.rate [("a", 1)] = .ok 12) ∧
    ∃ target w, Domain.make "rating" (1 : Float) 10 4 = .ok target ∧ make [("a", 1)] target = .ok w ∧
      w.rate [("a", 0)] = .ok 0 ∧ w.rate [("a", 1)] = .ok 12 ∧
      target.checkRange 0 ≠ .ok () ∧ target.checkRange 12 ≠ .ok () := by
  constructor
  · let target : Domain ℚ := ⟨"rating", .ofResolution 1 10 4, 4, .empty, 1⟩
    have htarget : Domain.make "rating" 1 10 4 = .ok target := Domain.make_eq_ok_iff.mpr
      ⟨by decide +kernel, by decide +kernel, by decide +kernel, by decide +kernel, rfl⟩
    refine ⟨target, _, htarget, make_eq_ok (by decide +kernel) target, ?_, ?_,
      outcome_of_toOption (by decide +kernel), outcome_of_toOption (by decide +kernel)⟩
    · exact ⟨by decide +kernel, by decide +kernel, List.forall_mem_singleton.mpr isDegree_zero⟩
    · exact ⟨by decide +kernel, by decide +kernel, List.forall_mem_singleton.mpr isDegree_one⟩
  · let target : Domain Float := ⟨"rating", .ofResolution 1 10 4, 4, .empty, 1⟩
    have htarget : Domain.make "rating" 1 10 4 = .ok target := Domain.make_eq_ok_iff.mpr
      ⟨by decide +kernel, by decide +kernel, by decide +kernel, by decide +kernel, rfl⟩
    have hweights : make [("a", (1 : Float))] target = .ok ⟨.ofList [("a", 1)], 1, 10, 4⟩ :=
      check_bind_eq_ok_iff.mpr ⟨ensure_eq_ok_iff.mpr (by decide +kernel), rfl⟩
    refine ⟨target, _, htarget, hweights, outcome_of_toOption (by decide +kernel),
      outcome_of_toOption (by decide +kernel), ?_, ?_⟩
    · exact fun h => absurd (ensure_eq_ok_iff.mp h) (by decide +kernel)
    · exact fun h => absurd (ensure_eq_ok_iff.mp h) (by decide +kernel)

end WeightedSum

end FuzzyInference

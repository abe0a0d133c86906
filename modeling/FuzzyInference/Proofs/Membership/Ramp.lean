import FuzzyInference.Membership.Basic
import FuzzyInference.Membership.Validate
import FuzzyInference.Proofs.Exact.Scalar
import FuzzyInference.Proofs.Store.Action
import Mathlib.Analysis.Convex.Segment
import Mathlib.LinearAlgebra.AffineSpace.Ordered
import Mathlib.Tactic.Ring

/-!
# Ramps and plateaus

In exact arithmetic every straight piece leads from one height to another one, by the share of the way
between two bounds that lies behind a number. The families of curves compute this in ways of their own,
each with other comparisons at the bounds. Once each of them is known to be a function of shares, what it
looks like follows from what shares look like, and two that mean the same are the same function.

## Contents
- `share`, `coreShare`: how much of the way up to a core lies behind a number and is not lost again.
- `slope_eq`, `risingRamp_eq`, `fallingRamp_eq`, `evaluate_trapezoid`, `evaluate_triangular`: the curves.
- `Ascends`, `Descends`, `IsPlateau`: what ramps and plateaus look like.
- `Shape.ramps_and_plateaus`: accepted curves look so, and those that mean the same are the same.
-/

set_option linter.unusedSectionVars false

namespace FuzzyInference

open Scalar

variable {K : Type} [Field K] [LinearOrder K] [IsStrictOrderedRing K] [FloorRing K] [Elementary K]

/-! ## Shares -/

section Shares

variable {low high x : K}

/-- The share of the way from `low` to `high` that lies behind `x`. -/
def share (low high x : K) : K := max 0 (min 1 ((x - low) / (high - low)))

theorem share_nonneg (low high x : K) : 0 ≤ share low high x := le_max_left 0 _

theorem share_le_one (low high x : K) : share low high x ≤ 1 := max_le zero_le_one (min_le_left 1 _)

theorem share_of_le (hlt : low < high) (h : x ≤ low) : share low high x = 0 := by
  have hquotient : (x - low) / (high - low) ≤ 0 :=
    div_nonpos_of_nonpos_of_nonneg (sub_nonpos.mpr h) (sub_nonneg.mpr hlt.le)
  exact max_eq_left ((min_le_right 1 _).trans hquotient)

theorem share_of_ge (hlt : low < high) (h : high ≤ x) : share low high x = 1 := by
  have hquotient : 1 ≤ (x - low) / (high - low) :=
    (one_le_div (sub_pos.mpr hlt)).mpr (sub_le_sub_right h low)
  rw [share, min_eq_left hquotient, max_eq_right zero_le_one]

theorem share_of_mem (hlt : low < high) (hlow : low ≤ x) (hhigh : x ≤ high) :
    share low high x = (x - low) / (high - low) := by
  have hwidth : 0 < high - low := sub_pos.mpr hlt
  have h0 : 0 ≤ (x - low) / (high - low) := div_nonneg (sub_nonneg.mpr hlow) hwidth.le
  have h1 : (x - low) / (high - low) ≤ 1 := (div_le_one hwidth).mpr (sub_le_sub_right hhigh low)
  rw [share, min_eq_right h1, max_eq_right h0]

/-- The share of the way from `low` to `high` never falls. -/
theorem share_mono (hlt : low < high) : Monotone (share low high) := by
  intro x y hxy
  have hquotient : (x - low) / (high - low) ≤ (y - low) / (high - low) :=
    div_le_div_of_nonneg_right (sub_le_sub_right hxy low) (sub_nonneg.mpr hlt.le)
  exact max_le_max le_rfl (min_le_min le_rfl hquotient)

theorem share_eq_zero_iff (hlt : low < high) : share low high x = 0 ↔ x ≤ low := by
  refine ⟨fun h => ?_, share_of_le hlt⟩
  by_contra hgt
  rw [not_le] at hgt
  rcases le_total x high with hle | hge
  · rw [share_of_mem hlt hgt.le hle] at h
    exact absurd h (div_pos (sub_pos.mpr hgt) (sub_pos.mpr hlt)).ne'
  · rw [share_of_ge hlt hge] at h
    exact one_ne_zero h

theorem share_eq_one_iff (hlt : low < high) : share low high x = 1 ↔ high ≤ x := by
  refine ⟨fun h => ?_, share_of_ge hlt⟩
  by_contra hlt'
  rw [not_le] at hlt'
  rcases le_total low x with hle | hge
  · rw [share_of_mem hlt hle hlt'.le, div_eq_one_iff_eq (sub_pos.mpr hlt).ne'] at h
    exact hlt'.ne (sub_left_injective h)
  · rw [share_of_le hlt hge] at h
    exact zero_ne_one h

end Shares

section CoreShares

variable {low coreLow coreHigh high x : K}

/-- The share of the way up to a core that lies behind `x`, less the share of the way down from it. -/
def coreShare (low coreLow coreHigh high x : K) : K := share low coreLow x - share coreHigh high x

/-- Before the descent a plateau is its ascent. -/
theorem coreShare_of_le (hdescent : coreHigh < high) (h : x ≤ coreHigh) :
    coreShare low coreLow coreHigh high x = share low coreLow x := by
  rw [coreShare, share_of_le hdescent h, sub_zero]

/-- After the ascent a plateau is its descent. -/
theorem coreShare_of_ge (hascent : low < coreLow) (h : coreLow ≤ x) :
    coreShare low coreLow coreHigh high x = 1 - share coreHigh high x := by
  rw [coreShare, share_of_ge hascent h]

/-- The core is where a plateau is full. -/
theorem coreShare_eq_one_iff (hascent : low < coreLow) (hdescent : coreHigh < high) :
    coreShare low coreLow coreHigh high x = 1 ↔ x ∈ Set.Icc coreLow coreHigh := by
  have h0 := share_nonneg coreHigh high x
  have h1 := share_le_one low coreLow x
  rw [Set.mem_Icc, ← share_eq_one_iff hascent, ← share_eq_zero_iff hdescent, coreShare]
  exact ⟨fun h => ⟨by linarith, by linarith⟩, fun h => by rw [h.1, h.2, sub_zero]⟩

variable (hascent : low < coreLow) (hcore : coreLow ≤ coreHigh) (hdescent : coreHigh < high)
include hascent hcore hdescent

theorem coreShare_nonneg (x : K) : 0 ≤ coreShare low coreLow coreHigh high x := by
  rcases le_total x coreHigh with hx | hx
  · rw [coreShare_of_le hdescent hx]
    exact share_nonneg low coreLow x
  · rw [coreShare_of_ge hascent (hcore.trans hx)]
    exact sub_nonneg.mpr (share_le_one coreHigh high x)

omit hascent hcore hdescent in
theorem coreShare_le_one (low coreLow coreHigh high x : K) : coreShare low coreLow coreHigh high x ≤ 1 :=
  (sub_le_self _ (share_nonneg coreHigh high x)).trans (share_le_one low coreLow x)

theorem coreShare_eq_zero (h : x ≤ low ∨ high ≤ x) : coreShare low coreLow coreHigh high x = 0 := by
  rcases h with h | h
  · rw [coreShare_of_le hdescent (h.trans (hascent.le.trans hcore)), share_of_le hascent h]
  · rw [coreShare_of_ge hascent ((hcore.trans hdescent.le).trans h), share_of_ge hdescent h, sub_self]

end CoreShares

/-! ## The curves in closed form -/

open AffineMap

section Curves

variable {low high core unsupported x : K}

/-- On the way from one number to another one, whichever is the larger, all lies between them. -/
theorem lineMap_mem_uIcc (a b : K) {t : K} (h0 : 0 ≤ t) (h1 : t ≤ 1) : lineMap a b t ∈ Set.uIcc a b :=
  segment_eq_uIcc a b ▸ lineMap_mem_segment K a b ⟨h0, h1⟩

theorem clamp_of_mem {v : K} (hlow : low ≤ v) (hhigh : v ≤ high) : clamp v low high = v := by
  show (if v < low then low else if high < v then high else v) = v
  rw [if_neg hlow.not_gt, if_neg hhigh.not_gt]

/-- In exact arithmetic nothing is clamped. -/
theorem clamp_gradient (hlt : low < high) (hlow : low ≤ x) (hhigh : x ≤ high) (top bottom : K) :
    clamp ((top - bottom) / (high - low) * (x - low) + bottom) (lesser top bottom) (greater top bottom) =
      lineMap bottom top (share low high x) := by
  have hvalue : (top - bottom) / (high - low) * (x - low) + bottom =
      lineMap bottom top (share low high x) := by
    rw [share_of_mem hlt hlow hhigh, lineMap_apply_ring']
    ring
  have hmem := lineMap_mem_uIcc bottom top (share_nonneg low high x) (share_le_one low high x)
  rw [lesser_eq, greater_eq, min_comm, max_comm, hvalue]
  exact clamp_of_mem hmem.1 hmem.2

/-- A slope leads from one height to the other one. Without a gradient the heights are the same, and a
    gradient is always finite. -/
theorem slope_eq (hlt : low < high) (core unsupported : K) (inverse : Bool) (x : K) :
    slope low high core unsupported inverse x =
      lineMap (if inverse then core else unsupported) (if inverse then unsupported else core)
        (share low high x) := by
  unfold slope
  generalize (if inverse then unsupported else core) = top
  generalize (if inverse then core else unsupported) = bottom
  have hwidth : high - low ≠ 0 := (sub_pos.mpr hlt).ne'
  dsimp only
  split
  next heq =>
    have heq : top = bottom := of_decide_eq_true heq
    subst heq
    rw [lineMap_same_apply]
    show (top + top) / (2.0 : K) = top
    rw [two_literal, add_self_div_two]
  next hne =>
    have hne : top ≠ bottom := of_decide_eq_false (Bool.eq_false_iff.mpr hne)
    split
    next hzero =>
      have hzero : (top - bottom) / (high - low) = (0.0 : K) := of_decide_eq_true hzero
      rw [zero_literal] at hzero
      exact absurd hzero (div_ne_zero (sub_ne_zero.mpr hne) hwidth)
    next =>
      split
      -- no number is infinite here
      next hinfinite => exact absurd hinfinite Bool.false_ne_true
      next =>
        split
        next hle => rw [share_of_le hlt hle, lineMap_apply_zero]
        next hlow =>
          split
          next hle => rw [share_of_ge hlt hle, lineMap_apply_one]
          next hhigh => exact clamp_gradient hlt (not_le.mp hlow).le (not_le.mp hhigh).le top bottom

/-- A slope goes from the one height to the other along the share. -/
theorem slope_rising (hlt : low < high) :
    slope low high core unsupported false = fun x => lineMap unsupported core (share low high x) :=
  funext (slope_eq hlt core unsupported false)

theorem slope_falling (hlt : low < high) :
    slope low high core unsupported true = fun x => lineMap core unsupported (share low high x) :=
  funext (slope_eq hlt core unsupported true)

/-- Bounds in order are not degenerate over an ordered field. -/
theorem degenerateRamp?_of_lt (hlt : low < high) (rises : Bool) (x : K) :
    degenerateRamp? low high rises x = none := by
  unfold degenerateRamp?
  have hwidth : ¬ (high - low = (0.0 : K)) := by
    rw [zero_literal]
    exact (sub_pos.mpr hlt).ne'
  exact if_neg (decide_eq_true_iff.not.mpr hwidth)

theorem risingRamp_eq (hlt : low < high) (x : K) : risingRamp low high x = share low high x := by
  unfold risingRamp
  rw [degenerateRamp?_of_lt hlt, Option.getD_none]
  split
  next h =>
    rw [share_of_le hlt (le_of_lt h)]
    exact zero_literal
  next hlow =>
    split
    next hhigh =>
      have hmem : (x - low) / (high - low) = share low high x :=
        (share_of_mem hlt (not_lt.mp hlow) hhigh).symm
      show clamp ((x - low) / (high - low)) (0.0 : K) (1.0 : K) = _
      rw [zero_literal, one_literal, hmem]
      exact clamp_of_mem (share_nonneg low high x) (share_le_one low high x)
    next hhigh =>
      rw [share_of_ge hlt (not_le.mp hhigh).le]
      exact one_literal

/-- The split quotient is what the share leaves of 1. -/
theorem fallingRamp_eq (hlt : low < high) (x : K) : fallingRamp low high x = 1 - share low high x := by
  unfold fallingRamp
  rw [degenerateRamp?_of_lt hlt, Option.getD_none]
  split
  next h =>
    rw [share_of_le hlt h, sub_zero]
    exact one_literal
  next hlow =>
    split
    next hhigh =>
      have hwidth : high - low ≠ 0 := (sub_pos.mpr hlt).ne'
      -- the code subtracts two quotients, which is the complement of the share
      have hrest : high / (high - low) - x / (high - low) = 1 - share low high x := by
        rw [share_of_mem hlt (not_le.mp hlow).le (le_of_lt hhigh), eq_sub_iff_add_eq, ← sub_div,
          ← add_div, sub_add_sub_cancel, div_self hwidth]
      show clamp (high / (high - low) - x / (high - low)) (0.0 : K) (1.0 : K) = _
      rw [zero_literal, one_literal, hrest]
      exact clamp_of_mem (sub_nonneg.mpr (share_le_one low high x)) (sub_le_self 1 (share_nonneg low high x))
    next hhigh =>
      rw [share_of_ge hlt (not_lt.mp hhigh), sub_self]
      exact zero_literal

/-- A trapezoid gives the core height to what lies behind the ascent and not behind the descent. -/
theorem evaluate_trapezoid {coreLow coreHigh : K} (hascent : low < coreLow) (hcore : coreLow ≤ coreHigh)
    (hdescent : coreHigh < high) (x : K) :
    (Shape.trapezoid low coreLow coreHigh high core unsupported).evaluate x =
      lineMap unsupported core (coreShare low coreLow coreHigh high x) := by
  rw [Shape.evaluate]
  split
  next houtside =>
    have houtside : x < low ∨ high < x :=
      (Bool.or_eq_true_iff.mp houtside).imp of_decide_eq_true of_decide_eq_true
    rw [coreShare_eq_zero hascent hcore hdescent (houtside.imp le_of_lt le_of_lt), lineMap_apply_zero]
  next =>
    split
    next hlow =>
      rw [slope_rising hascent, coreShare_of_le hdescent ((le_of_lt hlow).trans hcore)]
    next hlow =>
      split
      next =>
        -- the way down is the way up, the other way round
        rw [slope_falling hdescent, coreShare_of_ge hascent (not_lt.mp hlow), lineMap_apply_one_sub]
      next hhigh =>
        rw [(coreShare_eq_one_iff hascent hdescent).mpr ⟨not_lt.mp hlow, not_lt.mp hhigh⟩,
          lineMap_apply_one]

/-- A triangle is a trapezoid whose core is a point. It takes the bounds themselves apart, where the
    trapezoid has its slopes begin and end. -/
theorem evaluate_triangular {peak : K} (hascent : low < peak) (hdescent : peak < high) (x : K) :
    (Shape.triangular low high peak core unsupported).evaluate x =
      lineMap unsupported core (coreShare low peak peak high x) := by
  rw [Shape.evaluate]
  split
  next houtside =>
    have houtside : x ≤ low ∨ high ≤ x :=
      (Bool.or_eq_true_iff.mp houtside).imp of_decide_eq_true of_decide_eq_true
    rw [coreShare_eq_zero hascent le_rfl hdescent houtside, lineMap_apply_zero]
  next =>
    split
    next hpeak =>
      have hpeak : x = peak := of_decide_eq_true hpeak
      rw [(coreShare_eq_one_iff hascent hdescent).mpr ⟨hpeak.ge, hpeak.le⟩, lineMap_apply_one]
    next =>
      split
      next hlow =>
        rw [slope_rising hascent, coreShare_of_le hdescent (le_of_lt hlow)]
      next hlow =>
        rw [slope_falling hdescent, coreShare_of_ge hascent (not_lt.mp hlow), lineMap_apply_one_sub]

end Curves

/-! ## Shapes -/

/-- From one height at and below a bound up to another height at and above another bound. -/
structure Ascends (f : K → K) (low high bottom top : K) : Prop where
  monotone : Monotone f
  mem : ∀ x, f x ∈ Set.Icc bottom top
  before : ∀ x ≤ low, f x = bottom
  after : ∀ x, high ≤ x → f x = top

/-- From one height at and below a bound down to another height at and above another bound. -/
structure Descends (f : K → K) (low high top bottom : K) : Prop where
  antitone : Antitone f
  mem : ∀ x, f x ∈ Set.Icc bottom top
  before : ∀ x ≤ low, f x = top
  after : ∀ x, high ≤ x → f x = bottom

/-- Up to the core, which alone has the height of the top, down behind it, and at the bottom outside of the
    bounds. -/
structure IsPlateau (f : K → K) (low coreLow coreHigh high bottom top : K) : Prop where
  monotoneOn : MonotoneOn f (Set.Iic coreHigh)
  antitoneOn : AntitoneOn f (Set.Ici coreLow)
  mem : ∀ x, f x ∈ Set.Icc bottom top
  eq_top_iff : ∀ x, f x = top ↔ x ∈ Set.Icc coreLow coreHigh
  outside : ∀ x ∉ Set.Ioo low high, f x = bottom

section Shapes

variable {low high bottom top : K}

/-- A slope up ascends from the lower height to the upper one. -/
theorem ascends_slope (hlt : low < high) (h : bottom ≤ top) :
    Ascends (slope low high top bottom false) low high bottom top := by
  rw [slope_rising hlt]
  exact
    { monotone := (lineMap_mono h).comp (share_mono hlt)
      mem := fun x => Set.uIcc_of_le h ▸
        lineMap_mem_uIcc bottom top (share_nonneg low high x) (share_le_one low high x)
      before := fun x hx => by rw [share_of_le hlt hx, lineMap_apply_zero]
      after := fun x hx => by rw [share_of_ge hlt hx, lineMap_apply_one] }

theorem descends_slope (hlt : low < high) (h : bottom ≤ top) :
    Descends (slope low high top bottom true) low high top bottom := by
  rw [slope_falling hlt]
  exact
    { antitone := (lineMap_anti h).comp_monotone (share_mono hlt)
      mem := fun x => Set.uIcc_of_ge h ▸
        lineMap_mem_uIcc top bottom (share_nonneg low high x) (share_le_one low high x)
      before := fun x hx => by rw [share_of_le hlt hx, lineMap_apply_zero]
      after := fun x hx => by rw [share_of_ge hlt hx, lineMap_apply_one] }

/-- A plateau ascends, stays and descends, between any two heights. -/
theorem isPlateau_coreShare {coreLow coreHigh : K} (hascent : low < coreLow) (hcore : coreLow ≤ coreHigh)
    (hdescent : coreHigh < high) (h : bottom < top) :
    IsPlateau (fun x => lineMap bottom top (coreShare low coreLow coreHigh high x))
      low coreLow coreHigh high bottom top where
  monotoneOn x _ y hy hxy := by
    dsimp only
    rw [coreShare_of_le hdescent (hxy.trans hy), coreShare_of_le hdescent hy]
    exact lineMap_mono h.le (share_mono hascent hxy)
  antitoneOn x hx y _ hxy := by
    dsimp only
    rw [coreShare_of_ge hascent hx, coreShare_of_ge hascent (le_trans hx hxy)]
    exact lineMap_mono h.le (sub_le_sub_left (share_mono hdescent hxy) 1)
  mem x := Set.uIcc_of_le h.le ▸ lineMap_mem_uIcc bottom top (coreShare_nonneg hascent hcore hdescent x)
    (coreShare_le_one low coreLow coreHigh high x)
  eq_top_iff x := by
    rw [lineMap_eq_right_iff, or_iff_right h.ne, coreShare_eq_one_iff hascent hdescent]
  outside x hx := by
    rw [Set.mem_Ioo, not_and_or, not_lt, not_lt] at hx
    rw [coreShare_eq_zero hascent hcore hdescent hx, lineMap_apply_zero]

end Shapes

/-! ## Accepted ramps and plateaus -/

theorem le_of_checkHeights {core unsupported : K} (h : checkHeights core unsupported false = .ok ()) :
    unsupported ≤ core := by
  have h := ensure_eq_ok_iff.mp h
  simp only [Bool.and_eq_true] at h
  exact of_decide_eq_true h.1.2

theorem lt_of_checkHeights {core unsupported : K} (h : checkHeights core unsupported true = .ok ()) :
    unsupported < core := by
  have h := ensure_eq_ok_iff.mp h
  simp only [Bool.and_eq_true] at h
  exact of_decide_eq_true h.1.2

namespace Shape

variable {low coreLow coreHigh high peak core unsupported : K}

/-- An accepted linear function has its heights at the ends, exchanged for the inverse one. -/
theorem ascends_boundedLinear (hlt : low < high)
    (h : (boundedLinear low high core unsupported false).validate = .ok ()) :
    Ascends (fun x => (boundedLinear low high core unsupported false).evaluate x) low high unsupported core := by
  have hheights := le_of_checkHeights (check_bind_eq_ok_iff.mp h).2
  exact ascends_slope hlt hheights

theorem descends_boundedLinear (hlt : low < high)
    (h : (boundedLinear low high core unsupported true).validate = .ok ()) :
    Descends (fun x => (boundedLinear low high core unsupported true).evaluate x) low high core unsupported := by
  have hheights := le_of_checkHeights (check_bind_eq_ok_iff.mp h).2
  exact descends_slope hlt hheights

/-- A ramp is the slope from 0 to 1, -/
theorem boundedLinear_eq_rising (hlt : low < high) (x : K) :
    (boundedLinear low high 1 0 false).evaluate x = (rising low high).evaluate x := by
  show slope low high 1 0 false x = risingRamp low high x
  rw [congrFun (slope_rising hlt) x, risingRamp_eq hlt, lineMap_apply_ring', sub_zero, mul_one, add_zero]

/-- and the one that falls is the slope from 1 to 0. -/
theorem boundedLinear_eq_falling (hlt : low < high) (x : K) :
    (boundedLinear low high 1 0 true).evaluate x = (falling low high).evaluate x := by
  show slope low high 1 0 true x = fallingRamp low high x
  rw [congrFun (slope_falling hlt) x, fallingRamp_eq hlt, lineMap_apply_ring', zero_sub, mul_neg, mul_one,
    neg_add_eq_sub]

/-- Falling is the complement of rising. -/
theorem falling_eq_inv_rising (hlt : low < high) (x : K) :
    (falling low high).evaluate x = (Membership.inv (.shape (rising low high))).evaluate x := by
  show fallingRamp low high x = (1.0 : K) - risingRamp low high x
  rw [fallingRamp_eq hlt, risingRamp_eq hlt, one_literal]

theorem ascends_rising (hlt : low < high) :
    Ascends (fun x => (rising low high).evaluate x) low high 0 1 := by
  rw [← funext (boundedLinear_eq_rising hlt)]
  exact ascends_slope hlt zero_le_one

theorem descends_falling (hlt : low < high) :
    Descends (fun x => (falling low high).evaluate x) low high 1 0 := by
  rw [← funext (boundedLinear_eq_falling hlt)]
  exact descends_slope hlt zero_le_one

/-- An accepted trapezoid is a plateau over its core. -/
theorem isPlateau_trapezoid
    (h : (trapezoid low coreLow coreHigh high core unsupported).validate = .ok ()) :
    IsPlateau (fun x => (trapezoid low coreLow coreHigh high core unsupported).evaluate x)
      low coreLow coreHigh high unsupported core := by
  obtain ⟨hplateau, hheights⟩ := check_bind_eq_ok_iff.mp h
  have hplateau := ensure_eq_ok_iff.mp hplateau
  simp only [Bool.and_eq_true] at hplateau
  obtain ⟨⟨hascent, hcore⟩, hdescent⟩ := hplateau
  have hascent : low < coreLow := of_decide_eq_true hascent
  have hcore : coreLow ≤ coreHigh := of_decide_eq_true hcore
  have hdescent : coreHigh < high := of_decide_eq_true hdescent
  rw [funext (evaluate_trapezoid hascent hcore hdescent)]
  exact isPlateau_coreShare hascent hcore hdescent (lt_of_checkHeights hheights)

/-- The parameters of a triangle are accepted for a trapezoid too, which is the same. -/
theorem triangular_eq_trapezoid (h : (triangular low high peak core unsupported).validate = .ok ()) :
    (trapezoid low peak peak high core unsupported).validate = .ok () ∧
      ∀ x, (triangular low high peak core unsupported).evaluate x =
        (trapezoid low peak peak high core unsupported).evaluate x := by
  obtain ⟨-, hrest⟩ := check_bind_eq_ok_iff.mp h
  obtain ⟨hpeak, hheights⟩ := check_bind_eq_ok_iff.mp hrest
  obtain ⟨hascent, hdescent⟩ := Bool.and_eq_true_iff.mp (ensure_eq_ok_iff.mp hpeak)
  refine ⟨check_bind_eq_ok_iff.mpr ⟨ensure_eq_ok_iff.mpr ?_, hheights⟩, fun x => ?_⟩
  · simp only [Bool.and_eq_true]
    exact ⟨⟨hascent, decide_eq_true (le_refl peak)⟩, hdescent⟩
  · have hascent : low < peak := of_decide_eq_true hascent
    have hdescent : peak < high := of_decide_eq_true hdescent
    rw [evaluate_triangular hascent hdescent, evaluate_trapezoid hascent le_rfl hdescent]

/-- **Accepted ramps and plateaus have their shapes,** and those that mean the same are the same at every
    number. -/
theorem ramps_and_plateaus {low high : K} (hlt : low < high) (core unsupported : K) :
    ((boundedLinear low high core unsupported false).validate = .ok () →
      Ascends (fun x => (boundedLinear low high core unsupported false).evaluate x) low high unsupported core) ∧
    ((boundedLinear low high core unsupported true).validate = .ok () →
      Descends (fun x => (boundedLinear low high core unsupported true).evaluate x) low high core unsupported) ∧
    Ascends (fun x => (rising low high).evaluate x) low high 0 1 ∧
    Descends (fun x => (falling low high).evaluate x) low high 1 0 ∧
    (∀ coreLow coreHigh, (trapezoid low coreLow coreHigh high core unsupported).validate = .ok () →
      IsPlateau (fun x => (trapezoid low coreLow coreHigh high core unsupported).evaluate x)
        low coreLow coreHigh high unsupported core) ∧
    (∀ peak, (triangular low high peak core unsupported).validate = .ok () →
      IsPlateau (fun x => (triangular low high peak core unsupported).evaluate x)
        low peak peak high unsupported core) ∧
    (∀ x, (boundedLinear low high 1 0 false).evaluate x = (rising low high).evaluate x) ∧
    (∀ x, (boundedLinear low high 1 0 true).evaluate x = (falling low high).evaluate x) ∧
    (∀ x, (falling low high).evaluate x = (Membership.inv (.shape (rising low high))).evaluate x) ∧
    ∀ peak, (triangular low high peak core unsupported).validate = .ok () →
      (trapezoid low peak peak high core unsupported).validate = .ok () ∧
        ∀ x, (triangular low high peak core unsupported).evaluate x =
          (trapezoid low peak peak high core unsupported).evaluate x := by
  refine ⟨ascends_boundedLinear hlt, descends_boundedLinear hlt, ascends_rising hlt, descends_falling hlt,
    fun _ _ => isPlateau_trapezoid, fun _ h => ?_, boundedLinear_eq_rising hlt, boundedLinear_eq_falling hlt,
    falling_eq_inv_rising hlt, fun _ => triangular_eq_trapezoid⟩
  obtain ⟨haccepted, heq⟩ := triangular_eq_trapezoid h
  rw [funext heq]
  exact isPlateau_trapezoid haccepted

/-- Over the rationals, with one half at the bottom and a triangle around 1. -/
theorem ramps_and_plateaus_rat :
    (0 : ℚ) < 2 ∧
      (trapezoid (0 : ℚ) 1 1 2 1 (1 / 2)).validate = .ok () ∧
      Monotone (fun x : ℚ => (boundedLinear 0 2 1 (1 / 2) false).evaluate x) ∧
      IsPlateau (fun x : ℚ => (triangular 0 2 1 1 (1 / 2)).evaluate x) 0 1 1 2 (1 / 2) 1 := by
  have h := ramps_and_plateaus (show (0 : ℚ) < 2 by norm_num) 1 (1 / 2)
  have hslope : (boundedLinear (0 : ℚ) 2 1 (1 / 2) false).validate = .ok () :=
    outcome_of_toOption (by decide +kernel)
  have htriangle : (triangular (0 : ℚ) 2 1 1 (1 / 2)).validate = .ok () :=
    outcome_of_toOption (by decide +kernel)
  obtain ⟨hascends, -, -, -, -, hplateau, -, -, -, hagree⟩ := h
  exact ⟨by norm_num, (hagree 1 htriangle).1, (hascends hslope).monotone, hplateau 1 htriangle⟩

end Shape

end FuzzyInference

import FuzzyInference.Proofs.Membership.Accepted
import FuzzyInference.Proofs.Membership.Piece
import FuzzyInference.Proofs.Membership.Segment

/-!
# Elementary curves give degrees

What an accepted curve is at a finite number. The checks let infinite parameters through, and most families
guard against what becomes of them. Those that do not are NaN at single points, which `Shape.Singular`
names; everywhere else the families are degrees, except that straight lines between points may leave the
unit interval by `Shape.slack`.

## Contents
- `Shape.Singular`, `Shape.slack`.
- `Shape.isNaN_of_singular`, `Shape.evaluate_within_unit`, `Shape.piecewise_within`.
- `Shape.evaluate_bounded`: both sides together. `Shape.interpolation_leaves_unit`: three polygons.
-/

namespace FuzzyInference

open Scalar Double

/-! ## Curves -/

namespace Shape

/-- Where an accepted curve has no degree: zero meets infinity in an exponent, or the distance from the first
    point of a segment is infinite. -/
def Singular (x : Float) : Shape Float → Prop
  | simpleSigmoid steepness => isInfinite steepness = true ∧ (x == 0.0) = true
  | gauss center sharpness _ => isInfinite sharpness = true ∧ (square (x - center) == 0.0) = true
  | boundedExponential rate _ => isInfinite rate = true ∧ (x == 0.0) = true
  | piecewise points => ∃ p q, segment? points x = some (p, q) ∧ isInfinite (x - p.1) = true
  | _ => False

/-- How far from the unit interval a curve can lead: nowhere but across a segment. -/
def slack (x : Float) : Shape Float → ℚ
  | piecewise points =>
    match segment? points x with
    | some (p, q) => slackAcross p q
    | none => 0
  | _ => 0

section Curves

variable {E : Elementary Float} {curve : Shape Float} {x : Float}

/-- Heights that pass their check are degrees. -/
theorem within_of_checkHeights {core unsupported : Float} {strict : Bool}
    (h : checkHeights core unsupported strict = .ok ()) : Within 0 1 core ∧ Within 0 1 unsupported := by
  obtain ⟨h, hcore⟩ := Bool.and_eq_true_iff.mp (ensure_eq_ok_iff.mp h)
  obtain ⟨hunsupported, hordered⟩ := Bool.and_eq_true_iff.mp h
  have hle : unsupported ≤ core := by
    cases strict
    · exact of_decide_eq_true hordered
    · exact le_of_less (of_decide_eq_true hordered)
  exact (within_of_ordered (of_decide_eq_true hunsupported) hle (of_decide_eq_true hcore)).symm

/-- An accepted row of points is ascending, with degrees for memberships. -/
theorem of_validate_piecewise {points : List (Float × Float)}
    (h : (Shape.piecewise points).validate = .ok ()) :
    points ≠ [] ∧ isIncreasing (points.map Prod.fst) = true ∧ ∀ p ∈ points, Within 0 1 p.2 := by
  obtain ⟨hlength, h⟩ := check_bind_eq_ok_iff.mp h
  obtain ⟨hincreasing, hunit⟩ := check_bind_eq_ok_iff.mp h
  refine ⟨?_, ensure_eq_ok_iff.mp hincreasing, fun p hp => ?_⟩
  · rintro rfl
    exact absurd (ensure_eq_ok_iff.mp hlength) (by simp)
  · exact inUnit_iff.mp (List.all_eq_true.mp (ensure_eq_ok_iff.mp hunit) p hp)

/-- An accepted spike rises above its base, and both are degrees. -/
theorem of_validate_singleton {location elsewhere height : Float}
    (h : (Shape.singleton location elsewhere height).validate = .ok ()) :
    elsewhere < height ∧ Within 0 1 elsewhere ∧ Within 0 1 height := by
  obtain ⟨-, hheights⟩ := check_bind_eq_ok_iff.mp h
  obtain ⟨hordered, hheight⟩ := Bool.and_eq_true_iff.mp (ensure_eq_ok_iff.mp hheights)
  obtain ⟨helsewhere, hlt⟩ := Bool.and_eq_true_iff.mp hordered
  have hlt := of_decide_eq_true hlt
  exact ⟨hlt, within_of_ordered (of_decide_eq_true helsewhere) (le_of_less hlt) (of_decide_eq_true hheight)⟩

/-- At a singular point the value is NaN. -/
theorem isNaN_of_singular (hE : ExpLaws E) (hvalid : curve.validate = .ok ()) (hx : isFinite x = true)
    (h : curve.Singular x) : isNaN (@evaluate Float (withElementary E) x curve) = true := by
  have hnumbers := not_isNaN_of_accepted hvalid
  -- four families have singular points; NaN then passes through the rest of the formula
  cases curve with
  | simpleSigmoid k =>
    have hk : isNaN k = false := hnumbers k (List.mem_singleton_self k)
    have hexponent := hE.nan ((simpleSigmoid_isNaN_iff hx hk).mpr h)
    show isNaN (if (isInfinite x && k == 0.0) = true then 0.5 else 1.0 / (1.0 + E.exp (x * -k))) = true
    rw [not_isInfinite_of_isFinite hx, Bool.false_and, if_neg Bool.false_ne_true]
    exact isNaN_div_right (isNaN_add_right hexponent)
  | gauss center sharpness height =>
    obtain ⟨hcenter, hvalid⟩ := check_bind_eq_ok_iff.mp hvalid
    obtain ⟨hsharpness, -⟩ := check_bind_eq_ok_iff.mp hvalid
    have hc : isNaN center = false := by simpa using ensure_eq_ok_iff.mp hcenter
    have hb := of_decide_eq_true (ensure_eq_ok_iff.mp hsharpness)
    exact isNaN_mul_right (hE.nan ((gauss_isNaN_iff hx hc hb).mpr h))
  | boundedExponential rate limit =>
    obtain ⟨hrate, -⟩ := check_bind_eq_ok_iff.mp hvalid
    have hrate := of_decide_eq_true (ensure_eq_ok_iff.mp hrate)
    exact isNaN_sub_right (isNaN_div_right (hE.nan ((boundedExponential_isNaN_iff hx hrate).mpr h)))
  | piecewise points =>
    obtain ⟨hne, hincreasing, -⟩ := of_validate_piecewise hvalid
    obtain ⟨p, q, hsegment, hinfinite⟩ := h
    show isNaN (@interpolate Float (withElementary E) points x) = true
    rw [interpolate_withElementary]
    rcases interpolate_cases (x := x) hne with ⟨hnone, -⟩ | ⟨a, b, hab, heq⟩
    · rw [hnone] at hsegment
      cases hsegment
    · rw [hab] at hsegment
      cases hsegment
      obtain ⟨-, -, -, hlow, hhigh⟩ := segment?_spec hincreasing hab
      rw [heq]
      exact isNaN_across hx hlow hhigh hinfinite
  | _ => exact h.elim

/-- Straight lines between points. -/
theorem piecewise_within {points : List (Float × Float)}
    (hvalid : (Shape.piecewise points).validate = .ok ()) (hx : isFinite x = true)
    (h : ¬ (Shape.piecewise points).Singular x) :
    Within (-(Shape.piecewise points).slack x) (1 + (Shape.piecewise points).slack x) (interpolate points x) := by
  obtain ⟨hne, hincreasing, hunit⟩ := of_validate_piecewise hvalid
  rw [slack]
  rcases interpolate_cases (x := x) hne with ⟨hnone, m, hm, heq⟩ | ⟨p, q, hsegment, heq⟩
  · obtain ⟨p, hp, rfl⟩ := List.mem_map.mp hm
    rw [hnone, heq]
    simpa using hunit p hp
  · obtain ⟨hp, hq, hlt, hlow, hhigh⟩ := segment?_spec hincreasing hsegment
    rw [hsegment, heq]
    refine across_within hx (hunit p hp) (hunit q hq) hlt hlow hhigh fun hinfinite => ?_
    exact h ⟨p, q, hsegment, hinfinite⟩

section Slopes

variable {low high core unsupported : Float}

/-- A slope up to a peak and one down from it, -/
theorem triangle_within {peak : Float} (hx : isFinite x = true) (hlow : isNaN low = false)
    (hpeak : isNaN peak = false) (hheights : checkHeights core unsupported true = .ok ()) :
    Within 0 1 ((Shape.triangular low high peak core unsupported).evaluate x) := by
  obtain ⟨hcore, hunsupported⟩ := within_of_checkHeights hheights
  show Within 0 1 (if (x ≤ low || high ≤ x) = true then unsupported else if (x == peak) = true then core
    else if x < peak then slope low peak core unsupported false x
    else slope peak high core unsupported true x)
  split
  next => exact hunsupported
  next =>
    split
    next => exact hcore
    next =>
      split
      next => exact slope_within hx hlow hcore hunsupported
      next => exact slope_within hx hpeak hcore hunsupported

/-- or up to a core and down from its other end. -/
theorem trapezoid_within {coreLow coreHigh : Float} (hx : isFinite x = true) (hlow : isNaN low = false)
    (hcoreHigh : isNaN coreHigh = false) (hheights : checkHeights core unsupported true = .ok ()) :
    Within 0 1 ((Shape.trapezoid low coreLow coreHigh high core unsupported).evaluate x) := by
  obtain ⟨hcore, hunsupported⟩ := within_of_checkHeights hheights
  show Within 0 1 (if (x < low || high < x) = true then unsupported
    else if x < coreLow then slope low coreLow core unsupported false x
    else if coreHigh < x then slope coreHigh high core unsupported true x else core)
  split
  next => exact hunsupported
  next =>
    split
    next => exact slope_within hx hlow hcore hunsupported
    next =>
      split
      next => exact slope_within hx hcoreHigh hcore hunsupported
      next => exact hcore

end Slopes

/-- The families other than straight lines between points. -/
theorem evaluate_within_unit (hE : ExpLaws E) (hvalid : curve.validate = .ok ()) (hidentity : curve ≠ .identity)
    (hpiecewise : ∀ points, curve ≠ .piecewise points) (hx : isFinite x = true)
    (hpositive : ∀ rate limit, curve = .boundedExponential rate limit → (0.0 : Float) ≤ x)
    (h : ¬ curve.Singular x) : Within 0 1 (@evaluate Float (withElementary E) x curve) := by
  have hnumbers := not_isNaN_of_accepted hvalid
  cases curve with
  | identity => exact absurd rfl hidentity
  | constant membership => exact inUnit_iff.mp (ensure_eq_ok_iff.mp hvalid)
  -- a finite line cut at 0 and 1; only NaN could escape the cuts
  | linear gradient offset =>
    obtain ⟨hgradient, hoffset⟩ := Bool.and_eq_true_iff.mp (ensure_eq_ok_iff.mp hvalid)
    have hline : isNaN (if gradient == 0.0 then offset else gradient * x + offset) = false := by
      split
      next => exact not_isNaN_of_isFinite hoffset
      next => exact not_isNaN_add_finite (rounds_mul hgradient hx).not_isNaN hoffset
    exact clipped_line_within hline
  | rectangular low high core unsupported =>
    obtain ⟨-, hheights⟩ := check_bind_eq_ok_iff.mp hvalid
    obtain ⟨hcore, hunsupported⟩ := within_of_checkHeights hheights
    show Within 0 1 (if (x < low || high < x) = true then unsupported else core)
    split
    next => exact hunsupported
    next => exact hcore
  | triangular low high peak core unsupported =>
    obtain ⟨-, hvalid⟩ := check_bind_eq_ok_iff.mp hvalid
    obtain ⟨hpeak, hheights⟩ := check_bind_eq_ok_iff.mp hvalid
    obtain ⟨hlow, hpeak, -⟩ := not_isNaN_of_checkPeak hpeak
    exact triangle_within hx hlow hpeak hheights
  | trapezoid low coreLow coreHigh high core unsupported =>
    obtain ⟨-, hheights⟩ := check_bind_eq_ok_iff.mp hvalid
    exact trapezoid_within hx (hnumbers low (by simp [numbers])) (hnumbers coreHigh (by simp [numbers])) hheights
  | boundedLinear low high core unsupported inverse =>
    obtain ⟨hbounds, hheights⟩ := check_bind_eq_ok_iff.mp hvalid
    obtain ⟨hcore, hunsupported⟩ := within_of_checkHeights hheights
    exact slope_within hx (not_isNaN_of_checkRamp hbounds).1 hcore hunsupported
  | rising low high => exact risingRamp_within hx (not_isNaN_of_checkRamp hvalid).1
  | falling low high => exact fallingRamp_within hx (not_isNaN_of_checkRamp hvalid).1
  | sigmoid limit steepness midpoint =>
    obtain ⟨hlimit, -⟩ := check_bind_eq_ok_iff.mp hvalid
    exact div_one_add_within (within_of_isHeight (ensure_eq_ok_iff.mp hlimit)).1 (expOrOne_nonneg hE _)
  | boundedSigmoid low high inverse => exact logistic_within hE
  -- the three families with an exponential divide by `1 + exp`, which is at least 1 unless it is NaN
  | simpleSigmoid k =>
    have hk : isNaN k = false := hnumbers k (List.mem_singleton_self k)
    have hexponent : isNaN (x * -k) = false := by
      rw [Bool.eq_false_iff, ne_eq, simpleSigmoid_isNaN_iff hx hk]
      exact h
    show Within 0 1 (if (isInfinite x && k == 0.0) = true then 0.5 else 1.0 / (1.0 + E.exp (x * -k)))
    split
    next => exact within_half.mono (by norm_num) (by norm_num)
    next => exact div_one_add_within (within_one.mono zero_le_one le_rfl) (hE.nonneg hexponent)
  | triangularSigmoid low high peak =>
    show Within 0 1 (if x ≤ peak then @logistic Float (withElementary E) low peak false x
      else 1.0 - @logistic Float (withElementary E) peak high false x)
    split
    next => exact logistic_within hE
    next => exact one_sub_within (logistic_within hE)
  | gauss center sharpness height =>
    obtain ⟨hcenter, hvalid⟩ := check_bind_eq_ok_iff.mp hvalid
    obtain ⟨hsharpness, hheight⟩ := check_bind_eq_ok_iff.mp hvalid
    have hc : isNaN center = false := by simpa using ensure_eq_ok_iff.mp hcenter
    have hb := of_decide_eq_true (ensure_eq_ok_iff.mp hsharpness)
    refine gauss_within hE hx hc hb (within_of_isHeight (ensure_eq_ok_iff.mp hheight)).1 ?_
    rw [Bool.eq_false_iff, ne_eq, gauss_isNaN_iff hx hc hb]
    exact h
  | boundedExponential rate limit =>
    obtain ⟨hrate, hlimit⟩ := check_bind_eq_ok_iff.mp hvalid
    have hrate := of_decide_eq_true (ensure_eq_ok_iff.mp hrate)
    refine boundedExponential_within hE (hpositive rate limit rfl) hrate
      (within_of_isHeight (ensure_eq_ok_iff.mp hlimit)).1 ?_
    rw [Bool.eq_false_iff, ne_eq, boundedExponential_isNaN_iff hx hrate]
    exact h
  | singleton location elsewhere height =>
    obtain ⟨-, helsewhere, hheight⟩ := of_validate_singleton hvalid
    show Within 0 1 (if (x == location) = true then height else elsewhere)
    split
    next => exact hheight
    next => exact helsewhere
  | piecewise points => exact absurd rfl (hpiecewise points)

/-- Everywhere else it is a degree, up to the slack of rounding. One case for each family. -/
theorem evaluate_within (hE : ExpLaws E) (hvalid : curve.validate = .ok ()) (hidentity : curve ≠ .identity)
    (hx : isFinite x = true)
    (hpositive : ∀ rate limit, curve = .boundedExponential rate limit → (0.0 : Float) ≤ x)
    (h : ¬ curve.Singular x) :
    Within (-curve.slack x) (1 + curve.slack x) (@evaluate Float (withElementary E) x curve) := by
  by_cases hpiecewise : ∃ points, curve = .piecewise points
  · obtain ⟨points, rfl⟩ := hpiecewise
    show Within _ _ (@interpolate Float (withElementary E) points x)
    rw [interpolate_withElementary]
    exact piecewise_within hvalid hx h
  · have hslack : curve.slack x = 0 := by
      cases curve with
      | piecewise points => exact absurd ⟨points, rfl⟩ hpiecewise
      | _ => rfl
    rw [hslack, neg_zero, add_zero]
    exact evaluate_within_unit hE hvalid hidentity (fun points h => hpiecewise ⟨points, h⟩) hx hpositive h

/-- **An accepted curve has a degree at a finite number unless it is singular there,** and is NaN where it is;
    across a segment the degree may be off by the slack. -/
theorem evaluate_bounded (hE : ExpLaws E) (hvalid : curve.validate = .ok ()) (hidentity : curve ≠ .identity)
    (hx : isFinite x = true) (hpositive : ∀ rate limit, curve = .boundedExponential rate limit → (0.0 : Float) ≤ x) :
    (isNaN (@evaluate Float (withElementary E) x curve) = true ↔ curve.Singular x) ∧
      (¬ curve.Singular x →
        Within (-curve.slack x) (1 + curve.slack x) (@evaluate Float (withElementary E) x curve)) := by
  have hregular := evaluate_within hE hvalid hidentity hx hpositive
  refine ⟨⟨fun hnan => ?_, isNaN_of_singular hE hvalid hx⟩, hregular⟩
  by_contra h
  rw [(hregular h).not_isNaN] at hnan
  cases hnan

end Curves

/-- A step in place of the exponential, which agrees with it at -∞, at 0 and at NaN. -/
@[reducible] def stepExp : Elementary Float :=
  ⟨fun e => if isNaN e then e else if e < 0.0 then 0.0 else 1.0, Float.log, Float.sqrt, Float.pow⟩

theorem stepExp_of_not_isNaN {e : Float} (h : isNaN e = false) :
    stepExp.exp e = if e < 0.0 then 0.0 else 1.0 := by
  show (if isNaN e then e else if e < 0.0 then 0.0 else 1.0) = _
  rw [h, if_neg Bool.false_ne_true]

/-- A step from 0 to 1 is an exponential as far as these bounds go. -/
theorem expLaws_stepExp : ExpLaws stepExp := by
  have hzero : (0.0 : Float) ≤ 0.0 := within_zero.nonneg le_rfl
  have hone : (0.0 : Float) ≤ 1.0 := within_one.nonneg zero_le_one
  refine ⟨fun {x y} h => ?_, fun {x} h => ?_, rfl, fun {x} h => ?_⟩
  · obtain ⟨hx, hy⟩ := not_isNaN_of_le h
    rw [stepExp_of_not_isNaN hx, stepExp_of_not_isNaN hy]
    split
    next =>
      split
      next => exact hzero
      next => exact hone
    next hx0 =>
      rw [← le_iff_not_lt within_zero.not_isNaN hx] at hx0
      rw [if_neg ((le_iff_not_lt within_zero.not_isNaN hy).mp (trans_of_le hx0 h))]
      exact (le_iff_value within_one.finite within_one.finite).mpr le_rfl
  · rw [stepExp_of_not_isNaN h]
    split
    next => exact hzero
    next => exact hone
  · show isNaN (if isNaN x then x else if x < 0.0 then 0.0 else 1.0) = true
    rw [if_pos h]
    exact h

/-- A bell curve so sharp that nothing but its peak is left, beside the peak. -/
theorem evaluate_bounded_sharpGauss :
    let curve : Shape Float := .gauss 2.0 (1.0 / 0.0) 1.0
    curve.validate = .ok () ∧ curve ≠ .identity ∧ isFinite (3.0 : Float) = true ∧
      (∀ rate limit, curve = .boundedExponential rate limit → (0.0 : Float) ≤ 3.0) ∧ ¬ curve.Singular 3.0 ∧
      isNaN (@evaluate Float (withElementary stepExp) 3.0 curve) = false ∧
      Within 0 1 (@evaluate Float (withElementary stepExp) 3.0 curve) := by
  intro curve
  have hvalid : curve.validate = .ok () := outcome_of_toOption (by decide +kernel)
  have hidentity : curve ≠ .identity := by simp [curve]
  have hx : isFinite (3.0 : Float) = true := by decide +kernel
  have hpositive : ∀ rate limit, curve = .boundedExponential rate limit → (0.0 : Float) ≤ 3.0 := by
    simp [curve]
  have hregular : ¬ curve.Singular 3.0 := fun h => absurd h.2 (by decide +kernel)
  obtain ⟨hiff, hwithin⟩ := evaluate_bounded expLaws_stepExp hvalid hidentity hx hpositive
  have h := hwithin hregular
  have hslack : curve.slack 3.0 = 0 := rfl
  rw [hslack, neg_zero, add_zero] at h
  have hnan : isNaN (@evaluate Float (withElementary stepExp) 3.0 curve) = false :=
    Bool.eq_false_iff.mpr fun hnan => hregular (hiff.mp hnan)
  exact ⟨hvalid, hidentity, hx, hpositive, hregular, hnan, h⟩

/-- **Straight lines between points can lead anywhere:** to NaN where the points are too far apart, below 0
    by rounding, and far above 1 where they are too close to each other. -/
theorem interpolation_leaves_unit :
    let wide : Shape Float := .piecewise [(-1e308, 0.0), (1e308, 1.0)]
    let down : Shape Float := .piecewise [(0.0, 0.1), (3.0, 0.0)]
    let narrow : Shape Float := .piecewise [(0.0, 0.4), (5e-324, 1.0)]
    (wide.validate = .ok () ∧ isNaN (wide.evaluate 1e308) = true) ∧
      (down.validate = .ok () ∧ down.evaluate 3.0 < 0.0) ∧
      (narrow.validate = .ok () ∧ (narrow.evaluate 5e-324 == 1.4) = true) := by
  refine ⟨⟨outcome_of_toOption ?_, ?_⟩, ⟨outcome_of_toOption ?_, ?_⟩, outcome_of_toOption ?_, ?_⟩ <;> decide +kernel

end Shape

end FuzzyInference

import FuzzyInference.Proofs.Double.Elementary
import FuzzyInference.Proofs.Double.Width
import FuzzyInference.Proofs.Membership.Degree

/-!
# Interpolation across a segment

Straight lines between points are computed across the segment that holds the number: a product of the
distance with the rise, divided by the width. Nothing holds the result in the unit interval. It is NaN where
the distance is infinite, and otherwise it leaves the interval by an ulp of 1 at most, unless the width is
subnormal: then dividing by it multiplies the rounding error of the product.

## Contents
- `segment?`, `across`, `interpolate_cases`: which segment is used, and how.
- `isNaN_across`: an infinite distance. `across_of_infinite`: an infinite width.
- `slackAcross`, `across_within_of_le`, `across_within_of_ge`: a rise and a fall across a finite width.
- `across_within`: whatever is not NaN.
-/

namespace FuzzyInference

open Scalar Double

/-! ## Segments -/

section Segments

variable {α : Type} [Scalar α]

/-- From a point on, the first segment that holds a number. -/
def segmentFrom? (x : α) (p : α × α) : List (α × α) → Option ((α × α) × (α × α))
  | [] => none
  | q :: rest => if p.1 ≤ x && x ≤ q.1 then some (p, q) else segmentFrom? x q rest

/-- The segment between given points that a number lies in. -/
def segment? (points : List (α × α)) (x : α) : Option ((α × α) × (α × α)) :=
  match points with
  | [] => none
  | p :: rest => if x < p.1 then none else segmentFrom? x p rest

/-- The interpolation across a segment. -/
def across (p q : α × α) (x : α) : α := p.2 + (x - p.1) * (q.2 - p.2) / (q.1 - p.1)

variable {x : α} {p q : α × α} {points : List (α × α)}

/-- The value is a point's own height or lies on the segment that the loop stops at. -/
theorem interpolateFrom_cases (x : α) (p : α × α) (points : List (α × α)) :
    (segmentFrom? x p points = none ∧ ∃ m ∈ (p :: points).map Prod.snd, interpolateFrom x p.1 p.2 points = m) ∨
      ∃ a b, segmentFrom? x p points = some (a, b) ∧ interpolateFrom x p.1 p.2 points = across a b x := by
  induction points generalizing p with
  | nil => exact Or.inl ⟨rfl, p.2, List.mem_cons_self .., rfl⟩
  | cons q rest ih =>
    unfold segmentFrom? interpolateFrom
    by_cases h : (p.1 ≤ x && x ≤ q.1) = true
    · rw [if_pos h, if_pos h]
      exact Or.inr ⟨p, q, rfl, rfl⟩
    · rw [if_neg h, if_neg h]
      exact (ih q).imp_left fun ⟨hnone, m, hm, heq⟩ => ⟨hnone, m, List.mem_cons_of_mem _ hm, heq⟩

/-- Between points one segment is interpolated across, and outside one of the memberships holds. -/
theorem interpolate_cases (hne : points ≠ []) :
    (segment? points x = none ∧ ∃ m ∈ points.map Prod.snd, interpolate points x = m) ∨
      ∃ a b, segment? points x = some (a, b) ∧ interpolate points x = across a b x := by
  cases points with
  | nil => exact absurd rfl hne
  | cons p rest =>
    unfold segment? interpolate
    dsimp only
    by_cases h : x < p.1
    · rw [if_pos h, if_pos h]
      exact Or.inl ⟨rfl, p.2, List.mem_cons_self .., rfl⟩
    · rw [if_neg h, if_neg h]
      exact interpolateFrom_cases x p rest

/-- The segment is one between successive points, and it holds the number. -/
theorem segmentFrom?_spec {a b : α × α} (hincreasing : isIncreasing ((p :: points).map Prod.fst) = true)
    (h : segmentFrom? x p points = some (a, b)) :
    a ∈ p :: points ∧ b ∈ points ∧ a.1 < b.1 ∧ a.1 ≤ x ∧ x ≤ b.1 := by
  induction points generalizing p with
  | nil => cases h
  | cons q rest ih =>
    obtain ⟨hlt, hrest⟩ := Bool.and_eq_true_iff.mp hincreasing
    unfold segmentFrom? at h
    split at h
    next hin =>
      cases h
      obtain ⟨hlow, hhigh⟩ := Bool.and_eq_true_iff.mp hin
      exact ⟨List.mem_cons_self .., List.mem_cons_self .., of_decide_eq_true hlt, of_decide_eq_true hlow,
        of_decide_eq_true hhigh⟩
    next =>
      obtain ⟨ha, hb, h⟩ := ih hrest h
      exact ⟨List.mem_cons_of_mem _ ha, List.mem_cons_of_mem _ hb, h⟩

/-- The segment has its ends among the points, in order and around `x`. -/
theorem segment?_spec {a b : α × α} (hincreasing : isIncreasing (points.map Prod.fst) = true)
    (h : segment? points x = some (a, b)) :
    a ∈ points ∧ b ∈ points ∧ a.1 < b.1 ∧ a.1 ≤ x ∧ x ≤ b.1 := by
  cases points with
  | nil => cases h
  | cons p rest =>
    unfold segment? at h
    dsimp only at h
    split at h
    next => cases h
    next =>
      obtain ⟨ha, hb, h⟩ := segmentFrom?_spec hincreasing h
      exact ⟨ha, List.mem_cons_of_mem _ hb, h⟩

end Segments

/-- Interpolation uses no elementary function. -/
theorem interpolateFrom_withElementary (E : Elementary Float) (x x₁ m₁ : Float)
    (points : List (Float × Float)) :
    @interpolateFrom Float (withElementary E) x x₁ m₁ points = interpolateFrom x x₁ m₁ points := by
  induction points generalizing x₁ m₁ with
  | nil => rfl
  | cons q rest ih =>
    unfold interpolateFrom
    rw [ih]

/-- Interpolation uses no function of the mathematical library. -/
theorem interpolate_withElementary (E : Elementary Float) (points : List (Float × Float)) (x : Float) :
    @interpolate Float (withElementary E) points x = interpolate points x := by
  cases points with
  | nil => rfl
  | cons p rest =>
    unfold interpolate
    dsimp only
    rw [interpolateFrom_withElementary]

/-- How far from the unit interval rounding can lead across a segment: an ulp of 1, unless the segment is so
    narrow that its width is subnormal. -/
def slackAcross (p q : Float × Float) : ℚ := if 2 ^ (-1022 : ℤ) ≤ value (q.1 - p.1) then 2 ^ (-52 : ℤ) else 1

theorem slackAcross_nonneg (p q : Float × Float) : 0 ≤ slackAcross p q := by
  unfold slackAcross
  split
  next => exact (zpow_pos two_pos _).le
  next => exact zero_le_one

section Across

variable {x : Float} {p q : Float × Float}

/-- Where the distance from a bound of an interval is infinite, so is the width. -/
theorem isInfinite_width {low high : Float} (hx : isFinite x = true) (hlow : low ≤ x) (hhigh : x ≤ high)
    (h : isInfinite (x - low) = true) : isInfinite (high - low) = true := by
  by_contra hwidth
  rw [Bool.not_eq_true] at hwidth
  have hdistance := (spanned_of_le hx hlow hhigh hwidth).distance
  rw [not_isInfinite_of_isFinite hdistance.finite] at h
  cases h

/-- An infinite distance meets an infinite width in NaN. -/
theorem isNaN_across (hx : isFinite x = true) (hlow : p.1 ≤ x) (hhigh : x ≤ q.1)
    (h : isInfinite (x - p.1) = true) : isNaN (across p q x) = true := by
  obtain ⟨s, hs⟩ := infinity_of_isInfinite h
  obtain ⟨t, ht⟩ := infinity_of_isInfinite (isInfinite_width hx hlow hhigh h)
  exact isNaN_add_right (isNaN_div_infinity (not_isFinite_infinity_mul hs) ht)

/-- A finite distance is nothing against an infinite width. -/
theorem across_of_infinite (hp : isFinite p.2 = true) (hg : Within (-1) 1 (q.2 - p.2))
    (hd : isFinite (x - p.1) = true) (h : isInfinite (q.1 - p.1) = true) :
    Within (value p.2) (value p.2) (across p q x) := by
  obtain ⟨s, hs⟩ := infinity_of_isInfinite h
  have hexact : Exact (|value (x - p.1)| * 1) := by
    rw [mul_one]
    rcases abs_choice (value (x - p.1)) with h | h <;> rw [h]
    · exact exact_value hd
    · exact (exact_value hd).neg
  have hproduct : Within _ _ ((x - p.1) * (q.2 - p.2)) :=
    Within.mul_abs ⟨hd, neg_abs_le _, le_abs_self _⟩ hg hexact
  obtain ⟨hquotient, hzero⟩ := isFinite_div_infinity hproduct.finite hs
  have hround := rounds_add hp hquotient
  rw [hzero, add_zero] at hround
  exact hround.within (exact_value hp) (exact_value hp) le_rfl le_rfl

/-- The bounds with their slack are doubles, so rounding does not cross them. -/
theorem exact_slack : Exact (-slackAcross p q) ∧ Exact (1 + slackAcross p q) := by
  unfold slackAcross
  split
  next =>
    have hulp : (1 + 2 ^ (-52 : ℤ) : ℚ) = ((2 ^ 52 + 1 : ℕ) : ℚ) * 2 ^ (-52 : ℤ) := by norm_num
    rw [hulp]
    exact ⟨(exact_two_zpow (by norm_num) (by norm_num)).neg,
      exact_mul_zpow (by norm_num) (by norm_num) (by norm_num)⟩
  next =>
    rw [one_add_one_eq_two]
    exact ⟨exact_one.neg, exact_two⟩

/-- A share that is at most 1 leads no further than the slack from a degree that it is at most the rest
    of, -/
theorem add_le_add_slack {m t : ℚ} (h0 : 0 ≤ m) (h1 : m ≤ 1) (ht : t ≤ 1)
    (hwide : 2 ^ (-1022 : ℤ) ≤ value (q.1 - p.1) → t ≤ nearest (1 - m) + 3 * 2 ^ (-54 : ℤ)) :
    m + t ≤ 1 + slackAcross p q := by
  unfold slackAcross
  split
  next h =>
    have hshare := hwide h
    have hrest := add_nearest_one_sub_le h0 h1
    norm_num at hshare hrest ⊢
    linarith
  next => linarith

/-- and no further below zero from a degree that it is at most the whole of. -/
theorem neg_slack_le_sub {m t : ℚ} (h0 : 0 ≤ m) (ht : t ≤ 1)
    (hwide : 2 ^ (-1022 : ℤ) ≤ value (q.1 - p.1) → t ≤ m + 3 * 2 ^ (-54 : ℤ)) :
    -slackAcross p q ≤ m - t := by
  unfold slackAcross
  split
  next h =>
    have hshare := hwide h
    norm_num at hshare ⊢
    linarith
  next => linarith

/-! ### Finite widths -/

section Finite

variable (hp : Within 0 1 p.2) (hq : Within 0 1 q.2)
include hp hq

theorem rise_within : Within (-1) 1 (q.2 - p.2) := by
  have h := hq.sub hp (by norm_num; exact exact_one.neg) (by norm_num; exact exact_one)
  norm_num at h
  exact h

variable (hw : isFinite (q.1 - p.1) = true) (hpos : 0 < value (q.1 - p.1))
  (hd : Within 0 (value (q.1 - p.1)) (x - p.1))
include hw hpos hd

/-- A rise is no more than what the first degree lacks of 1. -/
theorem across_within_of_le (h : value p.2 ≤ value q.2) :
    Within (-slackAcross p q) (1 + slackAcross p q) (across p q x) := by
  have hslack := slackAcross_nonneg p q
  have hg := rise_within hp hq
  have hrise := (rounds_sub hq.finite hp.finite).value_eq hg.finite
  obtain ⟨hfinite, hup, -⟩ := value_mul_div hw hd hpos hg
  have hg0 : 0 ≤ value (q.2 - p.2) := by
    rw [hrise]
    exact nearest_nonneg (sub_nonneg.mpr h)
  have hrest : value (q.2 - p.2) ≤ nearest (1 - value p.2) := hrise ▸ nearest_mono (by linarith [hq.ge])
  obtain ⟨-, -, ht0, ht1⟩ := nearest_quotient_mem hd.le hd.ge (exact_value hw) hpos hg0 hg.ge
  have hsum := rounds_add hp.finite hfinite
  rw [hup hg0] at hsum
  refine hsum.within exact_slack.1 exact_slack.2 (by linarith [hp.le]) ?_
  refine add_le_add_slack hp.le hp.ge ht1 fun hwide => ?_
  linarith [nearest_quotient_le hd.le hd.ge hwide hg0 hg.ge]

/-- A fall is no more than the first degree. -/
theorem across_within_of_ge (h : value q.2 ≤ value p.2) :
    Within (-slackAcross p q) (1 + slackAcross p q) (across p q x) := by
  have hslack := slackAcross_nonneg p q
  have hg := rise_within hp hq
  obtain ⟨hfinite, -, hdown⟩ := value_mul_div hw hd hpos hg
  have hfall : -value (q.2 - p.2) = nearest (value p.2 - value q.2) := by
    rw [(rounds_sub hq.finite hp.finite).value_eq hg.finite, ← nearest_neg, neg_sub]
  have hg0 : 0 ≤ -value (q.2 - p.2) := by
    rw [hfall]
    exact nearest_nonneg (sub_nonneg.mpr h)
  have hwhole : -value (q.2 - p.2) ≤ value p.2 := by
    have hmono := nearest_mono (sub_le_self (value p.2) hq.le)
    rwa [(exact_value hp.finite).nearest_eq, ← hfall] at hmono
  have hg1 := hwhole.trans hp.ge
  obtain ⟨-, -, ht0, ht1⟩ := nearest_quotient_mem hd.le hd.ge (exact_value hw) hpos hg0 hg1
  have hsum := rounds_add hp.finite hfinite
  rw [hdown (neg_nonneg.mp hg0), ← sub_eq_add_neg] at hsum
  refine hsum.within exact_slack.1 exact_slack.2 ?_ (by linarith [hp.ge])
  refine neg_slack_le_sub hp.le ht1 fun hwide => ?_
  linarith [nearest_quotient_le hd.le hd.ge hwide hg0 hg1]

end Finite

/-- The interpolation across a segment stays near the unit interval where the distance from its first point
    is a number. -/
theorem across_within (hx : isFinite x = true) (hp : Within 0 1 p.2) (hq : Within 0 1 q.2) (hlt : p.1 < q.1)
    (hlow : p.1 ≤ x) (hhigh : x ≤ q.1) (h : ¬ isInfinite (x - p.1) = true) :
    Within (-slackAcross p q) (1 + slackAcross p q) (across p q x) := by
  by_cases hinfinite : isInfinite (q.1 - p.1) = true
  · have hslack := slackAcross_nonneg p q
    have hdistance := isFinite_of_not_isInfinite (not_isNaN_finite_sub hx (not_isNaN_of_lt hlt).1)
      (Bool.eq_false_iff.mpr h)
    refine (across_of_infinite hp.finite (rise_within hp hq) hdistance hinfinite).mono ?_ ?_
    · linarith [hp.le]
    · linarith [hp.ge]
  · rw [Bool.not_eq_true] at hinfinite
    have hspan := spanned_of_le hx hlow hhigh hinfinite
    have hlt := (lt_iff_value hspan.finite_low hspan.finite_high).mp hlt
    have hpos := sub_pos_of_lt hspan.finite_low hspan.finite_high hlt hspan.finite_width
    rcases le_total (value p.2) (value q.2) with hle | hge
    · exact across_within_of_le hp hq hspan.finite_width hpos hspan.distance hle
    · exact across_within_of_ge hp hq hspan.finite_width hpos hspan.distance hge

end Across

end FuzzyInference

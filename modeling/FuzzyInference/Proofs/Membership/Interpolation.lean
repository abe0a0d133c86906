import FuzzyInference.Proofs.Membership.Ramp
import FuzzyInference.Proofs.Membership.Segment

/-!
# Interpolation between points

The points are visited one by one, with a look at the next one, until one of several conditions gives an
answer. In exact arithmetic, between points in ascending order, the answer is that of the straight line
between the two points that enclose the number. A point in the middle ends one segment and begins another
one, and the lines meet there; the induction over the points therefore needs no more than that the first
segment that holds a number is as good as any.

## Contents
- `search`: the visits. `search_eq`: they end with an answer, which is the interpolation.
- `Ascending.meets`: where segments meet. `interpolate_of_consecutive`, `interpolate_of_le_head`,
  `interpolate_of_getLast_le`: what the interpolation is.
- `Interpolates`: what interpolation means. `Shape.piecewise_interpolates`: accepted points do so.
-/

set_option linter.unusedSectionVars false

namespace FuzzyInference

open Scalar

/-! ## The visits -/

section Visits

variable {α : Type} [Scalar α]

/-- The answer at a point, if it is given there: before the first point, behind the last one or at it, and
    up to the next one. -/
def visit (x : α) (first : Bool) (p : α × α) (next : Option (α × α)) : Option α :=
  if first && x < p.1 then some p.2
  else if next.isNone && p.1 < x then some p.2
  else match next with
    | none => some p.2
    | some q => if p.1 ≤ x && x ≤ q.1 then some (across p q x) else none

/-- The answer at the first of the remaining points that gives one. -/
def search (x : α) (first : Bool) : List (α × α) → Option α
  | [] => none
  | p :: rest =>
    match visit x first p rest.head? with
    | some m => some m
    | none => search x false rest

/-- At the last point the answer is its membership, by one condition or the other. -/
theorem visit_last (x : α) (first : Bool) (p : α × α) : visit x first p none = some p.2 := by
  unfold visit
  split
  next => rfl
  next =>
    split
    next => rfl
    next => rfl

/-- The first point differs in what it holds before it. -/
theorem visit_first (x : α) (p : α × α) (next : Option (α × α)) :
    visit x true p next = if x < p.1 then some p.2 else visit x false p next := by
  unfold visit
  by_cases h : x < p.1
  · rw [if_pos h, if_pos (Bool.and_eq_true_iff.mpr ⟨rfl, decide_eq_true h⟩)]
  · have hfirst : ¬ (true && decide (x < p.1)) = true := fun hand =>
      h (of_decide_eq_true (Bool.and_eq_true_iff.mp hand).2)
    rw [if_neg h, if_neg hfirst]
    rfl

/-- A point in the middle gives the answer across its segment or none. -/
theorem visit_next (x : α) (p q : α × α) :
    visit x false p (some q) = if p.1 ≤ x && x ≤ q.1 then some (across p q x) else none := rfl

theorem search_of_not_first (x : α) (p : α × α) (rest : List (α × α)) :
    search x false (p :: rest) = some (interpolateFrom x p.1 p.2 rest) := by
  induction rest generalizing p with
  | nil => rw [search, List.head?_nil, visit_last, interpolateFrom]
  | cons q rest ih =>
    rw [search, List.head?_cons, visit_next, interpolateFrom]
    by_cases h : (p.1 ≤ x && x ≤ q.1) = true
    · rw [if_pos h, if_pos h]
      rfl
    · rw [if_neg h, if_neg h]
      exact ih q

/-- Where there are points, one of them gives an answer, so that the value for no points at all is not
    used. -/
theorem search_eq {points : List (α × α)} (h : points ≠ []) (x : α) :
    search x true points = some (interpolate points x) := by
  cases points with
  | nil => exact absurd rfl h
  | cons p rest =>
    rw [search, visit_first]
    unfold interpolate
    dsimp only
    by_cases hfirst : x < p.1
    · rw [if_pos hfirst, if_pos hfirst]
    · rw [if_neg hfirst, if_neg hfirst]
      exact search_of_not_first x p rest

end Visits

/-! ## Between points -/

section Points

open AffineMap

variable {K : Type} [Field K] [LinearOrder K] [IsStrictOrderedRing K] [FloorRing K] [Elementary K]
variable {x : K} {p q : K × K} {points rest : List (K × K)}

/-- Points of which each lies before all that follow. -/
def Ascending (points : List (K × K)) : Prop := points.Pairwise fun p q => p.1 < q.1

/-- The line between two points, as the affine map through them. -/
theorem across_eq (p q : K × K) (x : K) :
    across p q x = lineMap p.2 q.2 ((x - p.1) / (q.1 - p.1)) := by
  show p.2 + (x - p.1) * (q.2 - p.2) / (q.1 - p.1) = _
  rw [lineMap_apply_ring', add_comm, mul_div_right_comm]

theorem across_left (p q : K × K) : across p q p.1 = p.2 := by
  rw [across_eq, sub_self, zero_div, lineMap_apply_zero]

theorem across_right (h : p.1 < q.1) : across p q q.1 = q.2 := by
  rw [across_eq, div_self (sub_pos.mpr h).ne', lineMap_apply_one]

/-- What is given across a segment lies between the memberships at its ends. -/
theorem across_mem_uIcc (h : p.1 < q.1) (hlow : p.1 ≤ x) (hhigh : x ≤ q.1) :
    across p q x ∈ Set.uIcc p.2 q.2 := by
  rw [across_eq, ← share_of_mem h hlow hhigh]
  exact lineMap_mem_uIcc p.2 q.2 (share_nonneg p.1 q.1 x) (share_le_one p.1 q.1 x)

/-- Neighbours in a list stand at its head or in its tail. -/
theorem infix_pair_cons {a b : K × K} (h : [a, b] <:+: p :: q :: rest) :
    (a = p ∧ b = q) ∨ [a, b] <:+: q :: rest := by
  rcases List.infix_cons_iff.mp h with h | h
  · obtain ⟨ha, h⟩ := List.cons_prefix_cons.mp h
    exact Or.inl ⟨ha, (List.cons_prefix_cons.mp h).1⟩
  · exact Or.inr h

theorem Ascending.le_of_mem (h : Ascending (p :: rest)) (hq : q ∈ p :: rest) : p.1 ≤ q.1 := by
  rcases List.mem_cons.mp hq with rfl | hq
  · exact le_rfl
  · exact (List.rel_of_pairwise_cons h hq).le

/-- The head of ascending points is the only one at its place or before. -/
theorem Ascending.eq_of_le (h : Ascending (p :: rest)) (hq : q ∈ p :: rest) (hle : q.1 ≤ p.1) : q = p := by
  rcases List.mem_cons.mp hq with rfl | hq
  · rfl
  · exact absurd (List.rel_of_pairwise_cons h hq) hle.not_gt

theorem Ascending.tail (h : Ascending (p :: rest)) : Ascending rest := (List.pairwise_cons.mp h).2

/-- A segment that holds a number from a later point on ends at that point, and at the number. -/
theorem Ascending.meets {r : K × K} (h : Ascending (p :: r :: rest)) (hq : q ∈ r :: rest) (hlow : q.1 ≤ x)
    (hhigh : x ≤ r.1) : x = q.1 ∧ across p r x = q.2 := by
  have hlt : p.1 < r.1 := List.rel_of_pairwise_cons h (List.mem_cons_self ..)
  have hqr := h.tail.eq_of_le hq (hlow.trans hhigh)
  subst hqr
  have hx := le_antisymm hhigh hlow
  exact ⟨hx, hx ▸ across_right hlt⟩

/-! ### The visits from a point on -/

/-- A point has its own membership, across the segment that ends there. -/
theorem interpolateFrom_of_mem (h : Ascending (p :: rest)) (hq : q ∈ p :: rest) :
    interpolateFrom q.1 p.1 p.2 rest = q.2 := by
  induction rest generalizing p with
  | nil =>
    rw [List.mem_singleton.mp hq]
    rfl
  | cons r rest ih =>
    rw [interpolateFrom]
    rcases List.mem_cons.mp hq with rfl | hq
    · have hle : q.1 ≤ r.1 := h.le_of_mem (List.mem_cons_of_mem q (List.mem_cons_self ..))
      have hin : (decide (q.1 ≤ q.1) && decide (q.1 ≤ r.1)) = true := by
        rw [decide_eq_true le_rfl, decide_eq_true hle, Bool.and_true]
      exact (if_pos hin).trans (across_left q r)
    · split
      next hin => exact (h.meets hq le_rfl (of_decide_eq_true (Bool.and_eq_true_iff.mp hin).2)).2
      next => exact ih h.tail hq

/-- Behind the last point its membership is held. -/
theorem interpolateFrom_of_getLast_le (h : Ascending (p :: rest)) (hq : q ∈ (p :: rest).getLast?)
    (hx : q.1 ≤ x) : interpolateFrom x p.1 p.2 rest = q.2 := by
  induction rest generalizing p with
  | nil =>
    cases hq
    rfl
  | cons r rest ih =>
    rw [List.getLast?_cons_cons] at hq
    rw [interpolateFrom]
    split
    next hin =>
      -- no segment holds a number behind the last point, except the point itself
      have hle : x ≤ r.1 := of_decide_eq_true (Bool.and_eq_true_iff.mp hin).2
      exact (h.meets (List.mem_of_getLast? hq) hx hle).2
    next => exact ih h.tail hq

/-- The first segment that holds a number is as good as any other. -/
theorem interpolateFrom_of_consecutive (h : Ascending (p :: rest)) {a b : K × K}
    (hab : [a, b] <:+: p :: rest) (hlow : a.1 ≤ x) (hhigh : x ≤ b.1) :
    interpolateFrom x p.1 p.2 rest = across a b x := by
  induction rest generalizing p with
  | nil => exact absurd hab.length_le (by simp)
  | cons r rest ih =>
    rw [interpolateFrom]
    rcases infix_pair_cons hab with ⟨rfl, rfl⟩ | hab
    · have hin : (decide (a.1 ≤ x) && decide (x ≤ b.1)) = true := by
        rw [decide_eq_true hlow, decide_eq_true hhigh, Bool.and_true]
      exact if_pos hin
    · split
      next hin =>
        -- the segments meet at their common point, and both give its membership there
        have hle : x ≤ r.1 := of_decide_eq_true (Bool.and_eq_true_iff.mp hin).2
        obtain ⟨hx, hacross⟩ := h.meets (hab.subset (List.mem_cons_self ..)) hlow hle
        have hother : across a b x = a.2 := by rw [hx, across_left]
        exact hacross.trans hother.symm
      next => exact ih h.tail hab

/-! ### All visits -/

/-- Left of all points the first one's height is kept. -/
theorem interpolate_of_le_head (h : Ascending points) (hp : p ∈ points.head?) (hx : x ≤ p.1) :
    interpolate points x = p.2 := by
  cases points with
  | nil => cases hp
  | cons first rest =>
    cases hp
    unfold interpolate
    dsimp only
    split
    next => rfl
    next hge =>
      rw [le_antisymm hx (not_lt.mp hge)]
      exact interpolateFrom_of_mem h (List.mem_cons_self ..)

/-- From the first point on. -/
theorem interpolate_cons (h : Ascending (p :: rest)) (hq : q ∈ p :: rest) (hx : q.1 ≤ x) :
    interpolate (p :: rest) x = interpolateFrom x p.1 p.2 rest :=
  if_neg ((h.le_of_mem hq).trans hx).not_gt

/-- Right of all points the last one's height is kept. -/
theorem interpolate_of_getLast_le (h : Ascending points) (hp : p ∈ points.getLast?) (hx : p.1 ≤ x) :
    interpolate points x = p.2 := by
  cases points with
  | nil => cases hp
  | cons first rest =>
    rw [interpolate_cons h (List.mem_of_getLast? hp) hx]
    exact interpolateFrom_of_getLast_le h hp hx

theorem interpolate_of_mem (h : Ascending points) (hp : p ∈ points) : interpolate points p.1 = p.2 := by
  cases points with
  | nil => cases hp
  | cons first rest =>
    rw [interpolate_cons h hp le_rfl]
    exact interpolateFrom_of_mem h hp

/-- Between neighbours it lies on the line through them. -/
theorem interpolate_of_consecutive (h : Ascending points) (hpq : [p, q] <:+: points) (hlow : p.1 ≤ x)
    (hhigh : x ≤ q.1) : interpolate points x = across p q x := by
  cases points with
  | nil => exact absurd hpq.length_le (by simp)
  | cons first rest =>
    rw [interpolate_cons h (hpq.subset (List.mem_cons_self ..)) hlow]
    exact interpolateFrom_of_consecutive h hpq hlow hhigh

/-! ## What interpolation means -/

/-- A number has the membership of the first point at and before it, that of the last point at and behind it,
    that of a point at the point, and between two points the one on the straight line. -/
structure Interpolates (points : List (K × K)) (x m : K) : Prop where
  first : ∀ p ∈ points.head?, x ≤ p.1 → m = p.2
  last : ∀ p ∈ points.getLast?, p.1 ≤ x → m = p.2
  point : ∀ p ∈ points, x = p.1 → m = p.2
  segment : ∀ p q, [p, q] <:+: points → p.1 ≤ x → x ≤ q.1 →
    m = lineMap p.2 q.2 ((x - p.1) / (q.1 - p.1))

/-- Where a number lies: outside, or across a segment. -/
theorem exists_enclosing (h : points ≠ []) (x : K) :
    (∃ p ∈ points.head?, x ≤ p.1) ∨ (∃ p ∈ points.getLast?, p.1 ≤ x) ∨
      ∃ p q, [p, q] <:+: points ∧ p.1 < x ∧ x ≤ q.1 := by
  induction points with
  | nil => exact absurd rfl h
  | cons p rest ih =>
    rcases le_or_gt x p.1 with hx | hx
    · exact Or.inl ⟨p, rfl, hx⟩
    · cases rest with
      | nil => exact Or.inr (Or.inl ⟨p, rfl, hx.le⟩)
      | cons q rest =>
        rcases ih (List.cons_ne_nil q rest) with ⟨r, hr, hle⟩ | ⟨r, hr, hle⟩ | ⟨a, b, hab, hlow, hhigh⟩
        · cases hr
          exact Or.inr (Or.inr ⟨p, q, (List.prefix_append [p, q] rest).isInfix, hx, hle⟩)
        · exact Or.inr (Or.inl ⟨r, List.getLast?_cons_cons.trans hr, hle⟩)
        · exact Or.inr (Or.inr ⟨a, b, List.infix_cons hab, hlow, hhigh⟩)

/-- The loop computes an interpolation. -/
theorem interpolates_interpolate (h : Ascending points) (x : K) :
    Interpolates points x (interpolate points x) where
  first _ hp hx := interpolate_of_le_head h hp hx
  last _ hp hx := interpolate_of_getLast_le h hp hx
  point _ hp hx := hx ▸ interpolate_of_mem h hp
  segment p q hpq hlow hhigh := (interpolate_of_consecutive h hpq hlow hhigh).trans (across_eq p q x)

/-- There is only one interpolation, as neighbours agree at the point between them. -/
theorem Interpolates.unique (hne : points ≠ []) {m m' : K} (h : Interpolates points x m)
    (h' : Interpolates points x m') : m = m' := by
  rcases exists_enclosing hne x with ⟨p, hp, hx⟩ | ⟨p, hp, hx⟩ | ⟨p, q, hpq, hlow, hhigh⟩
  · exact (h.first p hp hx).trans (h'.first p hp hx).symm
  · exact (h.last p hp hx).trans (h'.last p hp hx).symm
  · exact (h.segment p q hpq hlow.le hhigh).trans (h'.segment p q hpq hlow.le hhigh).symm

/-! ## Accepted points -/

theorem isChain_of_isIncreasing {xs : List K} (h : isIncreasing xs = true) : xs.IsChain (· < ·) := by
  induction xs with
  | nil => exact List.isChain_nil
  | cons x xs ih =>
    cases xs with
    | nil => exact List.isChain_singleton x
    | cons y rest =>
      obtain ⟨hlt, hrest⟩ := Bool.and_eq_true_iff.mp h
      exact List.isChain_cons_cons.mpr ⟨of_decide_eq_true hlt, ih hrest⟩

theorem Shape.ascending_of_accepted (h : (Shape.piecewise points).validate = .ok ()) :
    points ≠ [] ∧ Ascending points := by
  obtain ⟨hlength, h⟩ := check_bind_eq_ok_iff.mp h
  obtain ⟨hincreasing, -⟩ := check_bind_eq_ok_iff.mp h
  have hchain := isChain_of_isIncreasing (ensure_eq_ok_iff.mp hincreasing)
  refine ⟨?_, List.pairwise_map.mp (List.isChain_iff_pairwise.mp hchain)⟩
  rintro rfl
  exact absurd (ensure_eq_ok_iff.mp hlength) (by simp)

/-- **Accepted points are interpolated between:** of all numbers the membership alone is what interpolation
    means, it lies between the memberships of the points that enclose the number, and the visits of the
    points end with it. -/
theorem Shape.piecewise_interpolates (h : (Shape.piecewise points).validate = .ok ()) (x : K) :
    (∀ m, Interpolates points x m ↔ m = (Shape.piecewise points).evaluate x) ∧
      ((∃ p ∈ points.head?, x ≤ p.1) ∨ (∃ p ∈ points.getLast?, p.1 ≤ x) ∨
        ∃ p q, [p, q] <:+: points ∧ p.1 < x ∧ x ≤ q.1) ∧
      (∀ p q, [p, q] <:+: points → p.1 ≤ x → x ≤ q.1 →
        (Shape.piecewise points).evaluate x ∈ Set.uIcc p.2 q.2) ∧
      search x true points = some ((Shape.piecewise points).evaluate x) := by
  obtain ⟨hne, hascending⟩ := ascending_of_accepted h
  have hmeans := interpolates_interpolate hascending x
  refine ⟨fun m => ⟨fun hm => hm.unique hne hmeans, fun hm => hm ▸ hmeans⟩, exists_enclosing hne x,
    fun p q hpq hlow hhigh => ?_, search_eq hne x⟩
  show interpolate points x ∈ _
  rw [interpolate_of_consecutive hascending hpq hlow hhigh]
  have hlt : p.1 < q.1 := List.rel_of_pairwise_cons (hascending.sublist hpq.sublist) (List.mem_cons_self ..)
  exact across_mem_uIcc hlt hlow hhigh

/-- Over the rationals, at 3/2 between 1 and 2. -/
theorem Shape.piecewise_interpolates_rat :
    (Shape.piecewise [((0 : ℚ), 0), (1, 1 / 2), (2, 1)]).validate = .ok () ∧
      search (3 / 2) true [((0 : ℚ), 0), (1, 1 / 2), (2, 1)] = some (3 / 4) := by
  have hvalid : (Shape.piecewise [((0 : ℚ), 0), (1, 1 / 2), (2, 1)]).validate = .ok () :=
    outcome_of_toOption (by decide +kernel)
  obtain ⟨-, -, -, hsearch⟩ := Shape.piecewise_interpolates hvalid (3 / 2)
  exact ⟨hvalid, hsearch.trans (congrArg some (by decide +kernel))⟩

end Points

end FuzzyInference

import FuzzyInference.Proofs.Scalar.Ordered
import FuzzyInference.Store.Sampling

/-!
# Putting a point into an ascending list

In an ascending list of numbers a search by halving finds a point equal to a number, or else the one place
where the number can be put in so that the list goes on ascending. What is put in there is what `insertPoint`
puts in, which goes through the list from its beginning.

## Contents
- `Place`, `placeOf`: the search. `Place.putInto`: what is done with its answer.
- `Narrowed`: what the search knows of a stretch of the list. `narrow_narrowed`: it keeps knowing this.
- `placeOf_cases`: what the answer says.
- `insertPoint_of_split`, `insertPoint_of_beq`, `insertPoint_eq_putInto`: putting in as searching.
-/

namespace FuzzyInference

open Scalar

section

variable {α : Type} [Scalar α]

/-! ## The search -/

/-- How a point compares with a number. What does not compare counts as less. -/
def comparedTo (c p : α) : Ordering :=
  if p < c then .lt else if p == c then .eq else if c < p then .gt else .lt

/-- Halves the stretch of `size` points from `base` on until it has one point left. -/
def narrow (c : α) (points : List α) (base size : Nat) : Nat :=
  if 1 < size then
    let half := size / 2
    if points[base + half]?.any (comparedTo c · == .gt) then narrow c points base (size - half)
    else narrow c points (base + half) (size - half)
  else base
termination_by size

/-- Where a list has a number, or where it would have it. -/
inductive Place where
  | found (index : Nat)
  | missing (index : Nat)
  deriving DecidableEq, Repr

/-- The place of a number in an ascending list, by halving. -/
def placeOf (c : α) (points : List α) : Place :=
  let i := narrow c points 0 points.length
  match points[i]? with
  | none => .missing i
  | some p =>
    match comparedTo c p with
    | .eq => .found i
    | .lt => .missing (i + 1)
    | .gt => .missing i

/-- Puts a number into a list at its place, unless the list has it. -/
def Place.putInto (points : List α) (c : α) : Place → List α
  | .found _ => points
  | .missing i => points.take i ++ c :: points.drop i

end

/-! ## What it finds -/

open Ordered

variable {α : Type} [Scalar α] [Ordered α] {c : α} {points : List α} {base size : Nat}

/-- What is known of a stretch: it is not empty, its first point is not above the number unless it is the first
    of all, and all points behind it are above the number. -/
structure Narrowed (c : α) (points : List α) (base size : Nat) : Prop where
  pos : 0 < size
  inside : base + size ≤ points.length
  below : base = 0 ∨ ∀ p, points[base]? = some p → ¬ c < p
  above : ∀ j p, base + size ≤ j → points[j]? = some p → c < p

omit [Ordered α] in
/-- The element a search looks at next lies in the list. -/
theorem Narrowed.middle (h : Narrowed c points base size) (hsize : 1 < size) : base + size / 2 < points.length := by
  have := h.inside
  omega

/-- Numbers compare in one of three ways. -/
theorem comparedTo_cases {p : α} (hc : isNaN c = false) (hp : isNaN p = false) :
    p < c ∧ comparedTo c p = .lt ∨ (p == c) = true ∧ comparedTo c p = .eq ∨ c < p ∧ comparedTo c p = .gt := by
  unfold comparedTo
  by_cases hlt : p < c
  · exact Or.inl ⟨hlt, if_pos hlt⟩
  have hle : c ≤ p := not_not.mp fun hnot => hlt ((lt_iff hp hc).mpr hnot)
  by_cases hgt : c < p
  · have hne : ¬ (p == c) = true := fun h => (not_lt_of_beq h).2 hgt
    exact Or.inr (Or.inr ⟨hgt, by rw [if_neg hlt, if_neg hne, if_pos hgt]⟩)
  · have hge : p ≤ c := not_not.mp fun hnot => hgt ((lt_iff hc hp).mpr hnot)
    have heq : (p == c) = true := beq_iff.mpr ⟨hge, hle⟩
    exact Or.inr (Or.inl ⟨heq, by rw [if_neg hlt, if_pos heq]⟩)

theorem comparedTo_eq_gt_iff {p : α} (hc : isNaN c = false) (hp : isNaN p = false) :
    comparedTo c p = .gt ↔ c < p := by
  rcases comparedTo_cases hc hp with ⟨h, heq⟩ | ⟨h, heq⟩ | ⟨h, heq⟩ <;> rw [heq]
  · exact iff_of_false Ordering.noConfusion fun hgt => (lt_iff hp hc).mp h (le_of_lt hc hp hgt)
  · exact iff_of_false Ordering.noConfusion (not_lt_of_beq h).2
  · exact iff_of_true rfl h

omit [Ordered α] in
/-- The back part of a stretch, if a point in the middle is not above the number. -/
theorem Narrowed.back {half : Nat} {p : α} (h : Narrowed c points base size) (hhalf : half < size)
    (hp : points[base + half]? = some p) (habove : ¬ c < p) : Narrowed c points (base + half) (size - half) where
  pos := by omega
  inside := by
    have := h.inside
    omega
  below := Or.inr fun q hq => (Option.some.inj (hp.symm.trans hq)) ▸ habove
  above j q hj hq := h.above j q (by omega) hq

section Ascending

variable (hnumbers : ∀ p ∈ points, isNaN p = false) (hascending : points.Pairwise (· ≤ ·))
include hnumbers hascending

theorem le_of_index {i j : Nat} {p q : α} (hij : i ≤ j) (hp : points[i]? = some p) (hq : points[j]? = some q) :
    p ≤ q := by
  obtain ⟨hi, rfl⟩ := List.getElem?_eq_some_iff.mp hp
  obtain ⟨hj, rfl⟩ := List.getElem?_eq_some_iff.mp hq
  rcases Nat.lt_or_eq_of_le hij with hlt | rfl
  · exact List.pairwise_iff_getElem.mp hascending i j hi hj hlt
  · exact le_refl (hnumbers _ (List.getElem_mem hi))

variable (hc : isNaN c = false)
include hc

/-- The front part of a stretch, if a point in the middle is above the number. -/
theorem Narrowed.front {half : Nat} {p : α} (h : Narrowed c points base size) (hhalf : half < size)
    (hsplit : half ≤ size - half) (hp : points[base + half]? = some p) (habove : c < p) :
    Narrowed c points base (size - half) where
  pos := by omega
  inside := by
    have := h.inside
    omega
  below := h.below
  above j q hj hq := lt_of_lt_of_le hc habove (le_of_index hnumbers hascending (by omega) hp hq)

/-- **What is known of a stretch stays known until it has one point left.** -/
theorem narrow_narrowed (h : Narrowed c points base size) : Narrowed c points (narrow c points base size) 1 := by
  fun_induction narrow c points base size with
  | case1 base size hsize half hgt ih =>
    have hp := List.getElem?_eq_getElem (h.middle hsize)
    rw [hp, Option.any_some, beq_iff_eq, comparedTo_eq_gt_iff hc (hnumbers _ (List.getElem_mem _))] at hgt
    exact ih (h.front hnumbers hascending hc (by omega) (by omega) hp hgt)
  | case2 base size hsize half hgt ih =>
    have hp := List.getElem?_eq_getElem (h.middle hsize)
    rw [hp, Option.any_some, beq_iff_eq, comparedTo_eq_gt_iff hc (hnumbers _ (List.getElem_mem _))] at hgt
    exact ih (h.back (by omega) hp hgt)
  | case3 base size hsize =>
    obtain rfl : size = 1 := by
      have := h.pos
      omega
    exact h

/-- The search finds an equal point, or the one place between smaller and larger points. -/
theorem placeOf_cases :
    (∃ i p, placeOf c points = .found i ∧ points[i]? = some p ∧ (p == c) = true) ∨
      ∃ i, placeOf c points = .missing i ∧ i ≤ points.length ∧ (∀ x ∈ points.take i, x < c) ∧
        ∀ x ∈ points.drop i, c < x := by
  rcases Nat.eq_zero_or_pos points.length with hempty | hpos
  · obtain rfl := List.length_eq_zero_iff.mp hempty
    exact Or.inr ⟨0, by simp [placeOf, narrow], Nat.le_refl 0, by simp, by simp⟩
  have hstart : Narrowed c points 0 points.length :=
    ⟨hpos, by omega, Or.inl rfl, fun j p hj hp => by
      rw [List.getElem?_eq_none (by omega)] at hp
      cases hp⟩
  have hend := narrow_narrowed hnumbers hascending hc hstart
  unfold placeOf
  -- the search ends with one candidate left, and all points above it are above the number
  generalize narrow c points 0 points.length = i at hend
  obtain ⟨-, hinside, hbelow, habove⟩ := hend
  have hp := List.getElem?_eq_getElem (Nat.lt_of_succ_le hinside)
  generalize points[i] = p at hp
  have hpnumber := hnumbers p (List.mem_of_getElem? hp)
  dsimp only
  rw [hp]
  dsimp only
  rcases comparedTo_cases hc hpnumber with ⟨hlt, heq⟩ | ⟨hsame, heq⟩ | ⟨hgt, heq⟩ <;> rw [heq]
  · -- the number comes after the last point that is not above it
    refine Or.inr ⟨i + 1, rfl, hinside, fun x hx => ?_, fun x hx => ?_⟩
    · obtain ⟨j, hj, rfl⟩ := List.mem_take_iff_getElem.mp hx
      exact lt_of_le_of_lt hc (le_of_index hnumbers hascending (by omega) (List.getElem?_eq_getElem _) hp) hlt
    · obtain ⟨j, hj, rfl⟩ := List.mem_drop_iff_getElem.mp hx
      exact habove (i + 1 + j) _ (by omega) (List.getElem?_eq_getElem _)
  · exact Or.inl ⟨i, p, rfl, hp, hsame⟩
  · -- only the first point of all can be above the number
    obtain rfl : i = 0 := hbelow.resolve_right fun hnot => hnot p hp hgt
    refine Or.inr ⟨0, rfl, Nat.zero_le _, by simp, fun x hx => ?_⟩
    obtain ⟨j, hj, rfl⟩ := List.mem_drop_iff_getElem.mp hx
    exact lt_of_lt_of_le hc hgt (le_of_index hnumbers hascending (by omega) hp (List.getElem?_eq_getElem _))

end Ascending

/-! ## Putting in -/

/-- Between the points below it and those above it a number is put in, -/
theorem insertPoint_of_split {below above : List α} (hnumbers : ∀ p ∈ above, isNaN p = false)
    (hc : isNaN c = false) (hbelow : ∀ x ∈ below, x < c) (habove : ∀ x ∈ above, c < x) :
    insertPoint c (below ++ above) = below ++ c :: above := by
  have hpos : ∀ x ∈ below, decide (x < c) = true := fun x hx => decide_eq_true (hbelow x hx)
  cases above with
  | nil =>
    rw [insertPoint, List.takeWhile_append_of_pos hpos, List.dropWhile_append_of_pos hpos]
    simp
  | cons p after =>
    have hcp := habove p List.mem_cons_self
    have hp := hnumbers p List.mem_cons_self
    have hstop : ¬ p < c := fun hlt => (lt_iff hp hc).mp hlt (le_of_lt hc hp hcp)
    have hne : (p == c) = false := Bool.eq_false_iff.mpr fun heq => (not_lt_of_beq heq).2 hcp
    rw [insertPoint, List.takeWhile_append_of_pos hpos, List.dropWhile_append_of_pos hpos,
      List.dropWhile_cons_of_neg (by simpa using hstop), List.takeWhile_cons_of_neg (by simpa using hstop)]
    simp [hne]

/-- and where a point is equal to it nothing is. -/
theorem insertPoint_of_beq {x : α} (hascending : points.Pairwise (· ≤ ·)) (hx : x ∈ points)
    (hxc : (x == c) = true) : insertPoint c points = points := by
  obtain ⟨hxc', hcx⟩ := beq_iff.mp hxc
  obtain ⟨-, hc⟩ := not_isNaN_of_le hxc'
  have hsplit := points.takeWhile_append_dropWhile (p := fun y => decide (y < c))
  have hrest : x ∈ points.dropWhile fun y => decide (y < c) := by
    rw [← hsplit, List.mem_append] at hx
    exact hx.resolve_left fun hmem => (not_lt_of_beq hxc).1 (of_decide_eq_true (List.all_eq_true.mp List.all_takeWhile x hmem))
  have hsorted := hascending.sublist (List.dropWhile_sublist fun y => decide (y < c))
  have hhead := List.head?_dropWhile_not (fun y => decide (y < c)) points
  unfold insertPoint
  generalize points.dropWhile (fun y => decide (y < c)) = rest at hrest hsorted hhead
  cases rest with
  | nil => cases hrest
  | cons p after =>
    -- the first point that is not below the number lies between it and the equal one
    have hpx : p ≤ x := by
      rcases List.mem_cons.mp hrest with rfl | hmem
      · exact le_refl (not_isNaN_of_le hxc').1
      · exact (List.pairwise_cons.mp hsorted).1 x hmem
    have hcp : c ≤ p := not_not.mp fun hnot =>
      of_decide_eq_false (by simpa using hhead) ((lt_iff (not_isNaN_of_le hpx).1 hc).mpr hnot)
    have heq : (p == c) = true := beq_iff.mpr ⟨le_trans hpx hxc', hcp⟩
    exact if_pos heq

/-- **The search finds the place.** -/
theorem insertPoint_eq_putInto (hnumbers : ∀ p ∈ points, isNaN p = false)
    (hascending : points.Pairwise (· ≤ ·)) (hc : isNaN c = false) :
    insertPoint c points = (placeOf c points).putInto points c := by
  rcases placeOf_cases hnumbers hascending hc with ⟨i, p, hplace, hp, hpc⟩ | ⟨i, hplace, -, hbelow, habove⟩
  · rw [hplace, insertPoint_of_beq hascending (List.mem_of_getElem? hp) hpc]
    rfl
  · have hput := insertPoint_of_split (fun p hp => hnumbers p (List.mem_of_mem_drop hp)) hc hbelow habove
    rw [hplace]
    rwa [List.take_append_drop] at hput

end FuzzyInference

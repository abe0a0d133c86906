import FuzzyInference.Proofs.Double.Complement
import FuzzyInference.Proofs.Grid.Samples
import FuzzyInference.Proofs.Store.Comparison
import FuzzyInference.Proofs.Store.Insertion

/-!
# Where sets are sampled

A set is sampled at the points of its domain. These do not descend and lie within the bounds, and this stays
so for a singleton with a spike inside the bounds and at no point of the domain, which is sampled at its spike
as well: the one place that keeps the order is where a search by halving puts the spike in.

## Contents
- `Grid.InOrder`: points that do not descend within the bounds. `Reachable.inOrder`: those of every domain.
- `SpikeOffGrid`: a spike inside the bounds and at no point. `pointsOf_of_off`, `pointsOf_of_not_off`: the sample
  points with and without one. `pointsOf_eq_putInto`: the search that finds them.
- `pairwise_pointsOf`, `mem_bounds_pointsOf`, `sublist_pointsOf`: what they have in common.
- `Store.samplePoints_inOrder`: the result.
-/

namespace FuzzyInference

open Scalar
open Ordered

/-! ## Points in order -/

section

variable {α : Type} [Scalar α]

/-- Points that do not descend, within the bounds. -/
structure Grid.InOrder (grid : Grid α) : Prop where
  ascending : grid.points.Pairwise (· ≤ ·)
  mem : ∀ x ∈ grid.points, grid.low ≤ x ∧ x ≤ grid.high

/-- A spike inside the bounds of a grid and at none of its points. -/
structure SpikeOffGrid (grid : Grid α) (func : Membership α) (c : α) : Prop where
  spike : func.spike? = some c
  inside : grid.contains c = true
  off : ∀ x ∈ grid.points, (x == c) = false

variable {grid : Grid α} {func : Membership α} {c : α}

theorem Grid.contains_iff : grid.contains c = true ↔ grid.low ≤ c ∧ c ≤ grid.high := by
  unfold Grid.contains
  rw [Bool.and_eq_true, decide_eq_true_iff, decide_eq_true_iff]

theorem pointsOf_of_inside (hspike : func.spike? = some c) (hinside : grid.contains c = true) :
    Store.pointsOf grid func = insertPoint c grid.points := by
  unfold Store.pointsOf
  rw [hspike]
  exact if_pos hinside

end

namespace Grid.InOrder

variable {α : Type} [Scalar α] [Ordered α] {grid : Grid α} {func : Membership α} {c : α}

/-- Points in order are numbers, since comparisons with NaN fail. -/
theorem number (h : grid.InOrder) : ∀ x ∈ grid.points, isNaN x = false :=
  fun x hx => (not_isNaN_of_le (h.mem x hx).1).2

/-! ## Sample points -/

/-- The points of a singleton with its spike inside the bounds are what the search makes of those of the grid. -/
theorem pointsOf_eq_putInto (h : grid.InOrder) (hspike : func.spike? = some c)
    (hinside : grid.contains c = true) :
    Store.pointsOf grid func = (placeOf c grid.points).putInto grid.points c := by
  rw [pointsOf_of_inside hspike hinside]
  exact insertPoint_eq_putInto h.number h.ascending (not_isNaN_of_le (Grid.contains_iff.mp hinside).1).2

/-- A spike between the points splits them. -/
theorem pointsOf_of_off (h : grid.InOrder) (hoff : SpikeOffGrid grid func c) :
    ∃ below above, grid.points = below ++ above ∧ Store.pointsOf grid func = below ++ c :: above ∧
      (∀ x ∈ below, x < c) ∧ ∀ x ∈ above, c < x := by
  have hc := (not_isNaN_of_le (Grid.contains_iff.mp hoff.inside).1).2
  rw [h.pointsOf_eq_putInto hoff.spike hoff.inside]
  rcases placeOf_cases h.number h.ascending hc with ⟨i, p, -, hp, hpc⟩ | ⟨i, hplace, -, hbelow, habove⟩
  · rw [hoff.off p (List.mem_of_getElem? hp)] at hpc
    cases hpc
  · exact ⟨_, _, (List.take_append_drop i grid.points).symm, by rw [hplace]; rfl, hbelow, habove⟩

/-- Without a spike off the grid, the sample points are the grid's. -/
theorem pointsOf_of_not_off (h : grid.InOrder) (hoff : ∀ c, ¬ SpikeOffGrid grid func c) :
    Store.pointsOf grid func = grid.points := by
  rcases Store.pointsOf_cases grid func with hsame | ⟨c, ⟨hspike, hinside, -⟩, hinsert⟩
  · exact hsame
  · by_contra hne
    refine hoff c ⟨hspike, hinside, fun x hx => ?_⟩
    rw [Bool.eq_false_iff]
    intro hxc
    exact hne (hinsert.trans (insertPoint_of_beq h.ascending hx hxc))

/-- The sample points are those of the grid, or those and a spike in between. -/
theorem pointsOf_cases (h : grid.InOrder) (func : Membership α) :
    Store.pointsOf grid func = grid.points ∨ ∃ c below above, grid.contains c = true ∧
      grid.points = below ++ above ∧ Store.pointsOf grid func = below ++ c :: above ∧
      (∀ x ∈ below, x < c) ∧ ∀ x ∈ above, c < x := by
  by_cases hoff : ∃ c, SpikeOffGrid grid func c
  · obtain ⟨c, hc⟩ := hoff
    obtain ⟨below, above, hsplit⟩ := h.pointsOf_of_off hc
    exact Or.inr ⟨c, below, above, hc.inside, hsplit⟩
  · exact Or.inl (h.pointsOf_of_not_off (not_exists.mp hoff))

/-- Sample points ascend, with the spike in its place. -/
theorem pairwise_pointsOf (h : grid.InOrder) (func : Membership α) :
    (Store.pointsOf grid func).Pairwise (· ≤ ·) := by
  rcases h.pointsOf_cases func with hsame | ⟨c, below, above, hinside, hgrid, hpoints, hbelow, habove⟩
  · rw [hsame]
    exact h.ascending
  have hc := (not_isNaN_of_le (Grid.contains_iff.mp hinside).1).2
  have hnumber := h.number
  have hascending := h.ascending
  rw [hgrid, List.pairwise_append] at hascending
  rw [hgrid] at hnumber
  rw [hpoints, List.pairwise_append, List.pairwise_cons]
  refine ⟨hascending.1, ⟨fun x hx => ?_, hascending.2.1⟩, fun x hx y hy => ?_⟩
  · exact le_of_lt hc (hnumber x (List.mem_append_right _ hx)) (habove x hx)
  · rcases List.mem_cons.mp hy with rfl | hy
    · exact le_of_lt (hnumber x (List.mem_append_left _ hx)) hc (hbelow x hx)
    · exact hascending.2.2 x hx y hy

/-- Sample points lie within the grid's ends, the spike included. -/
theorem mem_bounds_pointsOf (h : grid.InOrder) {x : α} (hx : x ∈ Store.pointsOf grid func) :
    grid.low ≤ x ∧ x ≤ grid.high := by
  rcases h.pointsOf_cases func with hsame | ⟨c, below, above, hinside, hgrid, hpoints, -, -⟩
  · exact h.mem x (hsame ▸ hx)
  · rw [hpoints, List.mem_append, List.mem_cons] at hx
    have hmem := h.mem x
    rw [hgrid, List.mem_append] at hmem
    rcases hx with hx | rfl | hx
    · exact hmem (Or.inl hx)
    · exact Grid.contains_iff.mp hinside
    · exact hmem (Or.inr hx)

/-- No grid point is lost. -/
theorem sublist_pointsOf (h : grid.InOrder) (func : Membership α) :
    grid.points.Sublist (Store.pointsOf grid func) := by
  rcases h.pointsOf_cases func with hsame | ⟨c, below, above, -, hgrid, hpoints, -, -⟩
  · rw [hsame]
  · rw [hgrid, hpoints]
    exact (List.sublist_cons_self c above).append_left below

end Grid.InOrder

/-! ## In every run -/

namespace Store

/-- What a domain is sampled at is in order. -/
theorem Reachable.inOrder {store : Store Float} (h : Reachable store) {d : DomainId} (hd : store.HasDomain d) :
    (store.domainAt d).grid.InOrder := by
  obtain ⟨domain, hmake, hgrid⟩ := h.made hd
  obtain ⟨haccepted, hresolution⟩ := Grid.accepted_of_make hmake
  rw [← hgrid, hresolution]
  exact ⟨haccepted.pairwise_points, fun x => haccepted.mem_points⟩

/-- A singleton is as high as at its spike at a sample point, if the spike is inside the bounds. -/
theorem height_mem_curve {store : Store Float} {s : SetId} {c elsewhere height : Float} {grid : Grid Float}
    (hfunc : (store.setAt s).func = .shape (.singleton c elsewhere height)) (hinside : grid.contains c = true) :
    height ∈ (pointsOf grid (store.setAt s).func).map (store.call s) := by
  have hspike : (store.setAt s).func.spike? = some c := by
    rw [hfunc]
    rfl
  have hself := beq_refl (not_isNaN_of_le (Grid.contains_iff.mp hinside).1).2
  obtain ⟨x, hx, hxc⟩ := exists_mem_insertPoint_beq hself grid.points
  rw [pointsOf_of_inside hspike hinside]
  refine List.mem_map.mpr ⟨x, hx, ?_⟩
  have hcall : store.call s x = if (x == c) = true then height else elsewhere := by
    rw [call, hfunc]
    rfl
  rw [hcall, if_pos hxc]

/-- The length of a set is its number of sample points, whether or not it keeps an array. -/
theorem len_of_coherent {store : Store Float} {s : SetId} {d : DomainId} (h : store.Coherent)
    (hd : store.domainOf? s = some d) : (len s store).1 = .ok (store.pointsIn d s).length := by
  have harray : array s store = (.ok (store.curveIn d s), (array s store).2) :=
    Prod.ext (array_of_coherent h hd) rfl
  unfold len
  rw [Action.bind_of_ok harray, Action.pure_apply, curveIn, sampled, List.length_map]

/-- **Where a set is sampled.** In every run, let a set reach a domain. Then it has sample points. They do not
    descend, lie within the bounds and have all points of the domain among them, as often as the domain has
    them. They are the points of the domain, unless the set is a singleton with a spike inside the bounds and
    at none of these; then the spike comes in between the points below it and those above it. If the spike is
    inside the bounds, then the points are what the search by halving makes of those of the domain, and the
    memberships have the height of the spike among them. There are as many memberships as points, and no more
    than one of them is added to those of the domain. -/
theorem samplePoints_inOrder {store : Store Float} (hstore : Reachable store) {s : SetId} {d : DomainId}
    (hd : store.domainOf? s = some d) :
    ∃ points, store.samplePoints s = .ok points ∧
      points.Pairwise (· ≤ ·) ∧
      (∀ x ∈ points, (store.domainAt d).grid.low ≤ x ∧ x ≤ (store.domainAt d).grid.high) ∧
      (store.domainAt d).range.Sublist points ∧
      ((∀ c, ¬ SpikeOffGrid (store.domainAt d).grid (store.setAt s).func c) →
        points = (store.domainAt d).range) ∧
      (∀ c, SpikeOffGrid (store.domainAt d).grid (store.setAt s).func c →
        ∃ below above, (store.domainAt d).range = below ++ above ∧ points = below ++ c :: above ∧
          (∀ x ∈ below, x < c) ∧ ∀ x ∈ above, c < x) ∧
      (∀ c elsewhere height, (store.setAt s).func = .shape (.singleton c elsewhere height) →
        (store.domainAt d).grid.contains c = true →
          points = (placeOf c (store.domainAt d).range).putInto (store.domainAt d).range c ∧
          height ∈ points.map (store.call s)) ∧
      (array s store).1 = .ok (points.map (store.call s)) ∧
      (len s store).1 = .ok points.length ∧
      (points.length = (store.domainAt d).range.length ∨
        points.length = (store.domainAt d).range.length + 1) := by
  have hgrid := hstore.inOrder (hasDomain_of_domainOf? hd)
  refine ⟨store.pointsIn d s, samplePoints_eq hd, hgrid.pairwise_pointsOf _, fun x => hgrid.mem_bounds_pointsOf,
    hgrid.sublist_pointsOf _, hgrid.pointsOf_of_not_off, fun c => hgrid.pointsOf_of_off, ?_,
    array_of_coherent hstore.coherent hd, len_of_coherent hstore.coherent hd, ?_⟩
  · intro c elsewhere height hfunc hinside
    refine ⟨hgrid.pointsOf_eq_putInto ?_ hinside, height_mem_curve hfunc hinside⟩
    rw [hfunc]
    rfl
  · rcases hgrid.pointsOf_cases (store.setAt s).func with hsame | ⟨c, below, above, -, hsplit, hpoints, -, -⟩
    · exact Or.inl (congrArg List.length hsame)
    · right
      show (pointsOf _ _).length = (store.domainAt d).grid.points.length + 1
      rw [hpoints, hsplit]
      simp only [List.length_append, List.length_cons]
      omega

/-- A singleton with its spike between two points of a domain. -/
def spikeInGap : Store Float := empty.runAll [
  .newDomain "x" 0 10 none, .newSet (.shape (.singleton 2.25 0 1)), .bind ⟨0⟩ ⟨0⟩]

/-- A spike at 2.25 on a grid of whole numbers, sampled between 2 and 3. -/
theorem samplePoints_inOrder_spikeInGap :
    Reachable spikeInGap ∧ spikeInGap.domainOf? ⟨0⟩ = some ⟨0⟩ ∧
      ∃ points below above, spikeInGap.samplePoints ⟨0⟩ = .ok points ∧ points.Pairwise (· ≤ ·) ∧
        (spikeInGap.domainAt ⟨0⟩).range = below ++ above ∧ points = below ++ 2.25 :: above ∧
        1 ∈ points.map (spikeInGap.call ⟨0⟩) := by
  have hrun : Reachable spikeInGap := reachable_runAll (by decide +kernel)
  have hd : spikeInGap.domainOf? ⟨0⟩ = some ⟨0⟩ := by decide +kernel
  have hfunc : (spikeInGap.setAt ⟨0⟩).func = .shape (.singleton 2.25 0 1) := by rfl
  have hoff : SpikeOffGrid (spikeInGap.domainAt ⟨0⟩).grid (spikeInGap.setAt ⟨0⟩).func 2.25 :=
    ⟨by rw [hfunc]; rfl, by decide +kernel, by decide +kernel⟩
  obtain ⟨points, hpoints, hascending, -, -, -, hsplit, hheight, -⟩ := samplePoints_inOrder hrun hd
  obtain ⟨below, above, hrange, heq, -⟩ := hsplit 2.25 hoff
  exact ⟨hrun, hd, points, below, above, hpoints, hascending, hrange, heq, (hheight _ _ _ hfunc hoff.inside).2⟩

end Store

end FuzzyInference

import FuzzyInference.Proofs.Store.Measure
import FuzzyInference.Scalar.Machine
import FuzzyInference.Store.Comparison

/-!
# What comparisons say

Two sets of one domain are compared membership by membership as long as they have equally many sample
points, and on the union of their sample points otherwise. Both come to the same, and an ordering holds
just when it holds at every sample point of either set, unless each set is a singleton whose spike was
put between two grid points and the spikes lie apart. Then the sample points are equally many but not
the same, and memberships at different points are held against each other.

## Contents
- `Relation.holds`: what a relation says of two memberships.
- `SpikeBetween`, `SpikesApart`: where the sample points of two sets differ but not in number.
- `compare_eq`: what is answered. `compare_iff`: what an answer means.
- `compare_spikesInOneGap`: two spikes in one gap of the grid count as equal.
-/

namespace FuzzyInference

/-- What a relation of sets says of two memberships at one point. -/
def Relation.holds {α : Type} [Scalar α] (rel : Relation) (u v : α) : Bool :=
  match rel with
  | .equal => u == v
  | .subset => decide (u ≤ v)
  | .properSubset => decide (u < v)
  | .superset => decide (v ≤ u)
  | .properSuperset => decide (v < u)

variable {α : Type} [Scalar α]

/-! ## Sample points that differ -/

/-- A point that is put into a list makes it longer by one. -/
theorem insertPoint_cases (c : α) (points : List α) :
    insertPoint c points = points ∨ (insertPoint c points).length = points.length + 1 := by
  have hsplit := points.takeWhile_append_dropWhile (p := fun x => decide (x < c))
  have hlength := congrArg List.length hsplit
  unfold insertPoint
  rw [List.length_append] at hlength
  cases hd : points.dropWhile (fun x => decide (x < c)) with
  | nil =>
    right
    rw [hd] at hlength
    simpa using hlength
  | cons p after =>
    dsimp only
    split
    · exact Or.inl rfl
    · right
      rw [hd] at hlength
      simp only [List.length_append, List.length_cons] at hlength ⊢
      omega

/-- The points that were in the list stay in it. -/
theorem mem_insertPoint {c x : α} {points : List α} (hx : x ∈ points) : x ∈ insertPoint c points := by
  rw [← points.takeWhile_append_dropWhile (p := fun x => decide (x < c)), List.mem_append] at hx
  unfold insertPoint
  cases hd : points.dropWhile (fun x => decide (x < c)) with
  | nil =>
    rw [hd] at hx
    exact List.mem_append_left _ (hx.resolve_right List.not_mem_nil)
  | cons p after =>
    rw [hd] at hx
    dsimp only
    split
    · rwa [← points.takeWhile_append_dropWhile (p := fun x => decide (x < c)), hd, List.mem_append]
    · exact List.mem_append.mpr (hx.imp_right (List.mem_cons_of_mem c))

/-- The point that is put in is there, or one that counts as equal. -/
theorem exists_mem_insertPoint_beq {c : α} (hc : (c == c) = true) (points : List α) :
    ∃ x ∈ insertPoint c points, (x == c) = true := by
  unfold insertPoint
  cases hd : points.dropWhile (fun x => decide (x < c)) with
  | nil => exact ⟨c, List.mem_append_right _ (List.mem_singleton_self c), hc⟩
  | cons p after =>
    dsimp only
    split
    · rename_i heq
      exact ⟨p, (List.dropWhile_sublist _).subset (hd ▸ List.mem_cons_self), heq⟩
    · exact ⟨c, List.mem_append_right _ List.mem_cons_self, hc⟩

/-- The function is a singleton that is sampled at its spike besides the points of the grid. -/
def SpikeBetween (grid : Grid α) (func : Membership α) (c : α) : Prop :=
  func.spike? = some c ∧ grid.contains c = true ∧ insertPoint c grid.points ≠ grid.points

namespace Store

theorem length_pointsOf {grid : Grid α} {func : Membership α} {c : α}
    (h : SpikeBetween grid func c) :
    (pointsOf grid func).length = grid.points.length + 1 := by
  obtain ⟨hs, hc, hne⟩ := h
  unfold pointsOf
  rw [hs]
  dsimp only
  rw [if_pos hc]
  exact (insertPoint_cases c grid.points).resolve_left hne

/-- Only such a spike makes the sample points differ from the grid. -/
theorem pointsOf_cases (grid : Grid α) (func : Membership α) :
    pointsOf grid func = grid.points ∨ ∃ c, SpikeBetween grid func c ∧
      pointsOf grid func = insertPoint c grid.points := by
  unfold pointsOf
  cases hs : func.spike? with
  | none => exact Or.inl rfl
  | some c =>
    dsimp only
    by_cases hc : grid.contains c = true
    · rw [if_pos hc]
      by_cases h : insertPoint c grid.points = grid.points
      · exact Or.inl h
      · exact Or.inr ⟨c, ⟨hs, hc, h⟩, rfl⟩
    · rw [if_neg hc]
      exact Or.inl rfl

/-- A function is sampled at all points of the grid, whatever else. -/
theorem mem_pointsOf {grid : Grid α} {x : α} (hx : x ∈ grid.points) (func : Membership α) :
    x ∈ pointsOf grid func := by
  rcases pointsOf_cases grid func with h | ⟨c, -, h⟩ <;> rw [h]
  · exact hx
  · exact mem_insertPoint hx

/-- Two sets that are each sampled at a spike between grid points of a domain, at different ones. -/
def SpikesApart (store : Store α) (d : DomainId) (s t : SetId) : Prop :=
  ∃ c e, c ≠ e ∧ SpikeBetween (store.domainAt d).grid (store.setAt s).func c ∧
    SpikeBetween (store.domainAt d).grid (store.setAt t).func e

/-- Otherwise equally many sample points are the same ones. -/
theorem pointsIn_eq {store : Store α} {d : DomainId} {s t : SetId}
    (h : ¬ store.SpikesApart d s t)
    (hlength : (store.pointsIn d s).length = (store.pointsIn d t).length) :
    store.pointsIn d s = store.pointsIn d t := by
  unfold pointsIn at hlength ⊢
  rcases pointsOf_cases (store.domainAt d).grid (store.setAt s).func with
    hs | ⟨c, hc, hs⟩ <;>
  rcases pointsOf_cases (store.domainAt d).grid (store.setAt t).func with
    ht | ⟨e, he, ht⟩
  · rw [hs, ht]
  · rw [hs, length_pointsOf he] at hlength
    omega
  · rw [ht, length_pointsOf hc] at hlength
    omega
  · by_cases hce : c = e
    · rw [hs, ht, hce]
    · exact absurd ⟨c, e, hce, hc, he⟩ h

/-! ## The answer -/

/-- Equality of lists, element by element. -/
theorem beq_eq_zip (as bs : List α) :
    (as == bs) = (decide (as.length = bs.length) && (as.zip bs).all fun (u, v) => u == v) := by
  induction as generalizing bs with
  | nil => cases bs <;> rfl
  | cons a as ih =>
    cases bs with
    | nil => rfl
    | cons b bs =>
      have hstep : (a :: as == b :: bs) = ((a == b) && (as == bs)) := rfl
      rw [hstep, ih bs]
      simp [Bool.and_left_comm]

/-- What comparing two sets in a domain comes to: by place if they have equally many sample points, on
    the union of these otherwise. -/
def related (store : Store α) (d : DomainId) (rel : Relation) (s t : SetId) : Bool :=
  let points := store.pointsIn d s
  let others := store.pointsIn d t
  if points.length = others.length then
    (points.zip others).all fun (x, y) => rel.holds (store.call s x) (store.call t y)
  else
    rel ≠ .equal && (points ++ others).all fun x => rel.holds (store.call s x) (store.call t x)

section Answers

variable {store : Store α} {s t : SetId} {d : DomainId}

/-- The two arrays of a comparison are the curves of both sets over their domain. -/
theorem boundArrays_eq (h : store.Coherent) (hs : store.domainOf? s = some d)
    (ht : store.domainOf? t = some d) :
    (boundArrays s t store).1 = .ok (store.curveIn d s, store.curveIn d t) := by
  unfold boundArrays
  rw [Action.bind_of_ok (Action.get_apply store), hs, ht, if_neg (by simp)]
  have hfirst : array s store = (.ok (store.curveIn d s), (array s store).2) :=
    Prod.ext (array_of_coherent h hs) rfl
  -- the second array is asked for where the first one may just have been kept
  have hquiet := quiet_array s store
  have hsecond : array t (array s store).2 =
      (.ok (store.curveIn d t), (array t (array s store).2).2) := by
    refine Prod.ext ?_ rfl
    rw [array_of_coherent (hquiet.coherent h) ((hquiet.framed.domainOf? t).trans ht),
      hquiet.framed.curveIn]
  dsimp only
  rw [Action.bind_of_ok hfirst, Action.bind_of_ok hsecond]
  rfl

/-- Comparing two curves entry by entry compares the two functions at corresponding points. -/
theorem curves_zip (holds : α → α → Bool) (points others : List α) :
    ((store.sampled s points).zip (store.sampled t others)).all (fun (u, v) => holds u v) =
      (points.zip others).all fun (x, y) => holds (store.call s x) (store.call t y) := by
  unfold sampled
  rw [List.zip_map, List.all_map]
  rfl

/-- Equality by arrays computes `related`. -/
theorem isEqualTo_eq (h : store.Coherent) (hs : store.domainOf? s = some d)
    (ht : store.domainOf? t = some d) :
    (isEqualTo s t store).1 = .ok (store.related d .equal s t) := by
  unfold isEqualTo
  have harrays : boundArrays s t store = (_, (boundArrays s t store).2) :=
    Prod.ext (boundArrays_eq h hs ht) rfl
  rw [Action.bind_of_ok harrays]
  show Except.ok (store.curveIn d s == store.curveIn d t) = _
  rw [beq_eq_zip]
  unfold curveIn related
  rw [curves_zip fun u v => u == v]
  by_cases hlength : (store.pointsIn d s).length = (store.pointsIn d t).length <;>
    simp [sampled, hlength, Relation.holds]

/-- The relations that evaluate functions at points compute `related` too. -/
theorem holdsPointwise_eq (h : store.Coherent) (hs : store.domainOf? s = some d)
    (ht : store.domainOf? t = some d) (rel : Relation) (hrel : rel ≠ .equal) :
    (holdsPointwise rel.holds s t store).1 = .ok (store.related d rel s t) := by
  unfold holdsPointwise
  have harrays : boundArrays s t store = (_, (boundArrays s t store).2) :=
    Prod.ext (boundArrays_eq h hs ht) rfl
  rw [Action.bind_of_ok harrays]
  dsimp only
  -- sampling both sets keeps their arrays, and else leaves the store as it is
  have hquiet := quiet_boundArrays s t store
  generalize (boundArrays s t store).2 = later at hquiet
  have hs' := (hquiet.framed.domainOf? s).trans hs
  have ht' := (hquiet.framed.domainOf? t).trans ht
  have hsame : later.checkSameDomain s t = .ok () := by
    unfold checkSameDomain
    rw [ensure_eq_ok_iff, (domainOf?_eq_some_iff.mp hs').1, (domainOf?_eq_some_iff.mp ht').1]
    exact decide_eq_true rfl
  rw [Action.bind_of_ok (Action.get_apply later), hsame, samplePoints_eq hs', samplePoints_eq ht',
    hquiet.framed.pointsIn, hquiet.framed.pointsIn]
  refine (congrArg Prod.fst (Action.bind_of_ok rfl)).trans ?_
  unfold related
  -- as many points on both sides are compared by the arrays, else all points of both are looked at
  by_cases hlength : (store.pointsIn d s).length = (store.pointsIn d t).length
  · rw [if_pos hlength, if_pos (by simpa [curveIn, sampled] using hlength)]
    exact congrArg Except.ok (curves_zip (fun u v => rel.holds u v) _ _)
  · rw [if_neg hlength, if_neg (by simpa [curveIn, sampled] using hlength)]
    simp only [hrel, ne_eq, not_false_eq_true, decide_true, Bool.true_and, ← hquiet.framed.call]
    rfl

/-- **What is answered.** A comparison of two sets that reach one domain never fails. -/
theorem compare_eq (h : store.Coherent) (hs : store.domainOf? s = some d)
    (ht : store.domainOf? t = some d) (rel : Relation) :
    (compare rel s t store).1 = .ok (store.related d rel s t) := by
  cases rel with
  | equal => exact isEqualTo_eq h hs ht
  | subset => exact holdsPointwise_eq h hs ht .subset (by decide)
  | properSubset => exact holdsPointwise_eq h hs ht .properSubset (by decide)
  | superset => exact holdsPointwise_eq h hs ht .superset (by decide)
  | properSuperset => exact holdsPointwise_eq h hs ht .properSuperset (by decide)

/-- Without spikes apart, a relation holds when it holds at all points of either set. -/
theorem related_iff_of_ne {rel : Relation} (hrel : rel ≠ .equal) (h : ¬ store.SpikesApart d s t) :
    store.related d rel s t = true ↔ ∀ x ∈ store.pointsIn d s ++ store.pointsIn d t,
      rel.holds (store.call s x) (store.call t x) = true := by
  unfold related
  by_cases hlength : (store.pointsIn d s).length = (store.pointsIn d t).length
  · -- by place, and the places are the same points
    rw [if_pos hlength, ← pointsIn_eq h hlength]
    simp [List.zip_eq_zipWith, List.zipWith_self]
  · rw [if_neg hlength]
    simp [hrel, or_imp, forall_and]

/-- Equality found on the arrays holds at the points too, as these are then the same. -/
theorem holds_of_related_equal (h : ¬ store.SpikesApart d s t)
    (hequal : store.related d .equal s t = true) :
    ∀ x ∈ store.pointsIn d s ++ store.pointsIn d t, (store.call s x == store.call t x) = true := by
  unfold related at hequal
  by_cases hlength : (store.pointsIn d s).length = (store.pointsIn d t).length
  · rw [if_pos hlength, ← pointsIn_eq h hlength] at hequal
    rw [← pointsIn_eq h hlength]
    simpa [List.zip_eq_zipWith, List.zipWith_self, Relation.holds] using hequal
  · rw [if_neg hlength] at hequal
    simp at hequal

end Answers

/-- **What an answer means.** In every run, comparing two sets that reach one domain has an answer.
    Unless they are two spikes that lie apart between grid points, an ordering is answered to hold just
    when it does at every sample point of either set, and sets are answered to be equal only if they are
    at every one of these points. Of two such spikes the memberships at equal places are compared. -/
theorem compare_iff {store : Store α} (hstore : Reachable store) {s t : SetId} {d : DomainId}
    (hs : store.domainOf? s = some d) (ht : store.domainOf? t = some d) :
    ∃ points others, store.samplePoints s = .ok points ∧ store.samplePoints t = .ok others ∧
      ∀ rel, ∃ answer, (compare rel s t store).1 = .ok answer ∧
        (¬ store.SpikesApart d s t →
          (rel ≠ .equal → (answer = true ↔ ∀ x ∈ points ++ others,
            rel.holds (store.call s x) (store.call t x) = true)) ∧
          (rel = .equal → answer = true →
            ∀ x ∈ points ++ others, (store.call s x == store.call t x) = true)) ∧
        (store.SpikesApart d s t → (answer = true ↔ ∀ pair ∈ points.zip others,
          rel.holds (store.call s pair.1) (store.call t pair.2) = true)) := by
  refine ⟨store.pointsIn d s, store.pointsIn d t, samplePoints_eq hs, samplePoints_eq ht,
    fun rel => ⟨store.related d rel s t, compare_eq hstore.coherent hs ht rel, fun h => ⟨?_, ?_⟩,
      fun h => ?_⟩⟩
  · exact fun hrel => related_iff_of_ne hrel h
  · rintro rfl
    exact holds_of_related_equal h
  · -- two spikes between grid points make the sample points equally many
    obtain ⟨c, e, -, hc, he⟩ := h
    have hlength : (store.pointsIn d s).length = (store.pointsIn d t).length := by
      have hs1 := length_pointsOf hc
      have ht1 := length_pointsOf he
      exact hs1.trans ht1.symm
    unfold related
    rw [if_pos hlength]
    simp

/-- Three sets of one domain: two spikes in one gap of the grid, and a constant. -/
def spikesInOneGap : Store Float := empty.runAll [
  .newDomain "x" 0 10 none,
  .newSet (.shape (.singleton 2.25 0 1)), .newSet (.shape (.singleton 2.75 0 1)),
  .newSet (.shape (.constant 0.5)),
  .bind ⟨0⟩ ⟨0⟩, .bind ⟨1⟩ ⟨0⟩, .bind ⟨2⟩ ⟨0⟩]

/-- A spike that rises above a constant, between grid points only. -/
theorem compare_iff_constant :
    Reachable spikesInOneGap ∧ spikesInOneGap.domainOf? ⟨0⟩ = some ⟨0⟩ ∧
      spikesInOneGap.domainOf? ⟨2⟩ = some ⟨0⟩ ∧ ¬ spikesInOneGap.SpikesApart ⟨0⟩ ⟨0⟩ ⟨2⟩ ∧
      (compare .subset ⟨0⟩ ⟨2⟩ spikesInOneGap).1 = .ok false := by
  have hrun : Reachable spikesInOneGap := reachable_runAll (by decide +kernel)
  have hs : spikesInOneGap.domainOf? ⟨0⟩ = some ⟨0⟩ := by decide +kernel
  have ht : spikesInOneGap.domainOf? ⟨2⟩ = some ⟨0⟩ := by decide +kernel
  have hapart : ¬ spikesInOneGap.SpikesApart ⟨0⟩ ⟨0⟩ ⟨2⟩ := by
    rintro ⟨c, e, -, -, hspike, -⟩
    cases hspike
  refine ⟨hrun, hs, ht, hapart, ?_⟩
  obtain ⟨points, others, hpoints, -, hall⟩ := compare_iff hrun hs ht
  obtain ⟨answer, hanswer, hfits, -⟩ := hall .subset
  have hno : answer ≠ true := by
    intro htrue
    -- at the spike itself
    have hplace : (spikesInOneGap.pointsIn ⟨0⟩ ⟨0⟩)[3]? = some 2.25 := by decide +kernel
    have hspike : (2.25 : Float) ∈ points :=
      Except.ok.inj ((samplePoints_eq hs).symm.trans hpoints) ▸ List.mem_of_getElem? hplace
    have hle := ((hfits hapart).1 (by decide)).mp htrue 2.25 (List.mem_append_left _ hspike)
    exact absurd hle (by decide +kernel)
  rw [hanswer, Bool.eq_false_iff.mpr hno]

/-- **Two spikes in one gap of the grid count as equal,** and the one as a subset of the other, although
    at its spike, a sample point, it is 1 and the other set is 0. -/
theorem compare_spikesInOneGap :
    Reachable spikesInOneGap ∧ spikesInOneGap.domainOf? ⟨0⟩ = some ⟨0⟩ ∧
      spikesInOneGap.domainOf? ⟨1⟩ = some ⟨0⟩ ∧
      (compare .equal ⟨0⟩ ⟨1⟩ spikesInOneGap).1 = .ok true ∧
      (compare .subset ⟨0⟩ ⟨1⟩ spikesInOneGap).1 = .ok true ∧
      (spikesInOneGap.pointsIn ⟨0⟩ ⟨0⟩)[3]? = some 2.25 ∧
      spikesInOneGap.call ⟨0⟩ 2.25 = 1 ∧ spikesInOneGap.call ⟨1⟩ 2.25 = 0 ∧
      ∀ rel ∈ [Relation.equal, .subset],
        rel.holds (spikesInOneGap.call ⟨0⟩ 2.25) (spikesInOneGap.call ⟨1⟩ 2.25) = false :=
  ⟨reachable_runAll (by decide +kernel), by decide +kernel, by decide +kernel,
    outcome_of_toOption (by decide +kernel), outcome_of_toOption (by decide +kernel),
    by decide +kernel, by decide +kernel, by decide +kernel, by decide +kernel⟩

end Store

end FuzzyInference

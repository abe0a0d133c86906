import FuzzyInference.Proofs.Store.Coherence
import FuzzyInference.Proofs.Store.Quiet

/-!
# Measures of a set in its domain

Where what is kept is right, a set that reaches its domain answers from its function and the domain's
grid alone. Whether an answer was computed now, kept before, or kept on the way to another answer does
not show.

## Contents
- `pointsIn`, `curveIn`, `centerIn`: the sample points of a set in a domain, its memberships there, and
  its center of gravity.
- `array_of_coherent`, `centerOfGravity_of_coherent`: these are what is answered.
-/

namespace FuzzyInference

namespace Store

variable {α : Type} [Scalar α]

/-- The sample points that a domain gives a set. -/
def pointsIn (store : Store α) (d : DomainId) (s : SetId) : List α :=
  pointsOf (store.domainAt d).grid (store.setAt s).func

/-- The memberships of a set at the sample points that a domain gives it. -/
def curveIn (store : Store α) (d : DomainId) (s : SetId) : List α :=
  store.sampled s (store.pointsIn d s)

/-- The spike of a set, or else the centroid of its memberships in a domain, or else 0. -/
def centerIn (store : Store α) (d : DomainId) (s : SetId) : α :=
  (store.setAt s).func.spike?.getD ((centroid (store.pointsIn d s) (store.curveIn d s)).getD 0.0)

section Reached

variable {store : Store α} {s : SetId} {d : DomainId}

theorem samplePoints_eq (hd : store.domainOf? s = some d) :
    store.samplePoints s = .ok (store.pointsIn d s) := samplePoints_of_reached hd

theorem ArrayFits.eq_curveIn {values : List α} (h : store.ArrayFits s values)
    (hd : store.domainOf? s = some d) : values = store.curveIn d s := by
  obtain ⟨e, he, -, rfl⟩ := h
  obtain rfl : d = e := Option.some.inj ((domainOf?_eq_some_iff.mp hd).1.symm.trans he)
  rfl

theorem CenterFits.eq_centerIn {c : α} (h : store.CenterFits s c)
    (hd : store.domainOf? s = some d) : c = store.centerIn d s := by
  unfold centerIn
  rcases h with hspike | ⟨hspike, e, he, -, rfl⟩
  · rw [hspike]
    rfl
  · obtain rfl : d = e := Option.some.inj ((domainOf?_eq_some_iff.mp hd).1.symm.trans he)
    rw [hspike]
    rfl

/-- **The memberships of a set that reaches its domain,** kept or not. -/
theorem array_of_coherent (h : store.Coherent) (hd : store.domainOf? s = some d) :
    (array s store).1 = .ok (store.curveIn d s) := by
  cases hk : (store.setAt s).array? with
  | some values =>
    rw [array_of_kept hk, (h.array s values hk).eq_curveIn hd]
  | none => rw [array_of_points hk (samplePoints_eq hd)]; rfl

/-- **The center of gravity of a set that reaches its domain,** kept or not. -/
theorem centerOfGravity_of_coherent (h : store.Coherent) (hd : store.domainOf? s = some d) :
    (centerOfGravity s store).1 = .ok (store.centerIn d s) := by
  cases hc : (store.setAt s).center? with
  | some c => rw [centerOfGravity_of_kept hc, (h.center s c hc).eq_centerIn hd]
  | none =>
    unfold centerIn
    cases hs : (store.setAt s).func.spike? with
    | some c => rw [centerOfGravity_of_spike hc hs]; rfl
    | none =>
      have harray : array s store = (.ok (store.curveIn d s), (array s store).2) :=
        Prod.ext (array_of_coherent h hd) rfl
      rw [centerOfGravity_of_points hc hs (samplePoints_eq hd) harray]
      rfl

end Reached

/-! ## Under what keeps values -/

section Quiet

variable {before after : Store α}

/-- A quiet stretch keeps a store coherent. -/
theorem Quiet.coherent (h : Quiet before after) (hc : before.Coherent) : after.Coherent :=
  h.changes.coherent hc

theorem Framed.call (h : Framed before after) (s : SetId) (x : α) :
    after.call s x = before.call s x := by
  unfold Store.call
  rw [h.func]

/-- The points of a set depend on its function and the domain's grid, which a frame fixes. So do the
curve and the center below. -/
theorem Framed.pointsIn (h : Framed before after) (d : DomainId) (s : SetId) :
    after.pointsIn d s = before.pointsIn d s := by
  unfold Store.pointsIn
  rw [h.domainAt, h.func]

theorem Framed.curveIn (h : Framed before after) (d : DomainId) (s : SetId) :
    after.curveIn d s = before.curveIn d s := by
  unfold Store.curveIn Store.sampled
  rw [h.pointsIn, h.func]

theorem Framed.centerIn (h : Framed before after) (d : DomainId) (s : SetId) :
    after.centerIn d s = before.centerIn d s := by
  unfold Store.centerIn
  rw [h.pointsIn, h.curveIn, h.func]

end Quiet

end Store

end FuzzyInference

import FuzzyInference.Defuzzify
import FuzzyInference.Store.Basic

/-!
# Sets on their sample points

A set bound to a living domain is sampled on the domain's grid. A singleton whose spike falls
between two grid points is sampled at the spike as well. The memberships and the center of gravity
are computed once and kept: a set that was asked for them goes on answering after its domain is
gone.

## Contents
- `samplePoints`, `insertPoint`: where a set is sampled.
- `array`, `centerOfGravity`: computed once.
- `len`, `cardinality`, `relativeCardinality`: what is counted of the memberships.
-/

namespace FuzzyInference

open Scalar

variable {α : Type} [Scalar α]

/-- Puts a point into an ascending list unless it is there. -/
def insertPoint (c : α) (points : List α) : List α :=
  let before := points.takeWhile (· < c)
  match points.dropWhile (· < c) with
  | [] => before ++ [c]
  | p :: after => if p == c then points else before ++ c :: p :: after

namespace Store

/-- The domain that a set can reach, or a failure. -/
def reachedDomain (store : Store α) (s : SetId) : Except (FuzzyError α) (Domain α) :=
  match store.domainOf? s with
  | some d => .ok (store.domainAt d)
  | none => .error (.unbound (store.label s))

/-- The points of a grid at which a function is sampled. -/
def pointsOf (grid : Grid α) (func : Membership α) : List α :=
  match func.spike? with
  | some c => if grid.contains c then insertPoint c grid.points else grid.points
  | none => grid.points

/-- Where a set is sampled. -/
def samplePoints (store : Store α) (s : SetId) : Except (FuzzyError α) (List α) := do
  return pointsOf (← store.reachedDomain s).grid (store.setAt s).func

/-- The memberships at the sample points, computed on the first request and kept. -/
def array (s : SetId) : Action α (List α) := fun store =>
  match (store.setAt s).array? with
  | some values => (.ok values, store)
  | none =>
    match store.samplePoints s with
    | .error e => (.error e, store)
    | .ok points =>
      let func := (store.setAt s).func
      let values := points.map fun x => func.evaluate x
      (.ok values, store.modifySet s fun set => { set with array? := some values })

/-- Keeps a center of gravity and answers it. -/
def keepCenter (s : SetId) (center : α) : Action α α := fun store =>
  (.ok center, store.modifySet s fun set => { set with center? := some center })

/-- The center of gravity, computed on the first request and kept. A singleton has it at its spike,
    with or without a domain; a set that is zero on all its sample points has it at 0. -/
def centerOfGravity (s : SetId) : Action α α := do
  let store ← get
  match (store.setAt s).center? with
  | some center => return center
  | none =>
    match (store.setAt s).func.spike? with
    | some c => keepCenter s c
    | none =>
      let points ← Action.ofExcept (store.samplePoints s)
      let values ← array s
      keepCenter s ((centroid points values).getD 0.0)

/-- The number of sample points. -/
def len (s : SetId) : Action α Nat := do
  return (← array s).length

/-- The sum of the memberships. -/
def cardinality (s : SetId) : Action α α := do
  return sum (← array s)

/-- The mean of the memberships. -/
def relativeCardinality (s : SetId) : Action α α := do
  let len ← len s
  if len = 0 then throw (.noPoints ((← get).label s))
  return (← cardinality s) / ofNat len

end Store

end FuzzyInference

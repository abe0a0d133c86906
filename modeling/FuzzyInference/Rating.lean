import FuzzyInference.Store.Registry

/-!
# Ratings

Weighs factors into a rating on a target domain: the weighted sum of memberships, carried onto the
bounds of the domain and rounded to its resolution.

## Contents
- `roundPartial`: to the nearest multiple of a step.
- `Rescale`: an affine map between intervals.
- `WeightedSum`: weights that add up to 1, and the ratings they give.
-/

namespace FuzzyInference

open Scalar

variable {α : Type} [Scalar α]

/-- The multiple of a step nearest to a number. A step of 0 or infinity leaves the number alone. -/
def roundPartial (x step : α) : α :=
  if step == 0.0 || isInfinite step then x else round (x / step) * step

/-- An affine map from one interval onto another. -/
structure Rescale (α : Type) where
  outLow : α
  outHigh : α
  inLow : α
  inHigh : α
  deriving Repr

namespace Rescale

/-- The map onto `[outLow, outHigh]`, from the unit interval unless its ends are given. -/
def make (outLow outHigh : α) (inLow? inHigh? : Option α) : Except (FuzzyError α) (Rescale α) := do
  let inLow := inLow?.getD 0.0
  let inHigh := inHigh?.getD 1.0
  ensure (inLow < inHigh) (.emptyInterval inLow inHigh)
  return ⟨outLow, outHigh, inLow, inHigh⟩

/-- Where a number goes. The products are taken apart, which holds up better against overflow. -/
def apply (r : Rescale α) (x : α) : α :=
  (r.outLow * r.inHigh - r.outLow * x - r.outHigh * r.inLow + r.outHigh * x) / (r.inHigh - r.inLow)

end Rescale

/-- Weights of named factors, and the target domain's bounds and resolution. -/
structure WeightedSum (α : Type) where
  weights : OrderedMap String α
  low : α
  high : α
  res : α

namespace WeightedSum

/-- How far the total of the weights may be from 1. -/
def totalTolerance : α := 1e-9

/-- Weights for ratings on a domain. Of two weights for one factor the later one counts. -/
def make (weights : List (String × α)) (target : Domain α) :
    Except (FuzzyError α) (WeightedSum α) := do
  let weights := OrderedMap.ofList weights
  let total := sum weights.values
  ensure (!(totalTolerance < abs (total - 1.0))) (.weightsTotal total)
  return ⟨weights, target.grid.low, target.grid.high, target.res⟩

/-- The weighted sum of memberships, added to `total`. -/
def weigh (w : WeightedSum α) (total : α) : List (String × α) → Except (FuzzyError α) α
  | [] => .ok total
  | (name, m) :: rest =>
    match w.weights.get? name with
    | none => .error (.unknownFactor name)
    | some weight => weigh w (total + m * weight) rest

/-- The rating of memberships. A factor without a weight is refused, one that is left out counts as
    0. -/
def rate (w : WeightedSum α) (memberships : List (String × α)) : Except (FuzzyError α) α := do
  let total ← w.weigh 0.0 memberships
  let scale ← Rescale.make w.low w.high none none
  return roundPartial (scale.apply total) w.res

end WeightedSum

end FuzzyInference

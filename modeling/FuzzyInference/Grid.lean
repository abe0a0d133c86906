import FuzzyInference.Scalar.Basic

/-!
# Sampling grids

Evenly spaced points over a closed interval, both ends included. The number of steps is the width
over the resolution: the nearest whole number if the quotient is a hair's breadth from it, the
whole part otherwise, and at least one.
-/

namespace FuzzyInference

/-- Evenly spaced points from `low` to `high`. -/
structure Grid (α : Type) where
  low : α
  high : α
  len : Nat
  deriving Repr

namespace Grid

open Scalar

variable {α : Type} [Scalar α]

/-- The relative distance within which a quotient counts as a whole number. -/
def hair : α := 1e-9

/-- The number of steps for a quotient of width and resolution, as a number that is whole. -/
def wholeSteps (ratio : α) : α :=
  let nearest := round ratio
  if abs (ratio - nearest) ≤ hair * greater nearest 1.0 then nearest else floor ratio

/-- The number of points that cover `[low, high]` at a resolution. -/
def count (low high resolution : α) : Nat :=
  toNat (greater (wholeSteps ((high - low) / resolution)) 1.0) + 1

/-- The grid over `[low, high]` at a resolution. -/
def ofResolution (low high resolution : α) : Grid α := ⟨low, high, count low high resolution⟩

/-- The distance of two neighbours. -/
def step (g : Grid α) : α :=
  if 1 < g.len then (g.high - g.low) / ofNat (g.len - 1) else 0.0

/-- The point at an index; the last one is the upper bound itself. -/
@[inline] def point (g : Grid α) (step : α) (i : Nat) : α :=
  if i + 1 = g.len && 1 < g.len then g.high else g.low + step * ofNat i

/-- The point at an index, if there is one. -/
def point? (g : Grid α) (i : Nat) : Option α :=
  if i < g.len then some (g.point g.step i) else none

/-- All points in order. -/
def points (g : Grid α) : List α :=
  let step := g.step
  (List.range g.len).map (g.point step)

/-- Whether a number lies between the bounds. -/
def contains (g : Grid α) (x : α) : Bool := g.low ≤ x && x ≤ g.high

end Grid

end FuzzyInference

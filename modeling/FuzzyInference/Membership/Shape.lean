import FuzzyInference.Scalar.Basic

/-!
# Shapes of membership functions

The elementary curves that map a number to a degree of membership. The core of a shape is where its
membership is highest, the rest is unsupported; a shape carries the two heights as `core` and
`unsupported` where they may differ from 1 and 0.

## Contents
- `Shape`: the families of curves with their parameters.
- `slope`, `risingRamp`, `fallingRamp`, `logistic`, `interpolate`: the pieces that several families share.
- `Shape.evaluate`: the membership of a number. It has a value for every input.
-/

namespace FuzzyInference

/-- An elementary membership curve. -/
inductive Shape (α : Type) where
  /-- the input itself -/
  | identity
  /-- the same membership everywhere -/
  | constant (membership : α)
  /-- a straight line, clipped to the unit interval -/
  | linear (gradient offset : α)
  /-- the core height between two bounds -/
  | rectangular (low high core unsupported : α)
  /-- up to a peak and down again -/
  | triangular (low high peak core unsupported : α)
  /-- up to a plateau and down again -/
  | trapezoid (low coreLow coreHigh high core unsupported : α)
  /-- up between two bounds, or down if `inverse` -/
  | boundedLinear (low high core unsupported : α) (inverse : Bool)
  /-- from 0 up to 1 -/
  | rising (low high : α)
  /-- from 1 down to 0 -/
  | falling (low high : α)
  /-- the logistic curve -/
  | sigmoid (limit steepness midpoint : α)
  /-- the logistic curve through 0.1 and 0.9 at the bounds -/
  | boundedSigmoid (low high : α) (inverse : Bool)
  /-- the logistic curve around 0 -/
  | simpleSigmoid (steepness : α)
  /-- two bounded sigmoids that meet in a peak -/
  | triangularSigmoid (low high peak : α)
  /-- the bell curve -/
  | gauss (center sharpness height : α)
  /-- from the origin towards a limit -/
  | boundedExponential (rate limit : α)
  /-- one height at a single point and another one elsewhere -/
  | singleton (location elsewhere height : α)
  /-- straight lines between given points, flat beyond the outer ones -/
  | piecewise (points : List (α × α))
  deriving BEq, Repr

open Scalar

variable {α : Type} [Scalar α]

/-- A straight slope from `unsupported` at `low` to `core` at `high`, the heights swapped if
    `inverse`. Without a slope it is the mean of the heights; a vertical one steps at the middle of
    the bounds, where it has that mean. -/
def slope (low high core unsupported : α) (inverse : Bool) (x : α) : α :=
  let top := if inverse then unsupported else core
  let bottom := if inverse then core else unsupported
  let middle := (top + bottom) / 2.0
  if top == bottom then middle
  else
    let gradient := (top - bottom) / (high - low)
    if gradient == 0.0 then middle
    else if !isFinite gradient then
      let step := (high + low) / 2.0
      if x < step then bottom else if step < x then top else middle
    else if x ≤ low then bottom
    else if high ≤ x then top
    else clamp (gradient * (x - low) + bottom) (lesser top bottom) (greater top bottom)

/-- The value of a ramp whose width is zero or too large to be a number; `none` for any other. An
    infinite ramp stays halfway, one without width steps at `low`. -/
def degenerateRamp? (low high : α) (rises : Bool) (x : α) : Option α :=
  let width := high - low
  if isInfinite width then some 0.5
  else if width == 0.0 then
    let m : α := if x < low then 0.0 else if low < x then 1.0 else 0.5
    some (if rises then m else 1.0 - m)
  else none

/-- From 0 at `low` to 1 at `high`. -/
def risingRamp (low high x : α) : α :=
  (degenerateRamp? low high true x).getD <|
    if x < low then 0.0
    else if x ≤ high then clamp ((x - low) / (high - low)) 0.0 1.0
    else 1.0

/-- From 1 at `low` to 0 at `high`. The quotient is split so that infinite bounds do not meet in a
    difference. -/
def fallingRamp (low high x : α) : α :=
  (degenerateRamp? low high false x).getD <|
    if x ≤ low then 1.0
    else if x < high then clamp (high / (high - low) - x / (high - low)) 0.0 1.0
    else 0.0

/-- The exponential; a product of zero and infinity in the exponent counts as 0. -/
def expOrOne (e : α) : α := if isNaN e then 1.0 else exp e

/-- The logistic curve with membership 0.1 at `low` and 0.9 at `high`, the other way round if
    `inverse`. -/
def logistic (low high : α) (inverse : Bool) (x : α) : α :=
  let first := if inverse then high else low
  let second := if inverse then low else high
  let k := (4.0 * ln 3.0) / (first - second)
  let p : α := if isInfinite k then 0.0 else expOrOne (-k * first)
  let q : α :=
    if (isInfinite k && x == 0.0) || (k == 0.0 && isInfinite x) then 1.0 else exp (x * k)
  let r := p * q
  1.0 / (1.0 + 9.0 * (if isNaN r then 1.0 else r))

/-- The interpolation from a point `(x₁, m₁)` on: within the first segment that holds `x`, or the
    membership of the last point. -/
def interpolateFrom (x : α) (x₁ m₁ : α) : List (α × α) → α
  | [] => m₁
  | (x₂, m₂) :: rest =>
    if x₁ ≤ x && x ≤ x₂ then m₁ + (x - x₁) * (m₂ - m₁) / (x₂ - x₁)
    else interpolateFrom x x₂ m₂ rest

/-- Linear interpolation between points in ascending order, held at the ends; 0 without points. -/
def interpolate (points : List (α × α)) (x : α) : α :=
  match points with
  | [] => 0.0
  | (x₁, m₁) :: rest => if x < x₁ then m₁ else interpolateFrom x x₁ m₁ rest

/-- The membership of `x`. -/
def Shape.evaluate (x : α) : Shape α → α
  | identity => x
  | constant membership => membership
  | linear gradient offset =>
    let y := if gradient == 0.0 then offset else gradient * x + offset
    if y ≤ 0.0 then 0.0 else if 1.0 ≤ y then 1.0 else y
  | rectangular low high core unsupported => if x < low || high < x then unsupported else core
  | triangular low high peak core unsupported =>
    if x ≤ low || high ≤ x then unsupported
    else if x == peak then core
    else if x < peak then slope low peak core unsupported false x
    else slope peak high core unsupported true x
  | trapezoid low coreLow coreHigh high core unsupported =>
    if x < low || high < x then unsupported
    else if x < coreLow then slope low coreLow core unsupported false x
    else if coreHigh < x then slope coreHigh high core unsupported true x
    else core
  | boundedLinear low high core unsupported inverse => slope low high core unsupported inverse x
  | rising low high => risingRamp low high x
  | falling low high => fallingRamp low high x
  | sigmoid limit steepness midpoint =>
    limit / (1.0 + expOrOne (-steepness * (x - midpoint)))
  | boundedSigmoid low high inverse => logistic low high inverse x
  | simpleSigmoid steepness =>
    if isInfinite x && steepness == 0.0 then 0.5 else 1.0 / (1.0 + exp (x * -steepness))
  | triangularSigmoid low high peak =>
    if x ≤ peak then logistic low peak false x else 1.0 - logistic peak high false x
  | gauss center sharpness height => height * exp (-sharpness * square (x - center))
  | boundedExponential rate limit => limit - limit / exp (rate * x)
  | singleton location elsewhere height => if x == location then height else elsewhere
  | piecewise points => interpolate points x

end FuzzyInference

import FuzzyInference.Membership.Family
import FuzzyInference.Membership.Validate

/-!
# Shapes as rows of numbers

Every shape but the piecewise one is its family and a row of numbers, a flag being 1 or 0. The row
is written by `parameters?` and read by `ofParameters`, which needs as many numbers as the family
has fields and checks what it builds.
-/

namespace FuzzyInference

open Scalar

variable {α : Type} [Scalar α]

/-- A flag as a number. -/
def ofFlag (flag : Bool) : α := if flag then 1.0 else 0.0

/-- A number as a flag: 0 is false. -/
def toFlag (x : α) : Bool := !(x == 0.0)

/-- The row of a shape. -/
def Shape.parameters? : Shape α → Option (List α)
  | identity => some []
  | constant membership => some [membership]
  | linear gradient offset => some [gradient, offset]
  | rectangular low high core unsupported => some [low, high, core, unsupported]
  | triangular low high peak core unsupported => some [low, high, peak, core, unsupported]
  | trapezoid low coreLow coreHigh high core unsupported =>
    some [low, coreLow, coreHigh, high, core, unsupported]
  | boundedLinear low high core unsupported inverse =>
    some [low, high, core, unsupported, ofFlag inverse]
  | rising low high | falling low high => some [low, high]
  | sigmoid limit steepness midpoint => some [limit, steepness, midpoint]
  | boundedSigmoid low high inverse => some [low, high, ofFlag inverse]
  | simpleSigmoid steepness => some [steepness]
  | triangularSigmoid low high peak => some [low, high, peak]
  | gauss center sharpness height => some [center, sharpness, height]
  | boundedExponential rate limit => some [rate, limit]
  | singleton location elsewhere height => some [location, elsewhere, height]
  | piecewise _ => none

/-- The row of a function that is a shape. -/
def Membership.parameters? : Membership α → Option (List α)
  | shape curve => curve.parameters?
  | _ => none

/-- Whether the functions of a family are rows of numbers. -/
def Family.hasRows : Family → Bool
  | .piecewise | .inv | .alpha | .normalize | .moderate | .power | .intensify
  | .combination => false
  | _ => true

/-- The shape of a family with a row of the family's length. -/
def Shape.ofRow? : Family → List α → Option (Shape α)
  | .identity, [] => some .identity
  | .constant, [c] => some (.constant c)
  | .linear, [m, b] => some (.linear m b)
  | .rectangular, [low, high, core, uns] => some (.rectangular low high core uns)
  | .triangular, [low, high, peak, core, uns] => some (.triangular low high peak core uns)
  | .trapezoid, [low, cLow, cHigh, high, core, uns] =>
    some (.trapezoid low cLow cHigh high core uns)
  | .boundedLinear, [low, high, core, uns, inverse] =>
    some (.boundedLinear low high core uns (toFlag inverse))
  | .rising, [low, high] => some (.rising low high)
  | .falling, [low, high] => some (.falling low high)
  | .sigmoid, [limit, k, x₀] => some (.sigmoid limit k x₀)
  | .boundedSigmoid, [low, high, inverse] => some (.boundedSigmoid low high (toFlag inverse))
  | .simpleSigmoid, [k] => some (.simpleSigmoid k)
  | .triangularSigmoid, [low, high, peak] => some (.triangularSigmoid low high peak)
  | .gauss, [c, b, height] => some (.gauss c b height)
  | .boundedExponential, [k, limit] => some (.boundedExponential k limit)
  | .singleton, [c, elsewhere, height] => some (.singleton c elsewhere height)
  | _, _ => none

/-- The accepted shape of the family with this name and the given row. -/
def Membership.ofParameters (name : String) (row : List α) :
    Except (FunctionFault α) (Membership α) :=
  match Family.ofName? name with
  | none => .error (.unknownFamily name)
  | some family =>
    if family.hasRows then
      match Shape.ofRow? family row with
      | some curve => (Membership.shape curve).checked
      | none => .error (.parameterCount name family.fields.length row.length)
    else .error (.unknownFamily name)

end FuzzyInference

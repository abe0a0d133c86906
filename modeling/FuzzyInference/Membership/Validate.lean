import FuzzyInference.Membership.Basic
import FuzzyInference.Membership.Fault

/-!
# Checked parameters

The conditions under which a membership function is accepted. They are written so that NaN breaks
them wherever a number is compared. A composite function is checked before what it is built from.
-/

namespace FuzzyInference

open Scalar

variable {α : Type} [Scalar α]

/-- Fails with `fault` unless the condition holds. -/
def ensure {ε : Type} (condition : Bool) (fault : ε) : Except ε Unit :=
  if condition then .ok () else .error fault

/-- Whether a number lies in the unit interval and is not 0. -/
def isHeight (x : α) : Bool := (0.0 : α) < x && x ≤ (1.0 : α)

/-- Whether each number is less than the next one. -/
def isIncreasing : List α → Bool
  | x :: y :: rest => x < y && isIncreasing (y :: rest)
  | _ => true

/-- The heights of a shape lie in order in the unit interval. -/
def checkHeights (core unsupported : α) (strict : Bool) : Except (FunctionFault α) Unit :=
  let ordered := if strict then decide (unsupported < core) else decide (unsupported ≤ core)
  ensure ((0.0 : α) ≤ unsupported && ordered && core ≤ (1.0 : α))
    (.heightsDisordered strict unsupported core)

/-- The bounds of a shape are in order and apart. -/
def checkBounds (low high : α) : Except (FunctionFault α) Unit :=
  ensure (low < high) (.boundsNotIncreasing low high)

/-- The bounds of a ramp are in order; they may coincide. -/
def checkRamp (low high : α) : Except (FunctionFault α) Unit :=
  ensure (low ≤ high) (.boundsReversed low high)

/-- The peak lies between the bounds. -/
def checkPeak (low peak high : α) : Except (FunctionFault α) Unit :=
  ensure (low < peak && peak < high) (.peakNotBetween peak low high)

/-- The conditions on an elementary shape. -/
def Shape.validate : Shape α → Except (FunctionFault α) Unit
  | identity => .ok ()
  | constant membership => ensure (inUnit membership) (.constantOutside membership)
  | linear gradient offset =>
    ensure (isFinite gradient && isFinite offset) (.lineNotFinite gradient offset)
  | rectangular low high core unsupported => do
    checkBounds low high
    checkHeights core unsupported false
  | triangular low high peak core unsupported => do
    checkBounds low high
    checkPeak low peak high
    checkHeights core unsupported true
  | trapezoid low coreLow coreHigh high core unsupported => do
    ensure (low < coreLow && coreLow ≤ coreHigh && coreHigh < high)
      (.plateauDisordered low coreLow coreHigh high)
    checkHeights core unsupported true
  | boundedLinear low high core unsupported _ => do
    checkRamp low high
    checkHeights core unsupported false
  | rising low high | falling low high => checkRamp low high
  | sigmoid limit steepness midpoint => do
    ensure (isHeight limit) (.sigmoidLimit limit)
    ensure (!isNaN steepness && !isNaN midpoint) .sigmoidNotANumber
  | boundedSigmoid low high _ => checkBounds low high
  | simpleSigmoid steepness => ensure (!isNaN steepness) .steepnessNotANumber
  | triangularSigmoid low high peak => do
    checkBounds low high
    checkPeak low peak high
  | gauss center sharpness height => do
    ensure (!isNaN center) .centerNotANumber
    ensure ((0.0 : α) < sharpness) (.sharpnessNotPositive sharpness)
    ensure (isHeight height) (.gaussHeight height)
  | boundedExponential rate limit => do
    ensure ((0.0 : α) < rate) (.rateNotPositive rate)
    ensure (isHeight limit) (.exponentialLimit limit)
  | singleton location elsewhere height => do
    ensure (!isNaN location) .locationNotANumber
    ensure ((0.0 : α) ≤ elsewhere && elsewhere < height && height ≤ (1.0 : α))
      (.spikeDisordered elsewhere height)
  | piecewise points => do
    ensure (2 ≤ points.length) .tooFewPoints
    ensure (isIncreasing (points.map Prod.fst)) .pointsNotIncreasing
    ensure (points.all fun (_, m) => inUnit m) .pointOutside

/-- The weight of a compensatory combinator lies in the unit interval. -/
def Combinator.checkWeight (op : Combinator α) : Except (FunctionFault α) Unit :=
  match op.weight? with
  | some weight => ensure (inUnit weight) (.weightOutside op weight)
  | none => .ok ()

/-- The conditions on a combinator with a number of operands. -/
def Combinator.validate (op : Combinator α) (operands : Nat) : Except (FunctionFault α) Unit := do
  op.checkWeight
  ensure (operands ≠ 0 || op.allowsNone) (.noOperands op)

namespace Membership

mutual

/-- The conditions on a function and on everything it is built from. -/
def validate : Membership α → Except (FunctionFault α) Unit
  | shape curve => curve.validate
  | inv func => validate func
  | alpha floor ceiling floorClip ceilingClip func => do
    ensure ((0.0 : α) ≤ floor && floor ≤ ceiling && ceiling ≤ (1.0 : α))
      (.thresholdsDisordered floor ceiling)
    ensure (inUnit floorClip && inUnit ceilingClip) (.clipsOutside floorClip ceilingClip)
    validate func
  | normalize height func => do
    ensure (isHeight height) (.heightOutside height)
    validate func
  | moderate func => validate func
  | power exponent func => do
    ensure (isFinite exponent && (0.0 : α) ≤ exponent) (.exponentInvalid exponent)
    validate func
  | intensify func => validate func
  | combination op operands => do
    op.validate operands.length
    validateAll operands

/-- The conditions on several functions, the first one first. -/
def validateAll : List (Membership α) → Except (FunctionFault α) Unit
  | [] => .ok ()
  | func :: funcs => do
    validate func
    validateAll funcs

end

/-- The function itself, if it is accepted. -/
def checked (func : Membership α) : Except (FunctionFault α) (Membership α) := do
  func.validate
  return func

end Membership

end FuzzyInference

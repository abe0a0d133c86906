import FuzzyInference.Combinator
import FuzzyInference.Decimal.Style

/-!
# What can be wrong with a membership function

One constructor for each condition on parameters that a function can break, with the numbers that
break it, and the wording of each.
-/

namespace FuzzyInference

/-- A broken condition on the parameters of a membership function. -/
inductive FunctionFault (α : Type) where
  | constantOutside (membership : α)
  | lineNotFinite (gradient offset : α)
  | heightsDisordered (strict : Bool) (unsupported core : α)
  | boundsNotIncreasing (low high : α)
  | boundsReversed (low high : α)
  | peakNotBetween (peak low high : α)
  | plateauDisordered (low coreLow coreHigh high : α)
  | sigmoidLimit (limit : α)
  | sigmoidNotANumber
  | steepnessNotANumber
  | centerNotANumber
  | sharpnessNotPositive (sharpness : α)
  | gaussHeight (height : α)
  | rateNotPositive (rate : α)
  | exponentialLimit (limit : α)
  | locationNotANumber
  | spikeDisordered (elsewhere height : α)
  | tooFewPoints
  | pointsNotIncreasing
  | pointOutside
  | thresholdsDisordered (floor ceiling : α)
  | clipsOutside (floorClip ceilingClip : α)
  | heightOutside (height : α)
  | exponentInvalid (exponent : α)
  | weightOutside (op : Combinator α) (weight : α)
  | noOperands (op : Combinator α)
  | unknownFamily (family : String)
  | parameterCount (family : String) (expected given : Nat)
  deriving Repr

namespace FunctionFault

/-- The wording of a fault. -/
def message : FunctionFault Float → String
  | constantOutside c => s!"constant {n c} is not within [0, 1]"
  | lineNotFinite m b => s!"linear({n m}, {n b}) must be finite"
  | heightsDisordered strict unsupported core =>
    let order := if strict then "<" else "<="
    s!"need 0 <= unsupported_m {order} core_m <= 1, got {n unsupported} and {n core}"
  | boundsNotIncreasing low high => s!"low must be less than high, got {n low} and {n high}"
  | boundsReversed low high => s!"low must not exceed high, got {n low} and {n high}"
  | peakNotBetween peak low high =>
    s!"peak {n peak} must be strictly between {n low} and {n high}"
  | plateauDisordered low coreLow coreHigh high =>
    "need low < c_low <= c_high < high, " ++
      s!"got {n low}, {n coreLow}, {n coreHigh}, {n high}"
  | sigmoidLimit limit => s!"L must be within (0, 1], got {n limit}"
  | sigmoidNotANumber => "sigmoid parameters must not be NaN"
  | steepnessNotANumber => "steepness must not be NaN"
  | centerNotANumber => "center must not be NaN"
  | sharpnessNotPositive b => s!"b must be greater than 0, got {n b}"
  | gaussHeight height => s!"c_m must be within (0, 1], got {n height}"
  | rateNotPositive k => s!"k must be greater than 0, got {n k}"
  | exponentialLimit limit => s!"limit must be within (0, 1], got {n limit}"
  | locationNotANumber => "singleton location must not be NaN"
  | spikeDisordered elsewhere height =>
    s!"need 0 <= no_m < c_m <= 1, got {n elsewhere} and {n height}"
  | tooFewPoints => "piecewise needs at least two points"
  | pointsNotIncreasing => "piecewise x coordinates must be strictly increasing"
  | pointOutside => "piecewise memberships must be within [0, 1]"
  | thresholdsDisordered floor ceiling =>
    s!"need 0 <= floor <= ceiling <= 1, got {n floor} and {n ceiling}"
  | clipsOutside floorClip ceilingClip =>
    s!"clip values {n floorClip} and {n ceilingClip} must be within [0, 1]"
  | heightOutside height => s!"height must be within (0, 1], got {n height}"
  | exponentInvalid exponent =>
    s!"exponent must be finite and non-negative, got {n exponent}"
  | weightOutside op weight => s!"{op.name} weight must be within [0, 1], got {n weight}"
  | noOperands op => s!"{op.name} needs at least one operand"
  | unknownFamily family => s!"unknown membership family {family}"
  | parameterCount family expected given =>
    s!"{family} takes {expected} parameters, got {given}"
where
  n (x : Float) : String := NumberStyle.plain.render x

end FunctionFault

end FuzzyInference

import FuzzyInference.Config.Basic
import FuzzyInference.Json.Writer
import FuzzyInference.Membership.Family

/-!
# Descriptions as documents

Writes membership functions, combinators and domain descriptions as JSON. A function is an object
with its family first and then its fields by name; a combinator is its name, or an object that
holds the weight under the name.
-/

namespace FuzzyInference

open Json

/-- The name of a combinator in documents. -/
def Combinator.documentName {α : Type} : Combinator α → String
  | min => "min"
  | max => "max"
  | product => "product"
  | boundedSum => "bounded_sum"
  | lukasiewiczAnd => "lukasiewicz_and"
  | lukasiewiczOr => "lukasiewicz_or"
  | einsteinProduct => "einstein_product"
  | einsteinSum => "einstein_sum"
  | hamacherProduct => "hamacher_product"
  | hamacherSum => "hamacher_sum"
  | lambda _ => "lambda"
  | gamma _ => "gamma"
  | simpleDisjointSum => "simple_disjoint_sum"

/-- A combinator as a document. -/
def Combinator.toJson (op : Combinator Float) : Json :=
  match op.weight? with
  | some weight => ofMembers [(op.documentName, ofMembers [("weight", ofDouble weight)])]
  | none => ofText op.documentName

/-- The values of the fields of a shape, in the order of its family's names. -/
def Shape.fieldValues : Shape Float → List Json
  | identity => []
  | constant membership => [ofDouble membership]
  | linear gradient offset => [gradient, offset].map ofDouble
  | rectangular low high core unsupported => [low, high, core, unsupported].map ofDouble
  | triangular low high peak core unsupported => [low, high, peak, core, unsupported].map ofDouble
  | trapezoid low coreLow coreHigh high core unsupported =>
    [low, coreLow, coreHigh, high, core, unsupported].map ofDouble
  | boundedLinear low high core unsupported inverse =>
    [low, high, core, unsupported].map ofDouble ++ [bool inverse]
  | rising low high | falling low high => [low, high].map ofDouble
  | sigmoid limit steepness midpoint => [limit, steepness, midpoint].map ofDouble
  | boundedSigmoid low high inverse => [low, high].map ofDouble ++ [bool inverse]
  | simpleSigmoid steepness => [ofDouble steepness]
  | triangularSigmoid low high peak => [low, high, peak].map ofDouble
  | gauss center sharpness height => [center, sharpness, height].map ofDouble
  | boundedExponential rate limit => [rate, limit].map ofDouble
  | singleton location elsewhere height => [location, elsewhere, height].map ofDouble
  | piecewise points => [array (points.map fun (x, m) => array [ofDouble x, ofDouble m])]

/-- A function of a family as a document, given the values of its fields. -/
def Family.record (family : Family) (values : List Json) : Json :=
  ofMembers (("family", ofText family.name) :: family.fields.zip values)

namespace Membership

mutual

/-- A function as a document. -/
def toJson : Membership Float → Json
  | shape curve => curve.family.record curve.fieldValues
  | inv func => Family.inv.record [toJson func]
  | alpha floor ceiling floorClip ceilingClip func =>
    Family.alpha.record
      [ofDouble floor, ofDouble ceiling, ofDouble floorClip, ofDouble ceilingClip, toJson func]
  | normalize height func => Family.normalize.record [ofDouble height, toJson func]
  | moderate func => Family.moderate.record [toJson func]
  | power exponent func => Family.power.record [ofDouble exponent, toJson func]
  | intensify func => Family.intensify.record [toJson func]
  | combination op operands => Family.combination.record [op.toJson, array (toJsons operands)]

/-- Several functions as documents. -/
def toJsons : List (Membership Float) → List Json
  | [] => []
  | func :: funcs => toJson func :: toJsons funcs

end

end Membership

namespace DomainConfig

/-- A description as a document. -/
def toJson (config : DomainConfig Float) : Json :=
  ofMembers
    [("name", ofText config.name), ("low", ofDouble config.low), ("high", ofDouble config.high),
     ("res", ofDouble config.res),
     ("sets", ofMembers (config.sets.entries.map fun (name, func) => (name, func.toJson)))]

/-- The indented text of a description. -/
def write (config : DomainConfig Float) : String := config.toJson.toIndented

end DomainConfig

end FuzzyInference

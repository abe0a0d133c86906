import FuzzyInference.Membership.Parameters

/-!
# Labels of membership functions

The two written forms of a function. A label names the family with its numbers in the plain style
and leaves out what a reader of messages does not need (the clips of an alpha cut). An inspection
shows every field by name, in the style that tells whole numbers from integers.
-/

namespace FuzzyInference

/-- Texts with a separator between them. -/
def joined (texts : List String) : String := String.intercalate ", " texts

/-- Breakpoints in brackets, in the style of inspections. -/
def inspectPoints (points : List (Float × Float)) : String :=
  "[" ++ joined (points.map fun (x, m) => s!"({render x}, {render m})") ++ "]"
where
  render (x : Float) : String := NumberStyle.inspection.render x

/-- A record with its fields by name. -/
def inspectFields (name : String) (fields : List (String × String)) : String :=
  name ++ " \x7b " ++ joined (fields.map fun (field, text) => s!"{field}: {text}") ++ " \x7d"

namespace Shape

/-- The label of a shape. -/
def label (curve : Shape Float) : String :=
  match curve with
  | piecewise points => s!"piecewise({inspectPoints points})"
  | curve =>
    let row := (curve.parameters?.getD []).map NumberStyle.plain.render
    s!"{curve.family.name}({joined row})"

/-- The inspection of a shape. -/
def inspect : Shape Float → String
  | identity => "Noop"
  | constant membership => inspectFields "Constant" [("c", n membership)]
  | linear gradient offset => inspectFields "Linear" [("m", n gradient), ("b", n offset)]
  | rectangular low high core unsupported =>
    inspectFields "Rectangular"
      [("low", n low), ("high", n high), ("core_m", n core), ("unsupported_m", n unsupported)]
  | triangular low high peak core unsupported =>
    inspectFields "Triangular"
      [("low", n low), ("high", n high), ("c", n peak), ("core_m", n core),
       ("unsupported_m", n unsupported)]
  | trapezoid low coreLow coreHigh high core unsupported =>
    inspectFields "Trapezoid"
      [("low", n low), ("c_low", n coreLow), ("c_high", n coreHigh), ("high", n high),
       ("core_m", n core), ("unsupported_m", n unsupported)]
  | boundedLinear low high core unsupported inverse =>
    inspectFields "BoundedLinear"
      [("low", n low), ("high", n high), ("core_m", n core), ("unsupported_m", n unsupported),
       ("inverse", flag inverse)]
  | rising low high => inspectFields "R" [("low", n low), ("high", n high)]
  | falling low high => inspectFields "S" [("low", n low), ("high", n high)]
  | sigmoid limit steepness midpoint =>
    inspectFields "Sigmoid" [("l", n limit), ("k", n steepness), ("x0", n midpoint)]
  | boundedSigmoid low high inverse =>
    inspectFields "BoundedSigmoid" [("low", n low), ("high", n high), ("inverse", flag inverse)]
  | simpleSigmoid steepness => inspectFields "SimpleSigmoid" [("k", n steepness)]
  | triangularSigmoid low high peak =>
    inspectFields "TriangularSigmoid" [("low", n low), ("high", n high), ("c", n peak)]
  | gauss center sharpness height =>
    inspectFields "Gauss" [("c", n center), ("b", n sharpness), ("c_m", n height)]
  | boundedExponential rate limit =>
    inspectFields "BoundedExponential" [("k", n rate), ("limit", n limit)]
  | singleton location elsewhere height =>
    inspectFields "Singleton" [("c", n location), ("no_m", n elsewhere), ("c_m", n height)]
  | piecewise points => inspectFields "Piecewise" [("points", inspectPoints points)]
where
  n (x : Float) : String := NumberStyle.inspection.render x
  flag (b : Bool) : String := if b then "true" else "false"

end Shape

/-- The inspection of a combinator. -/
def Combinator.inspect : Combinator Float → String
  | min => "Min"
  | max => "Max"
  | product => "Product"
  | boundedSum => "BoundedSum"
  | lukasiewiczAnd => "LukasiewiczAnd"
  | lukasiewiczOr => "LukasiewiczOr"
  | einsteinProduct => "EinsteinProduct"
  | einsteinSum => "EinsteinSum"
  | hamacherProduct => "HamacherProduct"
  | hamacherSum => "HamacherSum"
  | lambda weight => inspectFields "Lambda" [("weight", NumberStyle.inspection.render weight)]
  | gamma weight => inspectFields "Gamma" [("weight", NumberStyle.inspection.render weight)]
  | simpleDisjointSum => "SimpleDisjointSum"

namespace Membership

mutual

/-- The label of a function. -/
def label : Membership Float → String
  | shape curve => curve.label
  | inv func => s!"inv({label func})"
  | alpha floor ceiling _ _ func =>
    s!"alpha({NumberStyle.plain.render floor}, {NumberStyle.plain.render ceiling}, {label func})"
  | normalize height func => s!"normalize({NumberStyle.plain.render height}, {label func})"
  | moderate func => s!"moderate({label func})"
  | power exponent func => s!"({label func})^{NumberStyle.plain.render exponent}"
  | intensify func => s!"intensify({label func})"
  | combination op operands => s!"{op.name}({joined (labels operands)})"

/-- The labels of several functions. -/
def labels : List (Membership Float) → List String
  | [] => []
  | func :: funcs => label func :: labels funcs

end

mutual

/-- The inspection of a function. -/
def inspect : Membership Float → String
  | shape curve => curve.inspect
  | inv func => inspectFields "Inv" [("func", inspect func)]
  | alpha floor ceiling floorClip ceilingClip func =>
    inspectFields "Alpha"
      [("floor", NumberStyle.inspection.render floor),
       ("ceiling", NumberStyle.inspection.render ceiling),
       ("floor_clip", NumberStyle.inspection.render floorClip),
       ("ceiling_clip", NumberStyle.inspection.render ceilingClip), ("func", inspect func)]
  | normalize height func =>
    inspectFields "Normalize"
      [("height", NumberStyle.inspection.render height), ("func", inspect func)]
  | moderate func => inspectFields "Moderate" [("func", inspect func)]
  | power exponent func =>
    inspectFields "Power"
      [("exponent", NumberStyle.inspection.render exponent), ("func", inspect func)]
  | intensify func => inspectFields "Intensify" [("func", inspect func)]
  | combination op operands =>
    inspectFields "Combination"
      [("op", op.inspect), ("operands", s!"[{joined (inspectAll operands)}]")]

/-- The inspections of several functions. -/
def inspectAll : List (Membership Float) → List String
  | [] => []
  | func :: funcs => inspect func :: inspectAll funcs

end

end Membership

end FuzzyInference

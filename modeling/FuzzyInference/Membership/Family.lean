import FuzzyInference.Membership.Basic

/-!
# Families of membership functions

Every function belongs to one of twenty-four families. A family has a name and a fixed row of named
fields; parameters by position and documents by name are both read off these.
-/

namespace FuzzyInference

/-- The kind of a membership function. -/
inductive Family where
  | identity
  | constant
  | linear
  | rectangular
  | triangular
  | trapezoid
  | boundedLinear
  | rising
  | falling
  | sigmoid
  | boundedSigmoid
  | simpleSigmoid
  | triangularSigmoid
  | gauss
  | boundedExponential
  | singleton
  | piecewise
  | inv
  | alpha
  | normalize
  | moderate
  | power
  | intensify
  | combination
  deriving DecidableEq, Repr

namespace Family

/-- All families; documents may name one by its place in this list. -/
def all : List Family :=
  [identity, constant, linear, rectangular, triangular, trapezoid, boundedLinear, rising, falling,
   sigmoid, boundedSigmoid, simpleSigmoid, triangularSigmoid, gauss, boundedExponential, singleton,
   piecewise, inv, alpha, normalize, moderate, power, intensify, combination]

/-- The name of a family. -/
def name : Family → String
  | identity => "noop"
  | constant => "constant"
  | linear => "linear"
  | rectangular => "rectangular"
  | triangular => "triangular"
  | trapezoid => "trapezoid"
  | boundedLinear => "bounded_linear"
  | rising => "R"
  | falling => "S"
  | sigmoid => "sigmoid"
  | boundedSigmoid => "bounded_sigmoid"
  | simpleSigmoid => "simple_sigmoid"
  | triangularSigmoid => "triangular_sigmoid"
  | gauss => "gauss"
  | boundedExponential => "bounded_exponential"
  | singleton => "singleton"
  | piecewise => "piecewise"
  | inv => "inv"
  | alpha => "alpha"
  | normalize => "normalize"
  | moderate => "moderate"
  | power => "power"
  | intensify => "intensify"
  | combination => "combination"

/-- The names of the fields, in order. -/
def fields : Family → List String
  | identity => []
  | constant => ["c"]
  | linear => ["m", "b"]
  | rectangular => ["low", "high", "core_m", "unsupported_m"]
  | triangular => ["low", "high", "c", "core_m", "unsupported_m"]
  | trapezoid => ["low", "c_low", "c_high", "high", "core_m", "unsupported_m"]
  | boundedLinear => ["low", "high", "core_m", "unsupported_m", "inverse"]
  | rising => ["low", "high"]
  | falling => ["low", "high"]
  | sigmoid => ["L", "k", "x0"]
  | boundedSigmoid => ["low", "high", "inverse"]
  | simpleSigmoid => ["k"]
  | triangularSigmoid => ["low", "high", "c"]
  | gauss => ["c", "b", "c_m"]
  | boundedExponential => ["k", "limit"]
  | singleton => ["c", "no_m", "c_m"]
  | piecewise => ["points"]
  | inv => ["func"]
  | alpha => ["floor", "ceiling", "floor_clip", "ceiling_clip", "func"]
  | normalize => ["height", "func"]
  | moderate => ["func"]
  | power => ["exponent", "func"]
  | intensify => ["func"]
  | combination => ["op", "operands"]

/-- The family of a name. -/
def ofName? (s : String) : Option Family := all.find? (·.name == s)

theorem ofName?_name (f : Family) : ofName? f.name = some f := by cases f <;> decide

end Family

variable {α : Type}

/-- The family of a shape. -/
def Shape.family : Shape α → Family
  | identity => .identity
  | constant _ => .constant
  | linear .. => .linear
  | rectangular .. => .rectangular
  | triangular .. => .triangular
  | trapezoid .. => .trapezoid
  | boundedLinear .. => .boundedLinear
  | rising .. => .rising
  | falling .. => .falling
  | sigmoid .. => .sigmoid
  | boundedSigmoid .. => .boundedSigmoid
  | simpleSigmoid _ => .simpleSigmoid
  | triangularSigmoid .. => .triangularSigmoid
  | gauss .. => .gauss
  | boundedExponential .. => .boundedExponential
  | singleton .. => .singleton
  | piecewise _ => .piecewise

/-- The family of a function. -/
def Membership.family : Membership α → Family
  | shape curve => curve.family
  | inv _ => .inv
  | alpha .. => .alpha
  | normalize .. => .normalize
  | moderate _ => .moderate
  | power .. => .power
  | intensify _ => .intensify
  | combination .. => .combination

end FuzzyInference

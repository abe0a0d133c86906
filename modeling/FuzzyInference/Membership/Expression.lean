import FuzzyInference.Membership.Validate

/-!
# Expressions for membership functions

How a membership function is asked for: a shape with its numbers, some of which may be left to a
default, or a function made from others. Building goes from the inside out and checks every step, so
the innermost fault is the one that is reported.

## Contents
- `Hedge`: the linguistic hedges, each a power.
- `Membership.triangular`, `Membership.normalized`, and the other checked ways to make a function.
- `Expression`, `Expression.build`.
-/

namespace FuzzyInference

/-- A word that reshapes a membership curve. -/
inductive Hedge where
  /-- only values close to 1 stay at the top -/
  | very
  /-- like `very`, but not as strongly -/
  | plus
  /-- more values reach the top -/
  | minus
  deriving DecidableEq, Repr

open Scalar

variable {α : Type} [Scalar α]

/-- The power that a hedge raises memberships to. -/
def Hedge.exponent : Hedge → α
  | very => 2.0
  | plus => 1.25
  | minus => 0.75

/-- Half way between two bounds, where a peak lies by default. -/
def midpoint (low high : α) : α := (low + high) / 2.0

namespace Membership

/-- A triangle; its peak is midway between the bounds unless given. -/
def triangular (low high : α) (peak : Option α) (core unsupported : α) :
    Except (FunctionFault α) (Membership α) :=
  (shape (.triangular low high (peak.getD (midpoint low high)) core unsupported)).checked

/-- Two bounded sigmoids; their peak is midway between the bounds unless given. -/
def triangularSigmoid (low high : α) (peak : Option α) :
    Except (FunctionFault α) (Membership α) :=
  (shape (.triangularSigmoid low high (peak.getD (midpoint low high)))).checked

/-- A function clipped at two thresholds; the clips are the thresholds unless given. -/
def cut (floor ceiling : α) (func : Membership α) (floorClip ceilingClip : Option α) :
    Except (FunctionFault α) (Membership α) :=
  (alpha floor ceiling (floorClip.getD floor) (ceilingClip.getD ceiling) func).checked

/-- A function divided by its height. -/
def normalized (height : α) (func : Membership α) : Except (FunctionFault α) (Membership α) :=
  (normalize height func).checked

/-- A function raised to a power. -/
def raised (exponent : α) (func : Membership α) : Except (FunctionFault α) (Membership α) :=
  (power exponent func).checked

/-- A function under a hedge. The exponents of hedges need no check. -/
def hedged (hedge : Hedge) (func : Membership α) : Membership α := power hedge.exponent func

/-- Functions under a combinator, which is checked against their number. -/
def combined (op : Combinator α) (operands : List (Membership α)) :
    Except (FunctionFault α) (Membership α) := do
  op.validate operands.length
  return combination op operands

end Membership

/-- A request for a membership function. -/
inductive Expression (α : Type) where
  | shape (curve : Shape α)
  | triangular (low high : α) (peak : Option α) (core unsupported : α)
  | triangularSigmoid (low high : α) (peak : Option α)
  | inv (func : Expression α)
  | alpha (floor ceiling : α) (func : Expression α) (floorClip ceilingClip : Option α)
  | normalize (height : α) (func : Expression α)
  | moderate (func : Expression α)
  | power (exponent : α) (func : Expression α)
  | intensify (func : Expression α)
  | hedged (hedge : Hedge) (func : Expression α)
  | combination (op : Combinator α) (operands : List (Expression α))
  deriving Repr

namespace Expression

mutual

/-- The function that an expression asks for. A combinator's weight is checked before its operands
    are built. -/
def build : Expression α → Except (FunctionFault α) (Membership α)
  | shape curve => (Membership.shape curve).checked
  | triangular low high peak core unsupported =>
    Membership.triangular low high peak core unsupported
  | triangularSigmoid low high peak => Membership.triangularSigmoid low high peak
  | inv func => do return .inv (← build func)
  | alpha floor ceiling func floorClip ceilingClip => do
    Membership.cut floor ceiling (← build func) floorClip ceilingClip
  | normalize height func => do Membership.normalized height (← build func)
  | moderate func => do return .moderate (← build func)
  | power exponent func => do Membership.raised exponent (← build func)
  | intensify func => do return .intensify (← build func)
  | hedged hedge func => do return (← build func).hedged hedge
  | combination op operands => do
    op.checkWeight
    Membership.combined op (← buildAll operands)

/-- The functions that several expressions ask for, built from left to right. -/
def buildAll : List (Expression α) → Except (FunctionFault α) (List (Membership α))
  | [] => return []
  | e :: es => do return (← build e) :: (← buildAll es)

end

end Expression

end FuzzyInference

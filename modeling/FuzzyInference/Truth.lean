import FuzzyInference.Scalar.Basic

/-!
# Truth values of memberships

Maps from a degree of membership to a degree of truth. The plain ones are the degree and its
complement, the others are quarters of the unit circle; those of `very` lie below zero.
-/

namespace FuzzyInference

/-- A judgement on a degree of membership. -/
inductive TruthModifier where
  | isTrue
  | isFalse
  | fairlyTrue
  | fairlyFalse
  | veryTrue
  | veryFalse
  deriving DecidableEq, Repr

open Scalar

variable {α : Type} [Scalar α]

/-- The height of the unit circle above `x`. -/
def circle (x : α) : α := sqrt (1.0 - square x)

/-- The truth of a judgement on the degree `m`. -/
def TruthModifier.evaluate (m : α) : TruthModifier → α
  | isTrue => m
  | isFalse => 1.0 - m
  | fairlyTrue => circle (1.0 - m)
  | fairlyFalse => circle m
  | veryTrue => -circle m
  | veryFalse => -circle (1.0 - m)

end FuzzyInference

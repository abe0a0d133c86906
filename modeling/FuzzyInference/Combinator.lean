import FuzzyInference.Scalar.Ascending

/-!
# Combinators

How the memberships that several functions give one input are folded into one. The pairwise
combinators are folded from left to right; the disjoint sum looks at all its operands at once.

## Contents
- `Combinator`: the thirteen connectives, two of them compensatory with a weight.
- `Combinator.pair`: two operands; `Combinator.reduce`: any number of them.
- `disjointSum`: exclusive or over the distinct values.
-/

namespace FuzzyInference

/-- A connective of memberships. -/
inductive Combinator (α : Type) where
  /-- conjunction by the smallest -/
  | min
  /-- disjunction by the largest; true of no operands at all -/
  | max
  | product
  | boundedSum
  | lukasiewiczAnd
  | lukasiewiczOr
  | einsteinProduct
  | einsteinSum
  | hamacherProduct
  | hamacherSum
  /-- a weighted mean of product and bounded sum -/
  | lambda (weight : α)
  /-- product and bounded sum, multiplied with weighted exponents -/
  | gamma (weight : α)
  /-- exclusive or -/
  | simpleDisjointSum
  deriving BEq, Repr

namespace Combinator

variable {α β : Type}

/-- The name in labels and messages. -/
def name : Combinator α → String
  | min => "MIN"
  | max => "MAX"
  | product => "product"
  | boundedSum => "bounded_sum"
  | lukasiewiczAnd => "lukasiewicz_and"
  | lukasiewiczOr => "lukasiewicz_or"
  | einsteinProduct => "einstein_product"
  | einsteinSum => "einstein_sum"
  | hamacherProduct => "hamacher_product"
  | hamacherSum => "hamacher_sum"
  | lambda _ => "lambda_op"
  | gamma _ => "gamma_op"
  | simpleDisjointSum => "simple_disjoint_sum"

/-- Changes the number type of the weight. -/
def map (f : α → β) : Combinator α → Combinator β
  | min => min
  | max => max
  | product => product
  | boundedSum => boundedSum
  | lukasiewiczAnd => lukasiewiczAnd
  | lukasiewiczOr => lukasiewiczOr
  | einsteinProduct => einsteinProduct
  | einsteinSum => einsteinSum
  | hamacherProduct => hamacherProduct
  | hamacherSum => hamacherSum
  | lambda weight => lambda (f weight)
  | gamma weight => gamma (f weight)
  | simpleDisjointSum => simpleDisjointSum

/-- The weight of a compensatory combinator. -/
def weight? : Combinator α → Option α
  | lambda weight | gamma weight => some weight
  | _ => none

/-- Whether the combinator has a value for no operands at all. -/
def allowsNone : Combinator α → Bool
  | max => true
  | _ => false

end Combinator

section

open Scalar

variable {α : Type} [Scalar α]

/-- The values of a list, each with the values at all other places. -/
def withOthers : List α → List (α × List α)
  | [] => []
  | x :: xs => (x, xs) :: (withOthers xs).map fun (y, others) => (y, x :: others)

/-- How far one value alone holds: it, and not any of the others. A value without others is held
    against itself. -/
def holdsAlone (x : α) (others : List α) : α :=
  match others with
  | [] => lesser x (1.0 - x)
  | y :: ys => lesser x (ys.foldl (fun least z => lesser least (1.0 - z)) (1.0 - y))

/-- Exclusive or: the best degree to which one of the distinct values holds alone. -/
def disjointSum (values : List α) : α :=
  match (withOthers (withoutRepeats (ascending values))).map fun (x, others) =>
      holdsAlone x others with
  | [] => 0.0
  | first :: rest => rest.foldl greater first

namespace Combinator

/-- Combines two memberships. -/
def pair (op : Combinator α) (u v : α) : α :=
  match op with
  | min => lesser u v
  | max => greater u v
  | product => u * v
  | boundedSum => u + v - u * v
  | lukasiewiczAnd => greater 0.0 (u + v - 1.0)
  | lukasiewiczOr => lesser 1.0 (u + v)
  | einsteinProduct => (u * v) / (2.0 - (u + v - u * v))
  | einsteinSum => (u + v) / (1.0 + u * v)
  | hamacherProduct => if u == 0.0 || v == 0.0 then 0.0 else (u * v) / (u + v - u * v)
  | hamacherSum => if u * v == 1.0 then 1.0 else (u + v - 2.0 * u * v) / (1.0 - u * v)
  | lambda w => w * (u * v) + (1.0 - w) * (u + v - u * v)
  | gamma w => pow (u * v) (1.0 - w) * pow (1.0 - (1.0 - u) * (1.0 - v)) w
  | simpleDisjointSum => disjointSum [u, v]

/-- The value for no operands: true for `max` and false for every other combinator. -/
def ofNone : Combinator α → α
  | max => 1.0
  | _ => 0.0

/-- Combines any number of memberships. -/
def reduce (op : Combinator α) (values : List α) : α :=
  match op, values with
  | simpleDisjointSum, values => disjointSum values
  | op, [] => op.ofNone
  | op, first :: rest => rest.foldl op.pair first

end Combinator

end

end FuzzyInference

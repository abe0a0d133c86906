import FuzzyInference.Scalar.Basic

/-!
# Distinct values in ascending order

Sorting by insertion from the right: a number moves left past the larger ones before it and stops at
the first that is not larger. Numbers that compare as equal keep their order.
-/

namespace FuzzyInference.Scalar

variable {α : Type} [Scalar α]

/-- Puts a number into a descending list, in front of the first one that is not larger. -/
def insertDescending (x : α) : List α → List α
  | [] => [x]
  | y :: ys => if x < y then y :: insertDescending x ys else x :: y :: ys

/-- The numbers from the smallest to the largest. -/
def ascending (xs : List α) : List α :=
  (xs.foldl (fun sorted x => insertDescending x sorted) []).reverse

/-- Drops every number that equals the one kept before it. -/
def withoutRepeats : List α → List α
  | [] => []
  | x :: xs => x :: go x xs
where
  go (last : α) : List α → List α
    | [] => []
    | x :: xs => if x == last then go last xs else x :: go x xs

end FuzzyInference.Scalar

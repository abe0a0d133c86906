import FuzzyInference.Scalar.Basic

/-!
# Defuzzification

Turns a sampled membership curve into one number.

## Contents
- `centroid`, `bisector`, `mom`, `som`, `lom`: the methods. A curve is a list of points and a list
  of memberships; where one is longer than the other its rest is left out.
- `Method`, `Method.apply`: the methods by name.
-/

namespace FuzzyInference

open Scalar

variable {α : Type} [Scalar α]

/-- The mean of the points, weighted by their memberships; `none` if these add up to 0. -/
def centroid (points membership : List α) : Option α :=
  let curve := points.zip membership
  let total := curve.foldl (fun total (_, m) => total + m) (0.0 : α)
  if total == 0.0 then none
  else some (curve.foldl (fun weighted (x, m) => weighted + x * m) 0.0 / total)

/-- The first point at which the area accumulated from `cumulative` on reaches `half`. -/
def firstReaching (step half : α) (cumulative : α) : List (α × α) → Option α
  | [] => none
  | (x, m) :: rest =>
    let cumulative := cumulative + m * step
    if half ≤ cumulative then some x else firstReaching step half cumulative rest

/-- The first point at which the accumulated area reaches half of the total, or else the last
    point. -/
def bisector (points membership : List α) (step : α) : Option α :=
  let total := membership.foldl (fun area m => area + m * step) 0.0
  (firstReaching step (total / (1.0 + 1.0)) 0.0 (points.zip membership)).or points.getLast?

/-- Memberships this close to the largest one count as largest. -/
def maximumTolerance : α := 1e-6

/-- The element that is left when a function picks one of two, from left to right. -/
@[inline] def pickBy (pick : α → α → α) : List α → Option α
  | [] => none
  | x :: xs => some (xs.foldl pick x)

/-- The points whose membership is largest. -/
def maximalPoints (points membership : List α) : List α :=
  match pickBy greater membership with
  | none => []
  | some maximum =>
    (points.zip membership).filterMap fun (x, m) =>
      if abs (m - maximum) < maximumTolerance then some x else none

/-- The mean of the points of largest membership. -/
def mom (points membership : List α) : Option α :=
  match maximalPoints points membership with
  | [] => none
  | maxima => some (maxima.foldl (· + ·) (0.0 : α) / maxima.foldl (fun count _ => count + 1.0) 0.0)

/-- The smallest of the points of largest membership. -/
def som (points membership : List α) : Option α :=
  pickBy lesser (maximalPoints points membership)

/-- The largest of the points of largest membership. -/
def lom (points membership : List α) : Option α :=
  pickBy greater (maximalPoints points membership)

/-- A way to defuzzify. -/
inductive Method where
  /-- center of gravity -/
  | cog
  /-- bisector of the area -/
  | bisector
  /-- mean of the maximum -/
  | mom
  /-- smallest of the maximum -/
  | som
  /-- largest of the maximum -/
  | lom
  deriving DecidableEq, Repr

namespace Method

/-- Without a choice the center of gravity is taken. -/
instance : Inhabited Method := ⟨cog⟩

/-- The name of a method. -/
def name : Method → String
  | cog => "cog"
  | bisector => "bisector"
  | mom => "mom"
  | som => "som"
  | lom => "lom"

/-- The method of a name. -/
def ofName? : String → Option Method
  | "cog" => some cog
  | "bisector" => some bisector
  | "mom" => some mom
  | "som" => some som
  | "lom" => some lom
  | _ => none

theorem ofName?_name (m : Method) : ofName? m.name = some m := by cases m <;> rfl

/-- Defuzzifies a sampled curve whose points are `step` apart. -/
def apply (method : Method) (points membership : List α) (step : α) : Option α :=
  match method with
  | cog => centroid points membership
  | bisector => FuzzyInference.bisector points membership step
  | mom => FuzzyInference.mom points membership
  | som => FuzzyInference.som points membership
  | lom => FuzzyInference.lom points membership

end Method

end FuzzyInference

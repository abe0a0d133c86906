import FuzzyInference.Membership.Validate
import FuzzyInference.Store.Derivation

/-!
# Comparing sets by their memberships

Sets are compared on their sample points, and so only while they can reach their domains. Equality
compares the sampled memberships of any two sets; the orderings compare two sets of one domain, on
the union of their sample points where a spike makes these differ in number.
-/

namespace FuzzyInference

open Scalar

/-- A relation between fuzzy sets. -/
inductive Relation where
  | equal
  | subset
  | properSubset
  | superset
  | properSuperset
  deriving DecidableEq, Repr

namespace Store

variable {α : Type} [Scalar α]

/-- The sampled memberships of two sets that can reach their domains. -/
def boundArrays (s t : SetId) : Action α (List α × List α) := do
  let store ← get
  if (store.domainOf? s).isNone || (store.domainOf? t).isNone then
    throw (.incomparable (store.label s) (store.label t))
  return (← array s, ← array t)

/-- Whether two sets have the same memberships, each on its own sample points. -/
def isEqualTo (s t : SetId) : Action α Bool := do
  let (a, b) ← boundArrays s t
  return a == b

/-- Whether a relation holds between the memberships of two sets of one domain at every sample
    point. -/
def holdsPointwise (holds : α → α → Bool) (s t : SetId) : Action α Bool := do
  let (a, b) ← boundArrays s t
  let store ← get
  Action.ofExcept (store.checkSameDomain s t)
  if a.length = b.length then return (a.zip b).all fun (u, v) => holds u v
  let points := (← Action.ofExcept (store.samplePoints s)) ++
    (← Action.ofExcept (store.samplePoints t))
  return points.all fun x => holds (store.call s x) (store.call t x)

/-- Whether two sets stand in a relation. -/
def compare (rel : Relation) (s t : SetId) : Action α Bool :=
  match rel with
  | .equal => isEqualTo s t
  | .subset => holdsPointwise (fun u v => decide (u ≤ v)) s t
  | .properSubset => holdsPointwise (fun u v => decide (u < v)) s t
  | .superset => holdsPointwise (fun u v => decide (v ≤ u)) s t
  | .properSuperset => holdsPointwise (fun u v => decide (v < u)) s t

end Store

end FuzzyInference

import FuzzyInference.Rule.Basic
import FuzzyInference.Store.Registry
import FuzzyInference.Store.Sampling

/-!
# Inference

A rule infers a value of its target domain from values of the domains that its antecedents are
bound to. A condition fires with the smallest membership among its antecedent, if that is above 0.
The fired consequents are then defuzzified: by the weighted mean of their centers of gravity, or by
a method on their clipped and joined curves.

## Contents
- `Inputs`: the values that are known.
- `firings`: which consequents fire, and how strongly. Each set is evaluated once.
- `meanCenter`, `aggregate`: the two ways to put the fired consequents together.
- `Rule.evaluate`.
-/

namespace FuzzyInference

open Scalar

/-- Values of domains; a domain has the value it was given last. -/
abbrev Inputs (α : Type) := OrderedMap DomainId α

/-- Memberships of sets that were found before. -/
abbrev Memo (α : Type) := OrderedMap SetId α

variable {α : Type} [Scalar α]

/-- The membership in a set of the value that the inputs have for the set's domain. -/
def inputMembership (store : Store α) (inputs : Inputs α) (s : SetId) :
    Except (FuzzyError α) α := do
  match store.domainOf? s with
  | none => throw (.unboundAntecedent (store.label s))
  | some d =>
    match inputs.get? d with
    | none => throw (.noInput (store.domainAt d).name)
    | some x =>
      (store.domainAt d).checkRange x
      return store.call s x

/-- The membership of the inputs in a set, from the memo if it is there. -/
def remembered (store : Store α) (inputs : Inputs α) (memo : Memo α) (s : SetId) :
    Except (FuzzyError α) (α × Memo α) := do
  match memo.get? s with
  | some m => return (m, memo)
  | none =>
    let m ← inputMembership store inputs s
    return (m, memo.insert s m)

/-- The smallest membership among some sets and `least`, the smallest before; `none` while there is
    none. -/
def weakest (store : Store α) (inputs : Inputs α) (least : Option α) (memo : Memo α) :
    List SetId → Except (FuzzyError α) (Option α × Memo α)
  | [] => return (least, memo)
  | s :: sets => do
    let (m, memo) ← remembered store inputs memo s
    weakest store inputs (some (least.elim m fun u => lesser u m)) memo sets

/-- The consequents that fire, with their strengths, in the order of their conditions. The sets of an
    antecedent are evaluated in the order in which they lie in memory, up to the first failure. An
    antecedent without sets does not fire. -/
def firingsFrom (store : Store α) (inputs : Inputs α) (memo : Memo α) :
    List (Antecedent × SetId) → Except (FuzzyError α) (List (SetId × α))
  | [] => return []
  | (antecedent, consequent) :: conditions => do
    let (strength, memo) ← weakest store inputs none memo (antecedent.visited store)
    let strength := strength.getD 0.0
    let later ← firingsFrom store inputs memo conditions
    return if (0.0 : α) < strength then (consequent, strength) :: later else later

/-- The consequents of a rule that fire. -/
def firings (store : Store α) (inputs : Inputs α) (rule : Rule) :
    Except (FuzzyError α) (List (SetId × α)) :=
  firingsFrom store inputs .empty rule.conditions.entries

/-- The weighted sum of centers of gravity, added to `total`. -/
def weightedCenters (total : α) : List (SetId × α) → Action α α
  | [] => return total
  | (s, weight) :: rest => do
    let center ← Store.centerOfGravity s
    weightedCenters (total + center * weight) rest

/-- The mean of the centers of gravity of some sets, weighted. -/
def meanCenter (weighted : List (SetId × α)) : Action α α := do
  let total := sum (weighted.map Prod.snd)
  if total == 0.0 then throw .zeroWeight
  return (← weightedCenters 0.0 weighted) / total

/-- The joined curve: at every point the largest membership among the sets, each clipped at its
    weight, and at least 0. -/
def aggregate (store : Store α) (points : List α) (weighted : List (SetId × α)) : List α :=
  points.map fun x =>
    (weighted.map fun (s, weight) => lesser weight (store.call s x)).foldl greater 0.0

/-- The value inferred from the fired consequents of a domain. -/
def defuzzify (method : Method) (d : DomainId) (fired : List (SetId × α)) : Action α α := do
  match method with
  | .cog => meanCenter fired
  | method =>
    let store ← get
    let target := store.domainAt d
    let points := target.range
    match method.apply points (aggregate store points fired) target.step with
    | some x => return x
    | none => throw (.noCurve target.name)

/-- The value that a rule infers from inputs; `none` if it has no conditions or none of them fires.
    -/
def Rule.evaluate (rule : Rule) (inputs : Inputs α) (method : Method) : Action α (Option α) := do
  let store ← get
  match ← Action.ofExcept (rule.target? store) with
  | none => return none
  | some d =>
    match ← Action.ofExcept (firings store inputs rule) with
    | [] => return none
    | fired => return some (← defuzzify method d fired)

end FuzzyInference

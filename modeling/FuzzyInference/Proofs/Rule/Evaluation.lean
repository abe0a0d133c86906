import FuzzyInference.Proofs.Store.Sampling
import FuzzyInference.Rule.Inference

/-!
# What inference answers

The cases of `Rule.evaluate`, each as an equation: the target is found at the first consequent, then
the conditions are evaluated, then what fired is defuzzified. Only the center of gravity can write to
the store; the methods on curves answer from the store as it is.

## Contents
- `target?_of_empty`, `target?_of_reached`, `target?_of_unreached`.
- `meanCenter_of_zero`, `meanCenter_of_total`, `curveOf`, `defuzzify_curve`, `defuzzify_cog`.
- `evaluate_of_error`, `evaluate_of_target`.
-/

namespace FuzzyInference

open Scalar

variable {α : Type} [Scalar α]

/-! ## The target -/

namespace Rule

/-- A rule without consequents has no target domain. -/
theorem target?_of_empty {rule : Rule} (store : Store α) (h : rule.consequents = []) :
    rule.target? store = .ok none := by
  unfold target?
  rw [h]

/-- The target is the domain that the first consequent reaches. -/
theorem target?_of_reached {rule : Rule} {store : Store α} {first : SetId} {rest : List SetId}
    {d : DomainId} (h : rule.consequents = first :: rest) (hd : store.domainOf? first = some d) :
    rule.target? store = .ok (some d) := by
  unfold target?
  rw [h]
  dsimp only
  rw [hd]

/-- A first consequent without a living domain is an error that names it. -/
theorem target?_of_unreached {rule : Rule} {store : Store α} {first : SetId} {rest : List SetId}
    (h : rule.consequents = first :: rest) (hd : store.domainOf? first = none) :
    rule.target? store = .error (.unboundConsequent (store.label first)) := by
  unfold target?
  rw [h]
  dsimp only
  rw [hd]

end Rule

/-! ## Defuzzifying -/

/-- The joined curve of some fired consequents over a domain, defuzzified. -/
def curveOf (store : Store α) (method : Method) (d : DomainId) (fired : List (SetId × α)) :
    Option α :=
  method.apply (store.domainAt d).range (aggregate store (store.domainAt d).range fired)
    (store.domainAt d).step

/-- Weights that add up to 0 are refused before any center is asked for. -/
theorem meanCenter_of_zero {weighted : List (SetId × α)}
    (h : (sum (weighted.map Prod.snd) == 0.0) = true) (store : Store α) :
    meanCenter weighted store = (.error .zeroWeight, store) := by
  unfold meanCenter
  rw [if_pos h]
  rfl

/-- Weights with another sum divide the weighted sum of the centers. -/
theorem meanCenter_of_total {weighted : List (SetId × α)}
    (h : (sum (weighted.map Prod.snd) == 0.0) = false) (store : Store α) :
    meanCenter weighted store = (weightedCenters 0.0 weighted >>= fun r =>
      pure (r / sum (weighted.map Prod.snd)) : Action α α) store := by
  unfold meanCenter
  rw [if_neg (by simp [h])]

/-- The center method takes the mean of the fired sets' centers. -/
theorem defuzzify_cog (d : DomainId) (fired : List (SetId × α)) (store : Store α) :
    defuzzify .cog d fired store = meanCenter fired store := rfl

/-- Every other method picks a point of the joined curve, and fails if there is none to pick. -/
theorem defuzzify_curve {method : Method} (h : method ≠ .cog) (d : DomainId)
    (fired : List (SetId × α)) (store : Store α) :
    defuzzify method d fired store =
      (match curveOf store method d fired with
        | some x => .ok x
        | none => .error (.noCurve (store.domainAt d).name), store) := by
  cases method with
  | cog => exact absurd rfl h
  | _ =>
    refine (Action.bind_of_ok (Action.get_apply store)).trans ?_
    unfold curveOf
    cases Method.apply _ _ _ (store.domainAt d).step with
    | none => rfl
    | some x => rfl

/-! ## Evaluating -/

namespace Rule

variable {rule : Rule} {inputs : Inputs α} {method : Method} {store : Store α}

/-- Without a target, evaluation ends before any input is looked at. -/
theorem evaluate_of_error {e : FuzzyError α} (h : rule.target? store = .error e) :
    rule.evaluate inputs method store = (.error e, store) := by
  unfold evaluate
  rw [Action.bind_of_ok (Action.get_apply store)]
  exact Action.bind_of_error (by rw [h]; rfl)

/-- With the target settled, the rule fires and what fired is defuzzified. -/
theorem evaluate_of_target {t : Option DomainId} (h : rule.target? store = .ok t) :
    rule.evaluate inputs method store =
      match t with
      | none => (.ok none, store)
      | some d =>
        match firings store inputs rule with
        | .error e => (.error e, store)
        | .ok [] => (.ok none, store)
        | .ok fired => (defuzzify method d fired >>= fun x => pure (some x)) store := by
  unfold evaluate
  have htarget : (Action.ofExcept (rule.target? store) : Action α _) store = (.ok t, store) := by
    rw [h]
    rfl
  rw [Action.bind_of_ok (Action.get_apply store)]
  refine (Action.bind_of_ok htarget).trans ?_
  cases t with
  | none => rfl
  | some d =>
    dsimp only
    rw [Action.bind_apply, Action.ofExcept_apply]
    rcases firings store inputs rule with e | ⟨_ | ⟨entry, rest⟩⟩
    · rfl
    · rfl
    · rfl

end Rule

end FuzzyInference

import FuzzyInference.Proofs.Rule.Meaning

/-!
# Inference fails for its inputs only

Defuzzifying has two ways to fail: weights that add up to zero, and a curve without a largest point. Neither
occurs in a rule whose consequents share a living target. What is averaged has fired, so that its weights are
positive, and the consequents have centers of gravity since they reach the target. A curve is taken over the
points of a domain, of which there are always some, and is made of finite numbers where the weights are
finite, since the larger and the smaller of two numbers let no NaN through. What is left to fail is telling
the memberships of the inputs.

## Contents
- `inputMembership_kind`, `firings_kind`: how evaluating a condition fails.
- `settled_answers`: what fired is always defuzzified.
- `evaluate_of_firings_error`, `evaluate_defuzzifies`: the two outcomes of inference.
-/

namespace FuzzyInference

open Scalar

section Kinds

variable {α : Type} [Scalar α] {store : Store α} {inputs : Inputs α} {rule : Rule} {e : FuzzyError α}

/-- A missing input, an unbound set and a value out of range are not failures to defuzzify. -/
theorem inputMembership_kind {s : SetId} (h : inputMembership store inputs s = .error e) :
    e.kind ≠ .defuzzification := by
  intro hkind
  cases hd : store.domainOf? s with
  | none =>
    rw [inputMembership_of_unreached hd] at h
    cases h
    cases hkind
  | some d =>
    cases hx : inputs.get? d with
    | none =>
      rw [inputMembership_of_missing hd hx] at h
      cases h
      cases hkind
    | some x =>
      rw [inputMembership_of_input hd hx, Domain.checkRange, ensure] at h
      split at h
      · cases h
      · cases h
        cases hkind

theorem firings_kind (h : firings store inputs rule = .error e) : e.kind ≠ .defuzzification := by
  obtain ⟨-, s, -, -, -, hs⟩ := firings_eq_error_iff.mp h
  exact inputMembership_kind hs

end Kinds

namespace Rule

/-- A failure to evaluate the conditions is the failure of inference. -/
theorem evaluate_of_firings_error {α : Type} [Scalar α] {store : Store α} {rule : Rule} {d : DomainId}
    (htarget : ∀ s ∈ rule.consequents, store.domainOf? s = some d) {inputs : Inputs α} {e : FuzzyError α}
    (h : firings store inputs rule = .error e) (method : Method) :
    (rule.evaluate inputs method store).1 = .error e := by
  cases hc : rule.consequents with
  | nil =>
    -- a rule without conditions has nothing to evaluate
    have hentries : rule.conditions.entries = [] := List.map_eq_nil_iff.mp hc
    rw [firings_eq, hentries] at h
    cases h
  | cons first rest =>
    have hfirst : store.domainOf? first = some d := htarget first (by simp [hc])
    rw [evaluate_of_target (target?_of_reached hc hfirst), h]

variable {store : Store Float} {rule : Rule} {inputs : Inputs Float} {d : DomainId} {method : Method}

/-- **What fired is always defuzzified.** -/
theorem settled_answers {fired : List (SetId × Float)} (hstore : Store.Reachable store)
    (hreached : ∀ e ∈ fired, store.domainOf? e.1 = some d) (hpos : ∀ e ∈ fired, (0.0 : Float) < e.2)
    (hfinite : method ≠ .cog → ∀ e ∈ fired, isFinite e.2 = true) :
    ∃ answer?, settled method d store fired = some answer? ∧ (answer? = none ↔ fired = []) := by
  cases hne : fired with
  | nil => exact ⟨none, rfl, by simp⟩
  | cons first rest =>
    rw [← hne]
    have hnil : fired ≠ [] := by simp [hne]
    by_cases hmethod : method = .cog
    · subst hmethod
      exact ⟨_, settled_cog hstore.coherent hnil hreached hpos, by simp [hnil]⟩
    · have hd : store.HasDomain d := Store.hasDomain_of_domainOf? (hreached first (by simp [hne]))
      obtain ⟨v, hv, -⟩ := settled_eq hstore hd hnil hreached hpos (hfinite hmethod) method
      exact ⟨some v, hv, by simp [hnil]⟩

/-- **Defuzzifying does not fail inside a rule.** In every run, let the consequents of a rule share a living
    target. Their centers of gravity can be computed. Let the strengths with which conditions fire be finite,
    unless the centers of gravity are asked for; the memberships of the consequents may be anything, NaN
    included. Then inference has an answer wherever the conditions can be evaluated, and one that is not
    nothing if something fires. Otherwise it fails for what keeps them from being evaluated, which is never
    that something could not be defuzzified. -/
theorem evaluate_defuzzifies (hstore : Store.Reachable store)
    (htarget : ∀ s ∈ rule.consequents, store.domainOf? s = some d)
    (hfinite : method ≠ .cog → ∀ fired, firings store inputs rule = .ok fired →
      ∀ e ∈ fired, isFinite e.2 = true) :
    (∀ s ∈ rule.consequents, ∃ c, (Store.centerOfGravity s store).1 = .ok c) ∧
    (∀ e, (rule.evaluate inputs method store).1 = .error e →
      e.kind ≠ .defuzzification ∧ firings store inputs rule = .error e) ∧
    ∀ fired, firings store inputs rule = .ok fired →
      ∃ answer?, (rule.evaluate inputs method store).1 = .ok answer? ∧ (answer? = none ↔ fired = []) := by
  have hanswers : ∀ fired, firings store inputs rule = .ok fired →
      ∃ answer?, (rule.evaluate inputs method store).1 = .ok answer? ∧ (answer? = none ↔ fired = []) := by
    intro fired hfired
    obtain ⟨answer?, hsettled, hnone⟩ := settled_answers hstore
      (fun e he => htarget e.1 (fired_of_firings hfired he).1)
      (fun e he => (fired_of_firings hfired he).2) fun hmethod => hfinite hmethod fired hfired
    have houtcome := toOption_evaluate htarget inputs method
    rw [hfired] at houtcome
    exact ⟨answer?, outcome_of_toOption (houtcome.trans hsettled), hnone⟩
  refine ⟨fun s hs => ⟨_, Store.centerOfGravity_of_coherent hstore.coherent (htarget s hs)⟩,
    fun e he => ?_, hanswers⟩
  cases hfired : firings store inputs rule with
  | ok fired =>
    obtain ⟨answer?, hanswer, -⟩ := hanswers fired hfired
    cases he.symm.trans hanswer
  | error cause =>
    obtain rfl : e = cause := Except.error.inj (he.symm.trans (evaluate_of_firings_error htarget hfired method))
    exact ⟨firings_kind hfired, rfl⟩

/-- A target so far out that the slope of its one set, over a range that is twice as wide, is NaN there. -/
def undefinedConsequent : Store Float := Store.empty.runAll [
  .newDomain "x" 0 10 none, .newDomain "t" 9e307 1e308 (some 1e306),
  .registerFunction ⟨0⟩ "growing" (.shape (.rising 0 10)),
  .registerFunction ⟨1⟩ "undefined" (.shape (.piecewise [(-1e308, 0), (1e308, 1)]))]

/-- The set of the input to the set that is NaN. -/
def toUndefined : Rule := ⟨.ofList [(.ofList [⟨0⟩], ⟨1⟩)]⟩

/-- A consequent whose memberships are all NaN still gives a value under every method. -/
theorem evaluate_defuzzifies_undefined :
    Store.Reachable undefinedConsequent ∧
      (∀ s ∈ toUndefined.consequents, undefinedConsequent.domainOf? s = some ⟨1⟩) ∧
      (∀ x ∈ (undefinedConsequent.domainAt ⟨1⟩).range, isNaN (undefinedConsequent.call ⟨1⟩ x) = true) ∧
      firings undefinedConsequent (.ofList [(⟨0⟩, 5)]) toUndefined = .ok [(⟨1⟩, 0.5)] ∧
      ∀ method, ∃ v, (toUndefined.evaluate (.ofList [(⟨0⟩, 5)]) method undefinedConsequent).1 = .ok (some v) := by
  have hrun : Store.Reachable undefinedConsequent := Store.reachable_runAll (by decide +kernel)
  have htarget : ∀ s ∈ toUndefined.consequents, undefinedConsequent.domainOf? s = some ⟨1⟩ := by
    decide +kernel
  have hfired : firings undefinedConsequent (.ofList [(⟨0⟩, 5)]) toUndefined = .ok [(⟨1⟩, 0.5)] :=
    outcome_of_toOption (by decide +kernel)
  refine ⟨hrun, htarget, by decide +kernel, hfired, fun method => ?_⟩
  have hfinite : method ≠ .cog → ∀ fired,
      firings undefinedConsequent (.ofList [(⟨0⟩, 5)]) toUndefined = .ok fired →
        ∀ e ∈ fired, isFinite e.2 = true := by
    rintro - fired h
    cases hfired.symm.trans h
    decide +kernel
  obtain ⟨-, -, hanswer⟩ := evaluate_defuzzifies hrun htarget hfinite
  obtain ⟨answer?, houtcome, hnone⟩ := hanswer _ hfired
  obtain ⟨v, rfl⟩ := Option.ne_none_iff_exists'.mp fun h => List.cons_ne_nil _ _ (hnone.mp h)
  exact ⟨v, houtcome⟩

end Rule

end FuzzyInference

import FuzzyInference.Proofs.Rule.Firing
import FuzzyInference.Proofs.Store.Operation
import FuzzyInference.Scalar.Machine

/-!
# When inference finds a domain mismatch

A rule is meant to conclude to one living domain. That its consequents fit is checked when the rule is
made; sets can be bound and domains can go between then and an inference, which looks at the first
consequent only. So an inference fails with a domain mismatch in three cases and in no others: the first
consequent reaches no domain; the first set of an antecedent that cannot be evaluated reaches none; or
the center of gravity of a fired consequent is asked for that is not known and reaches none.

A rule whose consequents still fit as they did when it was made is told apart in the first case.

## Contents
- `checkTargets_eq_ok_iff`, `Misdirected`: consequents that fit, and those that do not.
- `weightedCenters_mismatch_iff`, `meanCenter_mismatch_iff`.
- `evaluate_mismatch_iff`: the three cases.
- `infers_across_domains`: a run with an inferred value between two domains.
-/

namespace FuzzyInference

open Scalar

variable {α : Type} [Scalar α]

/-- The outcome is a failure for want of a common or a living domain. -/
def IsMismatch {β : Type} (outcome : Except (FuzzyError α) β) : Prop :=
  ∃ e, outcome = .error e ∧ e.kind = .domainMismatch

omit [Scalar α] in
theorem isMismatch_ok {β : Type} (b : β) : ¬ IsMismatch (.ok b : Except (FuzzyError α) β) := by
  rintro ⟨e, h, -⟩
  cases h

omit [Scalar α] in
theorem isMismatch_error {β : Type} {e : FuzzyError α} :
    IsMismatch (.error e : Except (FuzzyError α) β) ↔ e.kind = .domainMismatch := by
  constructor
  · rintro ⟨f, h, hkind⟩
    cases h
    exact hkind
  · intro h
    exact ⟨e, rfl, h⟩

omit [Scalar α] in
/-- What is made of a result afterwards does not matter to the failure. -/
theorem isMismatch_bind_pure {β γ : Type} (act : Action α β) (f : β → γ) (store : Store α) :
    IsMismatch ((act >>= fun b => pure (f b)) store).1 ↔ IsMismatch (act store).1 := by
  rcases h : act store with ⟨e | b, later⟩
  · rw [Action.bind_of_error h, isMismatch_error, isMismatch_error]
  · rw [Action.bind_of_ok h]
    exact iff_of_false (isMismatch_ok _) (isMismatch_ok _)

/-! ## Consequents that fit -/

namespace Rule

/-- A consequent reaches no domain, or two reach different ones. -/
def Misdirected (store : Store α) (rule : Rule) : Prop :=
  (∃ s ∈ rule.consequents, store.domainOf? s = none) ∨
    ∃ s ∈ rule.consequents, ∃ t ∈ rule.consequents, store.domainOf? s ≠ store.domainOf? t

/-- The check compares consequents with one another, unbound ones included. -/
theorem checkTargets_eq_ok_iff {store : Store α} {rule : Rule} :
    rule.checkTargets store = .ok () ↔
      ∀ s ∈ rule.consequents, ∀ t ∈ rule.consequents, store.domainOf? s = store.domainOf? t := by
  unfold checkTargets
  cases rule.consequents with
  | nil => simp
  | cons first rest =>
    dsimp only
    cases hf : rest.find? fun other => store.domainOf? other ≠ store.domainOf? first with
    | some other =>
      have hother : store.domainOf? other ≠ store.domainOf? first := by
        simpa using List.find?_some hf
      refine iff_of_false (fun h => (by cases h)) (fun h => hother ?_)
      exact h other (List.mem_cons_of_mem _ (List.mem_of_find?_eq_some hf)) first
        (List.mem_cons_self ..)
    | none =>
      have hsame : ∀ s ∈ first :: rest, store.domainOf? s = store.domainOf? first := by
        intro s hs
        rcases List.mem_cons.mp hs with rfl | hs
        · rfl
        · simpa using List.find?_eq_none.mp hf s hs
      exact iff_of_true rfl fun s hs t ht => (hsame s hs).trans (hsame t ht).symm

end Rule

/-! ## The center of gravity of what fired -/

/-- Keeping the center of a set that could be measured leaves the same sets unmeasured. -/
theorem unmeasured_iff_of_keeps {store later : Store α} {s : SetId} {c : α}
    (hs : ¬ store.Unmeasured s) (hc : (later.setAt s).center? = some c)
    (hframed : Store.Framed store later) (hrest : ∀ t, t ≠ s → later.setAt t = store.setAt t)
    (t : SetId) : later.Unmeasured t ↔ store.Unmeasured t := by
  by_cases hts : t = s
  · subst hts
    exact iff_of_false (fun h => by rw [h.1] at hc; cases hc) hs
  · unfold Store.Unmeasured
    rw [hrest t hts, hframed.domainOf? t]

/-- A weighted sum of centers fails for want of a domain exactly at an unmeasured set. The induction
is on the sets, each step keeping one center. -/
theorem weightedCenters_mismatch_iff {weighted : List (SetId × α)} {total : α} {store : Store α} :
    IsMismatch (weightedCenters total weighted store).1 ↔
      ∃ s ∈ weighted.map Prod.fst, store.Unmeasured s := by
  induction weighted generalizing total store with
  | nil => exact iff_of_false (isMismatch_ok _) (by simp)
  | cons entry rest ih =>
    obtain ⟨s, weight⟩ := entry
    rw [weightedCenters, List.map_cons]
    by_cases hs : store.Unmeasured s
    · rw [Action.bind_of_error (Store.centerOfGravity_of_unmeasured hs)]
      exact iff_of_true (isMismatch_error.mpr rfl) ⟨s, List.mem_cons_self .., hs⟩
    · -- measuring this one leaves the others as they are
      obtain ⟨c, later, hcenter, hc, hframed, hrest⟩ := Store.centerOfGravity_keeps hs
      rw [Action.bind_of_ok hcenter, ih]
      simp only [unmeasured_iff_of_keeps hs hc hframed hrest, List.mem_cons, exists_eq_or_imp, hs,
        false_or]

/-- The mean does so only when its weights do not add up to 0, which is looked at first. -/
theorem meanCenter_mismatch_iff {weighted : List (SetId × α)} {store : Store α} :
    IsMismatch (meanCenter weighted store).1 ↔
      (sum (weighted.map Prod.snd) == 0.0) = false ∧
        ∃ s ∈ weighted.map Prod.fst, store.Unmeasured s := by
  cases hzero : sum (weighted.map Prod.snd) == 0.0 with
  | true =>
    rw [meanCenter_of_zero hzero]
    refine iff_of_false (fun h => ?_) (by simp)
    cases isMismatch_error.mp h
  | false =>
    rw [meanCenter_of_total hzero, isMismatch_bind_pure, weightedCenters_mismatch_iff]
    exact (and_iff_right rfl).symm

/-! ## Inference -/

namespace Rule

/-- Among the sets of the antecedents the first one that cannot be evaluated reaches no domain. -/
def LacksAntecedent (store : Store α) (inputs : Inputs α) (rule : Rule) : Prop :=
  ∃ before s after, rule.visited store = before ++ s :: after ∧
    (∀ t ∈ before, Given store inputs t) ∧ store.domainOf? s = none

/-- The center of a fired consequent is asked for, is not known, and cannot be found. -/
def LacksCenter (store : Store α) (inputs : Inputs α) (rule : Rule) : Prop :=
  ∃ fired, firings store inputs rule = .ok fired ∧
    (sum (fired.map Prod.snd) == 0.0) = false ∧ ∃ s ∈ fired.map Prod.fst, store.Unmeasured s

/-- Of the methods, only the center one can fail that way. -/
theorem isMismatch_defuzzify {method : Method} {d : DomainId} {fired : List (SetId × α)}
    {store : Store α} :
    IsMismatch (defuzzify method d fired store).1 ↔ method = .cog ∧
      (sum (fired.map Prod.snd) == 0.0) = false ∧ ∃ s ∈ fired.map Prod.fst, store.Unmeasured s := by
  by_cases hm : method = .cog
  · subst hm
    rw [defuzzify_cog, meanCenter_mismatch_iff]
    exact (and_iff_right rfl).symm
  · rw [defuzzify_curve hm]
    refine iff_of_false ?_ (fun h => hm h.1)
    cases curveOf store method d fired with
    | some x => exact isMismatch_ok x
    | none =>
      intro h
      cases isMismatch_error.mp h

/-- With its target settled, a rule fails that way at an antecedent or at a center. -/
theorem isMismatch_evaluate_of_target {rule : Rule} {store : Store α} {inputs : Inputs α}
    {method : Method} {d : DomainId} (h : rule.target? store = .ok (some d)) :
    IsMismatch (rule.evaluate inputs method store).1 ↔
      rule.LacksAntecedent store inputs ∨ method = .cog ∧ rule.LacksCenter store inputs := by
  rw [evaluate_of_target h]
  unfold LacksAntecedent LacksCenter
  rw [← firings_mismatch_iff]
  cases hfirings : firings store inputs rule with
  | error e =>
    show IsMismatch (.error e : Except (FuzzyError α) (Option α)) ↔ _
    rw [isMismatch_error]
    simp
  | ok fired =>
    have hfires : ¬ ∃ e, (.ok fired : Except (FuzzyError α) _) = .error e ∧
        e.kind = .domainMismatch := isMismatch_ok fired
    rw [or_iff_right hfires]
    simp only [Except.ok.injEq, exists_eq_left']
    cases fired with
    | nil => exact iff_of_false (isMismatch_ok _) (by simp)
    | cons entry rest =>
      show IsMismatch ((defuzzify method d (entry :: rest) >>= fun x => pure (some x)) store).1 ↔ _
      rw [isMismatch_bind_pure, isMismatch_defuzzify]

/-- **When inference fails with a domain mismatch.** Of the consequents only the first one is looked
    at, and the centers of those that fired. So a consequent without a domain, or with another one,
    goes unnoticed in all other cases; where the consequents fit as they did when the rule was made,
    none does. -/
theorem evaluate_mismatch_iff (rule : Rule) (inputs : Inputs α) (method : Method)
    (store : Store α) :
    (IsMismatch (rule.evaluate inputs method store).1 ↔
      ∃ first rest, rule.consequents = first :: rest ∧
        (store.domainOf? first = none ∨ rule.LacksAntecedent store inputs ∨
          method = .cog ∧ rule.LacksCenter store inputs)) ∧
    (rule.checkTargets store = .ok () → rule.Misdirected store →
      IsMismatch (rule.evaluate inputs method store).1) := by
  have hiff : IsMismatch (rule.evaluate inputs method store).1 ↔
      ∃ first rest, rule.consequents = first :: rest ∧
        (store.domainOf? first = none ∨ rule.LacksAntecedent store inputs ∨
          method = .cog ∧ rule.LacksCenter store inputs) := by
    cases hc : rule.consequents with
    | nil =>
      rw [evaluate_of_target (target?_of_empty store hc)]
      exact iff_of_false (isMismatch_ok _) (by simp)
    | cons first rest =>
      simp only [List.cons.injEq, exists_and_left, exists_eq_left', and_assoc]
      cases hd : store.domainOf? first with
      | none =>
        rw [evaluate_of_error (target?_of_unreached hc hd)]
        exact iff_of_true (isMismatch_error.mpr rfl) (by simp)
      | some d =>
        rw [isMismatch_evaluate_of_target (target?_of_reached hc hd)]
        simp
  refine ⟨hiff, fun hcheck hmis => hiff.mpr ?_⟩
  -- where all consequents are alike, the first one shows what is wrong with any of them
  have hsame := checkTargets_eq_ok_iff.mp hcheck
  rcases hmis with ⟨s, hs, hnone⟩ | ⟨s, hs, t, ht, hne⟩
  · cases hc : rule.consequents with
    | nil =>
      rw [hc] at hs
      cases hs
    | cons first rest =>
      have hfirst : first ∈ rule.consequents := by rw [hc]; exact List.mem_cons_self ..
      exact ⟨first, rest, rfl, Or.inl ((hsame first hfirst s hs).trans hnone)⟩
  · exact absurd (hsame s hs t ht) hne

/-! ## An inference across two domains -/

/-- Two domains to conclude to, and two consequents that are not bound yet. -/
def unboundTargets : List (Operation Float) := [
  .newDomain "x" 0 10 none, .newDomain "t" 0 10 (some 5),
  .newDomain "u" 100 110 (some 5),
  .registerFunction ⟨0⟩ "any" (.shape (.constant 1)),
  .registerFunction ⟨0⟩ "full" (.shape (.constant 1)),
  .newSet (.shape (.constant 1)), .newSet (.shape (.constant 1))]

/-- The store in which the rule is made. -/
def beforeBinding : Store Float := Store.empty.runAll unboundTargets

/-- The store in which the rule is evaluated: its consequents are bound to different domains. -/
def afterBinding : Store Float := beforeBinding.runAll [.bind ⟨2⟩ ⟨1⟩, .bind ⟨3⟩ ⟨2⟩]

/-- A rule with two conditions, each from one set to another. -/
def twoTargets : Rule :=
  ⟨.ofList [(.ofList [⟨0⟩], ⟨2⟩), (.ofList [⟨1⟩], ⟨3⟩)]⟩

set_option maxRecDepth 8192 in
/-- **A value between two domains.** The rule is accepted, its consequents are then bound to `[0, 10]`
    and to `[100, 110]`, and 55 is inferred, which lies in neither. -/
theorem infers_across_domains :
    Store.Reachable beforeBinding ∧
    Rule.ofConditions beforeBinding [([⟨0⟩], ⟨2⟩), ([⟨1⟩], ⟨3⟩)] = .ok twoTargets ∧
    Store.Steps beforeBinding afterBinding ∧ twoTargets.Misdirected afterBinding ∧
    (twoTargets.evaluate (.ofList [(⟨0⟩, 5)]) .cog afterBinding).1 = .ok (some 55) := by
  have hcheck : twoTargets.checkTargets beforeBinding = .ok () :=
    checkTargets_eq_ok_iff.mpr (by decide)
  refine ⟨Store.reachable_runAll (by decide +kernel), check_bind_eq_ok_iff.mpr ⟨hcheck, rfl⟩,
    Store.steps_runAll (by decide +kernel), ?_, rfl⟩
  exact Or.inr ⟨⟨2⟩, by decide, ⟨3⟩, by decide, by decide⟩

end Rule

end FuzzyInference

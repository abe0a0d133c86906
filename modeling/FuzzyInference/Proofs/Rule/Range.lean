import FuzzyInference.Proofs.Defuzzify
import FuzzyInference.Proofs.Grid
import FuzzyInference.Proofs.Rule.Firing
import FuzzyInference.Proofs.Store.Coherence

/-!
# Where inferred values lie

A rule infers a value of its target domain, read in exact arithmetic. The methods on curves pick or
average points of the grid. The center of gravity averages the centers of the fired consequents, each of
which is the centroid of its own curve and so lies in the domain, but for two answers given by
definition: a singleton has its center at its spike, wherever that is, and a set that is zero on all its
sample points has it at 0. With these in the domain, or in a wider interval, so is the inferred value.

## Contents
- `SpecialCenter`: the centers given by definition.
- `center_mem`: where a center lies. `weightedCenters_mem`, `meanCenter_mem`: and their mean.
- `curve_mem`: what the methods on curves answer.
- `evaluate_mem`: the result for a rule, run on `spikeAndGap`.
- `inferred_outside_target`: an inference outside the target.
-/

set_option linter.unusedSectionVars false

namespace FuzzyInference

open Scalar

variable {K : Type} [Field K] [LinearOrder K] [IsStrictOrderedRing K] [FloorRing K] [Elementary K]

/-! ## Centers of gravity -/

namespace Store

/-- The center is the spike of the set, or 0 since the set is zero at all points of the domain. -/
def SpecialCenter (store : Store K) (d : DomainId) (s : SetId) (c : K) : Prop :=
  (store.setAt s).func.spike? = some c ∨
    (store.setAt s).func.spike? = none ∧ (∀ x ∈ (store.domainAt d).grid.points, store.call s x = 0) ∧
      c = 0

/-- A center given by definition is the spike, or else 0. -/
theorem SpecialCenter.eq_getD {store : Store K} {d : DomainId} {s : SetId} {c : K}
    (h : store.SpecialCenter d s c) : c = ((store.setAt s).func.spike?).getD 0 := by
  rcases h with h | ⟨h, -, rfl⟩
  · rw [h]
    rfl
  · rw [h]
    rfl

/-- The bounds of a domain are in order. -/
theorem Made.low_lt_high {store : Store K} {d : DomainId} (h : store.Made d) :
    (store.domainAt d).grid.low < (store.domainAt d).grid.high := by
  obtain ⟨domain, hmake, -⟩ := h
  have hbounds := (Domain.make_eq_ok_iff.mp hmake).2.1
  simp only [Bool.and_eq_true] at hbounds
  exact of_decide_eq_true hbounds.2

theorem pointsOf_of_no_spike {grid : Grid K} {func : Membership K} (h : func.spike? = none) :
    pointsOf grid func = grid.points := by
  unfold pointsOf
  rw [h]

/-- A center of gravity lies between the bounds of the domain or is given by definition. -/
theorem center_mem {store later : Store K} (hstore : Reachable store) (hlater : Changes store later)
    {s : SetId} {d : DomainId} (hs : store.domainOf? s = some d)
    (hnonneg : ∀ x, 0 ≤ store.call s x) {c : K} (hc : (later.setAt s).center? = some c) :
    ((store.domainAt d).grid.low ≤ c ∧ c ≤ (store.domainAt d).grid.high) ∨
      store.SpecialCenter d s c := by
  have hext := hlater.extends
  have hset := hasSet_of_domainOf? hs
  have hdomain := hasDomain_of_domainOf? hs
  have hfunc := hext.func hset
  have hgrid := hext.grid hdomain
  -- the later store says what was kept, and has the function and the grid of the first one
  rcases (hlater.coherent hstore.coherent).center s c hc with hspike | ⟨hspike, e, he, -, hcentroid⟩
  · rw [hfunc] at hspike
    exact Or.inr (Or.inl hspike)
  · obtain rfl : d = e :=
      Option.some.inj ((hext.bound (domainOf?_eq_some_iff.mp hs).1).symm.trans he)
    rw [hfunc] at hspike
    rw [hfunc, hgrid, sampled_eq hext hset, pointsOf_of_no_spike hspike] at hcentroid
    have hvalues : ∀ m ∈ store.sampled s (store.domainAt d).grid.points, 0 ≤ m := by
      intro m hm
      obtain ⟨x, -, rfl⟩ := List.mem_map.mp hm
      exact hnonneg x
    cases hsome : centroid (store.domainAt d).grid.points
        (store.sampled s (store.domainAt d).grid.points) with
    | some x =>
      left
      rw [hsome] at hcentroid
      rw [hcentroid]
      exact centroid_mem (fun p hp => Grid.points_mem (hstore.made hdomain).low_lt_high.le hp) hvalues
        hsome
    | none =>
      refine Or.inr (Or.inr ⟨hspike, fun x hx => ?_, ?_⟩)
      · -- no centroid means no weight, and weights that are not negative are then all 0
        have hlen : (store.domainAt d).grid.points.length =
            (store.sampled s (store.domainAt d).grid.points).length := by
          rw [sampled, List.length_map]
        exact eq_zero_of_centroid hlen hvalues hsome _ (List.mem_map_of_mem hx)
      · rw [hsome] at hcentroid
        exact hcentroid.trans zero_literal

end Store

/-- If every center lies between two bounds, so does every weighted sum of centers, weighted. -/
theorem weightedCenters_mem {a b : K} {weighted : List (SetId × K)} {total r : K} {store : Store K}
    (hweight : ∀ e ∈ weighted, 0 ≤ e.2)
    (hcenter : ∀ s ∈ weighted.map Prod.fst, ∀ later c, Store.Changes store later →
      (later.setAt s).center? = some c → a ≤ c ∧ c ≤ b)
    (h : (weightedCenters total weighted store).1 = .ok r) :
    total + a * (weighted.map Prod.snd).sum ≤ r ∧ r ≤ total + b * (weighted.map Prod.snd).sum := by
  induction weighted generalizing total store with
  | nil =>
    obtain rfl : total = r := Except.ok.inj h
    simp
  | cons entry rest ih =>
    obtain ⟨s, weight⟩ := entry
    by_cases hs : store.Unmeasured s
    · rw [weightedCenters, Action.bind_of_error (Store.centerOfGravity_of_unmeasured hs)] at h
      cases h
    · obtain ⟨c, later, hcog, hc, -, -⟩ := Store.centerOfGravity_keeps hs
      have hchanges : Store.Changes store later := by
        have := Store.changes_centerOfGravity s store
        rwa [hcog] at this
      -- the other centers are found in the store that this one was kept in
      rw [weightedCenters, Action.bind_of_ok hcog] at h
      have hrest : total + c * weight + a * (rest.map Prod.snd).sum ≤ r ∧
          r ≤ total + c * weight + b * (rest.map Prod.snd).sum :=
        ih (fun e he => hweight e (List.mem_cons_of_mem _ he))
          (fun t ht last e hlast he =>
            hcenter t (List.mem_cons_of_mem _ ht) last e (hchanges.trans hlast) he) h
      have hmem := hcenter s (List.mem_cons_self ..) later c hchanges hc
      have hw : 0 ≤ weight := hweight _ (List.mem_cons_self ..)
      have hlow := mul_le_mul_of_nonneg_right hmem.1 hw
      have hhigh := mul_le_mul_of_nonneg_right hmem.2 hw
      simp only [List.map_cons, List.sum_cons, mul_add]
      constructor
      · linarith [hrest.1]
      · linarith [hrest.2]

/-- So does their weighted mean. -/
theorem meanCenter_mem {a b : K} {weighted : List (SetId × K)} {v : K} {store : Store K}
    (hweight : ∀ e ∈ weighted, 0 ≤ e.2)
    (hcenter : ∀ s ∈ weighted.map Prod.fst, ∀ later c, Store.Changes store later →
      (later.setAt s).center? = some c → a ≤ c ∧ c ≤ b)
    (h : (meanCenter weighted store).1 = .ok v) : a ≤ v ∧ v ≤ b := by
  have hnonneg : 0 ≤ (weighted.map Prod.snd).sum := by
    refine List.sum_nonneg fun w hw => ?_
    obtain ⟨e, he, rfl⟩ := List.mem_map.mp hw
    exact hweight e he
  cases htotal : sum (weighted.map Prod.snd) == (0.0 : K) with
  | true =>
    rw [meanCenter_of_zero htotal] at h
    cases h
  | false =>
    -- the weights have a positive sum, else the mean had failed
    have hne : (weighted.map Prod.snd).sum ≠ 0 := by
      intro hsum
      have : ¬ sum (weighted.map Prod.snd) = (0.0 : K) := of_decide_eq_false htotal
      exact this (by rw [sum_eq, hsum, zero_literal])
    have hpos : 0 < (weighted.map Prod.snd).sum := lt_of_le_of_ne hnonneg (Ne.symm hne)
    rw [meanCenter_of_total htotal, Action.bind_apply] at h
    rcases hr : weightedCenters 0.0 weighted store with ⟨e | r, later⟩
    · rw [hr] at h
      cases h
    · rw [hr] at h
      have hbounds : (0.0 : K) + a * (weighted.map Prod.snd).sum ≤ r ∧
          r ≤ (0.0 : K) + b * (weighted.map Prod.snd).sum :=
        weightedCenters_mem hweight hcenter (congrArg Prod.fst hr)
      have hv : r / (weighted.map Prod.snd).sum = v := by
        rw [← sum_eq]
        exact Except.ok.inj h
      rw [zero_literal, zero_add, zero_add] at hbounds
      rw [← hv]
      exact ⟨(le_div_iff₀ hpos).mpr hbounds.1, (div_le_iff₀ hpos).mpr hbounds.2⟩

/-! ## The methods on curves -/

/-- The joined curve is nowhere negative. -/
theorem aggregate_nonneg (store : Store K) (points : List K) (weighted : List (SetId × K)) :
    ∀ m ∈ aggregate store points weighted, 0 ≤ m := by
  intro m hm
  obtain ⟨x, -, rfl⟩ := List.mem_map.mp hm
  have hfold : ∀ (ms : List K) (z : K), 0 ≤ z → 0 ≤ ms.foldl greater z := by
    intro ms
    induction ms with
    | nil => exact fun z hz => hz
    | cons u us ih =>
      intro z hz
      rw [List.foldl_cons, greater_eq]
      exact ih (max z u) (le_max_of_le_left hz)
  exact hfold _ (0.0 : K) zero_literal.ge

/-- The curve methods answer a point between the ends of the domain. -/
theorem curve_mem {store : Store K} {d : DomainId} (hd : store.Made d) {method : Method}
    {fired : List (SetId × K)} {v : K} (h : curveOf store method d fired = some v) :
    (store.domainAt d).grid.low ≤ v ∧ v ≤ (store.domainAt d).grid.high :=
  apply_mem (fun _ hp => Grid.points_mem hd.low_lt_high.le hp) (aggregate_nonneg store _ fired) h

/-! ## Inference -/

namespace Rule

/-- A rule that infers a value has found a target and defuzzified what fired. -/
theorem defuzzify_of_evaluate {rule : Rule} {inputs : Inputs K} {method : Method} {store : Store K}
    {v : K} (h : (rule.evaluate inputs method store).1 = .ok (some v)) :
    ∃ first rest d fired, rule.consequents = first :: rest ∧ store.domainOf? first = some d ∧
      firings store inputs rule = .ok fired ∧ (defuzzify method d fired store).1 = .ok v := by
  -- an answer excludes every failure on the way to defuzzification, one after the other
  cases hc : rule.consequents with
  | nil =>
    rw [evaluate_of_target (target?_of_empty store hc)] at h
    cases h
  | cons first rest =>
    cases hd : store.domainOf? first with
    | none =>
      rw [evaluate_of_error (target?_of_unreached hc hd)] at h
      cases h
    | some d =>
      rw [evaluate_of_target (target?_of_reached hc hd)] at h
      cases hf : firings store inputs rule with
      | error e =>
        rw [hf] at h
        cases h
      | ok fired =>
        rw [hf] at h
        refine ⟨first, rest, d, fired, rfl, hd, rfl, ?_⟩
        cases fired with
        | nil => cases h
        | cons entry others =>
          have hbind : ((defuzzify method d (entry :: others) >>= fun x => pure (some x)) store).1 =
              .ok (some v) := h
          rcases hdef : defuzzify method d (entry :: others) store with ⟨e | x, later⟩
          · rw [Action.bind_of_error hdef] at hbind
            cases hbind
          · rw [Action.bind_of_ok hdef] at hbind
            cases hbind
            rfl

/-- **Where an inferred value lies.** In exact arithmetic, a rule whose consequents all have one living
    target infers a value of the target by every method but the center of gravity. That one stays in
    any interval that holds the target and the centers given by definition of what fired: the spikes of
    singletons, and 0 for a set that is zero at all points. -/
theorem evaluate_mem {store : Store K} (hstore : Store.Reachable store) {rule : Rule}
    {inputs : Inputs K} {method : Method} {d : DomainId} {v : K}
    (htarget : ∀ s ∈ rule.consequents, store.domainOf? s = some d)
    (hunit : ∀ s ∈ rule.consequents, ∀ x, 0 ≤ store.call s x ∧ store.call s x ≤ 1)
    (h : (rule.evaluate inputs method store).1 = .ok (some v)) :
    (method ≠ .cog → (store.domainAt d).grid.low ≤ v ∧ v ≤ (store.domainAt d).grid.high) ∧
    ∀ a b, a ≤ (store.domainAt d).grid.low → (store.domainAt d).grid.high ≤ b →
      (∀ fired, firings store inputs rule = .ok fired → ∀ s ∈ fired.map Prod.fst,
        ∀ c, store.SpecialCenter d s c → a ≤ c ∧ c ≤ b) →
      a ≤ v ∧ v ≤ b := by
  obtain ⟨first, rest, e, fired, hc, he, hfired, hv⟩ := defuzzify_of_evaluate h
  have hfirst : first ∈ rule.consequents := by rw [hc]; exact List.mem_cons_self ..
  -- the rule infers in the first consequent's domain, which all of them share
  obtain rfl : e = d := Option.some.inj (he.symm.trans (htarget first hfirst))
  have hmade := hstore.made (Store.hasDomain_of_domainOf? he)
  have hcurve : method ≠ .cog →
      (store.domainAt e).grid.low ≤ v ∧ v ≤ (store.domainAt e).grid.high := by
    intro hmethod
    rw [defuzzify_curve hmethod] at hv
    cases hsome : curveOf store method e fired with
    | none =>
      rw [hsome] at hv
      cases hv
    | some x =>
      rw [hsome] at hv
      cases hv
      exact curve_mem hmade hsome
  refine ⟨hcurve, fun a b ha hb hspecial => ?_⟩
  by_cases hmethod : method = .cog
  · rw [hmethod, defuzzify_cog] at hv
    refine meanCenter_mem (fun entry hentry => ?_) (fun s hs later c hlater hcenter => ?_) hv
    · have hpos : (0.0 : K) < entry.2 := (fired_of_firings hfired hentry).2
      rw [zero_literal] at hpos
      exact hpos.le
    · obtain ⟨entry, hentry, rfl⟩ := List.mem_map.mp hs
      have hs' := (fired_of_firings hfired hentry).1
      rcases Store.center_mem hstore hlater (htarget _ hs') (fun x => (hunit _ hs' x).1) hcenter with
        hin | hspec
      · exact ⟨ha.trans hin.1, hin.2.trans hb⟩
      · exact hspecial fired hfired _ hs c hspec
  · have hin := hcurve hmethod
    exact ⟨ha.trans hin.1, hin.2.trans hb⟩

/-! ## Centers given by definition -/

theorem rectangular_mem_unit {low high : ℚ} (x : ℚ) :
    0 ≤ Membership.evaluate x (.shape (.rectangular low high 1 0)) ∧
      Membership.evaluate x (.shape (.rectangular low high 1 0)) ≤ 1 := by
  show 0 ≤ (if (decide (x < low) || decide (high < x)) = true then (0 : ℚ) else 1) ∧
    (if (decide (x < low) || decide (high < x)) = true then (0 : ℚ) else 1) ≤ 1
  split
  · exact ⟨le_refl 0, zero_le_one⟩
  · exact ⟨zero_le_one, le_refl 1⟩

theorem singleton_mem_unit {location : ℚ} (x : ℚ) :
    0 ≤ Membership.evaluate x (.shape (.singleton location 0 1)) ∧
      Membership.evaluate x (.shape (.singleton location 0 1)) ≤ 1 := by
  show 0 ≤ (if decide (x = location) = true then (1 : ℚ) else 0) ∧
    (if decide (x = location) = true then (1 : ℚ) else 0) ≤ 1
  split
  · exact ⟨zero_le_one, le_refl 1⟩
  · exact ⟨le_refl 0, zero_le_one⟩

/-- A spike between two points of a domain that holds 0, and a set between two points. -/
def spikeAndGap : Store ℚ := Store.empty.runAll [
  .newDomain "x" 0 10 none, .newDomain "t" (-5) 5 none,
  .registerFunction ⟨0⟩ "any" (.shape (.constant 1)),
  .registerFunction ⟨0⟩ "half" (.shape (.constant 0.5)),
  .registerFunction ⟨1⟩ "spike" (.shape (.singleton 2.25 0 1)),
  .registerFunction ⟨1⟩ "narrow" (.shape (.rectangular 0.25 0.75 1 0))]

/-- A rule from the one input set to the spike and from the other to the gap. -/
def toSpikeAndGap : Rule := ⟨.ofList [(.ofList [⟨0⟩], ⟨2⟩), (.ofList [⟨1⟩], ⟨3⟩)]⟩

/-- The mean of the two centers, 1.5, lies in the target. -/
theorem evaluate_mem_spikeAndGap :
    (toSpikeAndGap.evaluate (.ofList [(⟨0⟩, 5)]) .cog spikeAndGap).1 = .ok (some 1.5) ∧
      -5 ≤ (1.5 : ℚ) ∧ (1.5 : ℚ) ≤ 5 := by
  have hrun : Store.Reachable spikeAndGap := Store.reachable_runAll (by decide +kernel)
  have hconsequents : toSpikeAndGap.consequents = [⟨2⟩, ⟨3⟩] := by decide +kernel
  have hspike : (spikeAndGap.setAt ⟨2⟩).func = .shape (.singleton 2.25 0 1) := by
    with_unfolding_all rfl
  have hnarrow : (spikeAndGap.setAt ⟨3⟩).func = .shape (.rectangular 0.25 0.75 1 0) := by
    with_unfolding_all rfl
  have hunit : ∀ s ∈ toSpikeAndGap.consequents, ∀ x,
      0 ≤ spikeAndGap.call s x ∧ spikeAndGap.call s x ≤ 1 := by
    intro s hs x
    rw [hconsequents] at hs
    unfold Store.call
    rcases List.mem_cons.mp hs with rfl | hs
    · rw [hspike]
      exact singleton_mem_unit x
    · rw [List.mem_singleton.mp hs, hnarrow]
      exact rectangular_mem_unit x
  have hvalue : (toSpikeAndGap.evaluate (.ofList [(⟨0⟩, 5)]) .cog spikeAndGap).1 =
      .ok (some 1.5) := outcome_of_toOption (by decide +kernel)
  have hmem := (evaluate_mem hrun (d := ⟨1⟩) (by decide +kernel) hunit hvalue).2 (-5) 5
    (by decide +kernel) (by decide +kernel) ?_
  · exact ⟨hvalue, hmem⟩
  · -- both special centers are found by looking at the two consequents
    intro fired hfired s hs c hc
    obtain ⟨entry, hentry, rfl⟩ := List.mem_map.mp hs
    have hs' := (fired_of_firings hfired hentry).1
    rw [hconsequents] at hs'
    rw [hc.eq_getD]
    rcases List.mem_cons.mp hs' with he | hs'
    · rw [he, hspike]
      exact ⟨by decide +kernel, by decide +kernel⟩
    · rw [List.mem_singleton.mp hs', hnarrow]
      exact ⟨by decide +kernel, by decide +kernel⟩

/-- A condition for every input, and a consequent between two points of its domain `[10, 20]`. -/
def gapOnly : Store ℚ := Store.empty.runAll [
  .newDomain "x" 0 10 none, .newDomain "t" 10 20 none,
  .registerFunction ⟨0⟩ "any" (.shape (.constant 1)),
  .registerFunction ⟨1⟩ "narrow" (.shape (.rectangular 10.25 10.75 1 0))]

/-- The rule from the input set to the gap. -/
def toGap : Rule := ⟨.ofList [(.ofList [⟨0⟩], ⟨1⟩)]⟩

/-- **A value outside the target.** The only consequent is bound to `[10, 20]`, its memberships lie in
    the unit interval and are 1 around 10.5; as they are 0 at all points of the domain, 0 is inferred. -/
theorem inferred_outside_target :
    Store.Reachable gapOnly ∧
    (∀ s ∈ toGap.consequents, gapOnly.domainOf? s = some ⟨1⟩) ∧
    (∀ s ∈ toGap.consequents, ∀ x, 0 ≤ gapOnly.call s x ∧ gapOnly.call s x ≤ 1) ∧
    (gapOnly.domainAt ⟨1⟩).grid.low = 10 ∧
    (toGap.evaluate (.ofList [(⟨0⟩, 5)]) .cog gapOnly).1 = .ok (some 0) ∧ (0 : ℚ) < 10 := by
  have hconsequents : toGap.consequents = [⟨1⟩] := by decide +kernel
  have hnarrow : (gapOnly.setAt ⟨1⟩).func = .shape (.rectangular 10.25 10.75 1 0) := by
    with_unfolding_all rfl
  refine ⟨Store.reachable_runAll (by decide +kernel), by decide +kernel, ?_, by decide +kernel,
    outcome_of_toOption (by decide +kernel), by decide +kernel⟩
  intro s hs x
  rw [hconsequents, List.mem_singleton] at hs
  unfold Store.call
  rw [hs, hnarrow]
  exact rectangular_mem_unit x

end Rule

end FuzzyInference

import FuzzyInference.Proofs.Double.Folds
import FuzzyInference.Proofs.Rule.Range
import FuzzyInference.Proofs.Store.Measure
import Mathlib.Data.List.Sort
import Mathlib.Tactic.Tauto

/-!
# Equal rules infer equally

Rules are equal regardless of the order of their conditions, but inference goes through the conditions in
order. The order does not show in what is inferred: what fires is the same up to order, the joined curve
takes the largest of the clipped memberships, and the mean of the centers of gravity adds up the same
numbers. In doubles the last of these rounds differently in another order; all else is the same bit for
bit. Nor does it show in which order the sets of an antecedent are evaluated, and how often.

## Contents
- `agrees_iff_perm`, `beq_iff_perm`: equality of rules.
- `OrderlessFolds`: what is needed of the numbers. Doubles and exact numbers have it.
- `strengthOf`, `strengthOf_congr`, `found?_eq_some_iff`: how strongly an antecedent fires.
- `firings_eq_ok_iff`, `firings_perm`: what fires.
- `aggregate_perm`, `meanCenter_of_coherent`, `meanOfCenters_perm`: what is made of it.
- `evaluate_congr`: the result for equal rules, run on `twoConsequents`.
-/

namespace FuzzyInference

open Scalar

variable {α : Type} [Scalar α]

/-! ## Equality of rules -/

/-- Maps agree if one has the other's entries in some order. -/
theorem OrderedMap.agrees_iff_perm {κ ν : Type} [DecidableEq κ] [DecidableEq ν]
    {m n : OrderedMap κ ν} :
    m.agrees (fun v w => v == w) n = true ↔ m.entries.Perm n.entries := by
  have hvalue : ∀ k v, (n.get? k).any (fun w => v == w) = true ↔ (k, v) ∈ n.entries := by
    intro k v
    rw [← get?_eq_some_iff]
    cases n.get? k with
    | none => simp
    | some w => simp [@eq_comm _ v w]
  simp only [agrees, Bool.and_eq_true, beq_iff_eq, List.all_eq_true, hvalue]
  constructor
  · rintro ⟨hsize, hsubset⟩
    -- no entry occurs twice, so being among as many others is being all of them
    have hnodup : m.entries.Nodup := m.distinct.of_map Prod.fst
    exact (List.subperm_of_subset hnodup fun e he => hsubset e he).perm_of_length_le hsize.ge
  · intro hperm
    exact ⟨hperm.length_eq, fun e he => hperm.mem_iff.mp he⟩

namespace Rule

/-- Rules are equal when they have the same conditions, in whatever order. -/
theorem beq_iff_perm {r₁ r₂ : Rule} :
    (r₁ == r₂) = true ↔ r₁.conditions.entries.Perm r₂.conditions.entries :=
  OrderedMap.agrees_iff_perm

end Rule

namespace Antecedent

theorem mem_ofList {s : SetId} {sets : List SetId} : s ∈ (ofList sets).sets ↔ s ∈ sets := by
  have hfold : ∀ (sets : List SetId) (a : Antecedent),
      s ∈ (sets.foldl insert a).sets ↔ s ∈ a.sets ∨ s ∈ sets := by
    intro sets
    induction sets with
    | nil => simp
    | cons t sets ih =>
      intro a
      rw [List.foldl_cons, ih, insert, mem_insertSet, List.mem_cons]
      tauto
  simpa [ofList, empty] using hfold sets empty

/-- An antecedent is its members. -/
theorem ext_mem {a b : Antecedent} (h : ∀ s, s ∈ a.sets ↔ s ∈ b.sets) : a = b := by
  have hindex : Function.Injective SetId.index := by
    rintro ⟨i⟩ ⟨j⟩ hij
    exact congrArg SetId.mk hij
  have hsets : a.sets = b.sets := by
    refine List.map_injective_iff.mpr hindex (a.ascending.eq_of_mem_iff b.ascending ?_)
    intro i
    simp only [List.mem_map, h]
  cases a
  cases b
  simpa using hsets

/-- The order in which the members are given does not matter, nor does how often they are. -/
theorem ofList_congr {sets others : List SetId} (h : ∀ s, s ∈ sets ↔ s ∈ others) :
    ofList sets = ofList others :=
  ext_mem fun s => by rw [mem_ofList, mem_ofList, h]

end Antecedent

/-! ## Folds without order -/

/-- The largest and the smallest of some memberships depend on no order, and positive weights have a
    total. -/
class OrderlessFolds (α : Type) [Scalar α] : Prop where
  greater_congr {vs ws : List α} (h : ∀ v, v ∈ vs ↔ v ∈ ws) :
    vs.foldl greater 0.0 = ws.foldl greater 0.0
  lesser_congr {m n : α} {ms ns : List α} (h : ∀ v, v ∈ m :: ms ↔ v ∈ n :: ns)
    (hpos : (0.0 : α) < ms.foldl lesser m) : ns.foldl lesser n = ms.foldl lesser m
  total_ne_zero {ws : List α} (hne : ws ≠ []) (hpos : ∀ w ∈ ws, (0.0 : α) < w) :
    (Scalar.sum ws == 0.0) = false

instance : OrderlessFolds Float where
  greater_congr h := Double.foldl_greater_congr (Or.inl rfl) h
  lesser_congr h hpos := Double.foldl_lesser_congr h hpos
  total_ne_zero hne hpos := Double.beq_zero_of_pos (Double.sum_pos hne hpos)

section Exact

variable {K : Type} [Field K] [LinearOrder K] [IsStrictOrderedRing K] [FloorRing K] [Elementary K]

omit [IsStrictOrderedRing K] in
theorem foldl_greater_le_iff {vs : List K} {a b : K} :
    vs.foldl greater a ≤ b ↔ ∀ v ∈ a :: vs, v ≤ b := by
  induction vs generalizing a with
  | nil => simp
  | cons v vs ih => simp [ih, greater_eq]; tauto

theorem le_foldl_lesser_iff {vs : List K} {a b : K} :
    b ≤ vs.foldl lesser a ↔ ∀ v ∈ a :: vs, b ≤ v :=
  (Ordered.le_foldl_lesser_iff rfl fun _ _ => rfl).trans List.forall_mem_cons.symm

instance : OrderlessFolds K where
  greater_congr h := by
    refine eq_of_forall_ge_iff fun b => ?_
    simp [foldl_greater_le_iff, h]
  lesser_congr h _ := by
    refine eq_of_forall_le_iff fun b => ?_
    rw [le_foldl_lesser_iff, le_foldl_lesser_iff]
    exact forall_congr' fun v => by rw [h]
  total_ne_zero {ws} hne hpos := by
    have hsum : 0 < ws.sum :=
      List.sum_pos ws (fun w hw => by simpa using hpos w hw) hne
    exact decide_eq_false (by rw [sum_eq, zero_literal]; exact hsum.ne')

end Exact

/-! ## How strongly an antecedent fires -/

/-- The membership of the inputs in a set that can be evaluated. -/
def membershipOf (store : Store α) (inputs : Inputs α) (s : SetId) : α :=
  (inputMembership store inputs s).toOption.getD 0.0

/-- A smallest membership if it is there and positive. -/
def positive (least? : Option α) : Option α :=
  let strength := least?.getD 0.0
  if (0.0 : α) < strength then some strength else none

/-- The smallest membership among some sets if it is positive. -/
def strengthOf (store : Store α) (inputs : Inputs α) (sets : List SetId) : Option α :=
  positive (least? none (sets.map (membershipOf store inputs)))

section Strength

variable {store : Store α} {inputs : Inputs α}

theorem inputMembership_of_given {s : SetId} (h : Given store inputs s) :
    inputMembership store inputs s = .ok (membershipOf store inputs s) := by
  obtain ⟨m, hm⟩ := inputMembership_eq_ok_iff.mpr h
  unfold membershipOf
  rw [hm]
  rfl

/-- Sets are evaluated if each of them can be. -/
theorem mapM_membership_eq_ok_iff {sets : List SetId} {ms : List α} :
    sets.mapM (inputMembership store inputs) = .ok ms ↔
      (∀ s ∈ sets, Given store inputs s) ∧ ms = sets.map (membershipOf store inputs) := by
  induction sets generalizing ms with
  | nil =>
    constructor
    · intro h
      cases h
      exact ⟨by simp, rfl⟩
    · rintro ⟨-, rfl⟩
      rfl
  | cons s sets ih =>
    rw [List.mapM_cons, List.forall_mem_cons, bind_eq_ok_iff]
    constructor
    · rintro ⟨m, hm, h⟩
      obtain ⟨later, hlater, h⟩ := bind_eq_ok_iff.mp h
      obtain ⟨hgiven, rfl⟩ := ih.mp hlater
      have hs := inputMembership_eq_ok_iff.mp ⟨m, hm⟩
      rw [inputMembership_of_given hs] at hm
      cases hm
      cases h
      exact ⟨⟨hs, hgiven⟩, rfl⟩
    · rintro ⟨⟨hs, hgiven⟩, rfl⟩
      exact ⟨_, inputMembership_of_given hs, bind_eq_ok_iff.mpr ⟨_, ih.mpr ⟨hgiven, rfl⟩, rfl⟩⟩

/-- The least of a nonempty list is the running minimum from its head. -/
theorem least?_cons (m : α) (ms : List α) :
    least? none (m :: ms) = some (ms.foldl lesser m) := by
  have hfold : ∀ (ms : List α) (m : α), least? (some m) ms = some (ms.foldl lesser m) := by
    intro ms
    induction ms with
    | nil => exact fun _ => rfl
    | cons n ms ih => exact fun m => ih (lesser m n)
  exact hfold ms m

/-- **How strongly sets fire depends on no order** and on no repetition. -/
theorem strengthOf_congr [OrderlessFolds α] {sets others : List SetId}
    (h : ∀ s, s ∈ sets ↔ s ∈ others) :
    strengthOf store inputs sets = strengthOf store inputs others := by
  cases sets with
  | nil =>
    have hothers : others = [] := List.eq_nil_iff_forall_not_mem.mpr fun s hs => by
      simpa using (h s).mpr hs
    rw [hothers]
  | cons s sets =>
    cases others with
    | nil => simpa using (h s).mp (List.mem_cons_self ..)
    | cons t others =>
      unfold strengthOf positive
      simp only [List.map_cons, least?_cons, Option.getD_some]
      have hvalues : ∀ v, v ∈ (s :: sets).map (membershipOf store inputs) ↔
          v ∈ (t :: others).map (membershipOf store inputs) := by
        intro v
        simp only [List.mem_map, h]
      -- a smallest membership that is not positive may differ, but does not fire
      split
      · rename_i hpos
        have heq := OrderlessFolds.lesser_congr hvalues hpos
        rw [heq, if_pos hpos]
      · rename_i hpos
        rw [if_neg]
        intro hpos'
        have heq := OrderlessFolds.lesser_congr (fun v => (hvalues v).symm) hpos'
        rw [heq] at hpos
        exact hpos hpos'

/-- The strength that is found by evaluating sets one after the other, given what is known of some; a
    failure without its reason. -/
def found? (store : Store α) (inputs : Inputs α) (memo : Memo α) (sets : List SetId) :
    Option (Option α) :=
  (weakest store inputs none memo sets).toOption.map fun found => positive found.1

/-- The memo answers exactly when all sets of an antecedent have inputs, and with its strength. -/
theorem found?_eq_some_iff {memo : Memo α} (h : Recorded store inputs memo) {sets : List SetId}
    {strength? : Option α} :
    found? store inputs memo sets = some strength? ↔
      (∀ s ∈ sets, Given store inputs s) ∧ strengthOf store inputs sets = strength? := by
  unfold found?
  obtain ⟨later, -, hweakest⟩ := weakest_eq h none sets
  rw [hweakest]
  cases hms : sets.mapM (inputMembership store inputs) with
  | error e =>
    refine iff_of_false (by simp [Except.map, Except.toOption]) ?_
    rintro ⟨hgiven, -⟩
    rw [mapM_membership_eq_ok_iff.mpr ⟨hgiven, rfl⟩] at hms
    cases hms
  | ok ms =>
    obtain ⟨hgiven, rfl⟩ := mapM_membership_eq_ok_iff.mp hms
    exact ⟨fun h => ⟨hgiven, Option.some.inj h⟩, fun h => congrArg some h.2⟩

end Strength

/-! ## What fires -/

section Firings

variable {store : Store α} {inputs : Inputs α}

/-- The consequent of a condition that fires, and how strongly. -/
def firingOf (store : Store α) (inputs : Inputs α) (condition : Antecedent × SetId) :
    Option (SetId × α) :=
  (strengthOf store inputs (condition.1.visited store)).map fun strength => (condition.2, strength)

/-- Where the sets lie does not show in how strongly a condition fires. -/
theorem firingOf_eq [OrderlessFolds α] (condition : Antecedent × SetId) :
    firingOf store inputs condition =
      (strengthOf store inputs condition.1.sets).map fun strength => (condition.2, strength) := by
  unfold firingOf
  rw [strengthOf_congr fun _ => Antecedent.mem_visited]

/-- A condition whose sets can all be evaluated fires or rests, and the others follow. -/
theorem plainFirings_of_given {condition : Antecedent × SetId}
    (h : ∀ s ∈ condition.1.sets, Given store inputs s) (conditions : List (Antecedent × SetId)) :
    plainFirings store inputs (condition :: conditions) =
      (plainFirings store inputs conditions).map fun later =>
        (firingOf store inputs condition).toList ++ later := by
  obtain ⟨antecedent, consequent⟩ := condition
  have hgiven : ∀ s ∈ antecedent.visited store, Given store inputs s :=
    fun s hs => h s (Antecedent.mem_visited.mp hs)
  unfold firingOf strengthOf positive
  rw [plainFirings, mapM_membership_eq_ok_iff.mpr ⟨hgiven, rfl⟩]
  cases plainFirings store inputs conditions with
  | error e => rfl
  | ok later =>
    refine congrArg Except.ok ?_
    dsimp only
    split <;> rfl

/-- A condition of which some set cannot be evaluated fails as one of its sets does. -/
theorem plainFirings_of_not_given {condition : Antecedent × SetId}
    (h : ¬ ∀ s ∈ condition.1.sets, Given store inputs s) (conditions : List (Antecedent × SetId)) :
    ∃ e, (condition.1.visited store).mapM (inputMembership store inputs) = .error e ∧
      plainFirings store inputs (condition :: conditions) = .error e ∧
      ∃ s ∈ condition.1.sets, inputMembership store inputs s = .error e := by
  obtain ⟨antecedent, consequent⟩ := condition
  cases hms : (antecedent.visited store).mapM (inputMembership store inputs) with
  | ok ms =>
    obtain ⟨hgiven, -⟩ := mapM_membership_eq_ok_iff.mp hms
    exact absurd (fun s hs => hgiven s (Antecedent.mem_visited.mpr hs)) h
  | error e =>
    obtain ⟨before, s, after, hvisited, -, hs⟩ := mapM_eq_error_iff.mp hms
    have hmem : s ∈ antecedent.visited store := by rw [hvisited]; simp
    refine ⟨e, rfl, ?_, s, Antecedent.mem_visited.mp hmem, hs⟩
    rw [plainFirings, hms]
    rfl

/-- Firing succeeds when every antecedent set has an input. It gives the consequents that fire. -/
theorem plainFirings_eq_ok_iff {conditions : List (Antecedent × SetId)}
    {fired : List (SetId × α)} :
    plainFirings store inputs conditions = .ok fired ↔
      (∀ condition ∈ conditions, ∀ s ∈ condition.1.sets, Given store inputs s) ∧
        fired = conditions.filterMap (firingOf store inputs) := by
  induction conditions generalizing fired with
  | nil =>
    constructor
    · intro h
      cases h
      exact ⟨by simp, rfl⟩
    · rintro ⟨-, rfl⟩
      rfl
  | cons condition conditions ih =>
    have hfirings : (condition :: conditions).filterMap (firingOf store inputs) =
        (firingOf store inputs condition).toList ++ conditions.filterMap (firingOf store inputs) := by
      rw [List.filterMap_cons]
      cases firingOf store inputs condition <;> rfl
    rw [List.forall_mem_cons, hfirings]
    -- the first condition decides whether the others are looked at
    by_cases hgiven : ∀ s ∈ condition.1.sets, Given store inputs s
    · rw [plainFirings_of_given hgiven, and_iff_right hgiven]
      cases hlater : plainFirings store inputs conditions with
      | error e =>
        refine iff_of_false (fun h => by cases h) fun h => ?_
        cases hlater.symm.trans (ih.mpr ⟨h.1, rfl⟩)
      | ok later =>
        obtain ⟨hrest, rfl⟩ := ih.mp hlater
        rw [and_iff_right hrest]
        exact ⟨fun h => (Except.ok.inj h).symm, fun h => congrArg Except.ok h.symm⟩
    · obtain ⟨e, -, hfailed, -⟩ := plainFirings_of_not_given hgiven conditions
      rw [hfailed]
      exact iff_of_false (fun h => by cases h) fun h => hgiven h.1.1

/-- **What fires,** condition by condition. -/
theorem firings_eq_ok_iff {rule : Rule} {fired : List (SetId × α)} :
    firings store inputs rule = .ok fired ↔
      (∀ condition ∈ rule.conditions.entries, ∀ s ∈ condition.1.sets, Given store inputs s) ∧
        fired = rule.conditions.entries.filterMap (firingOf store inputs) := by
  rw [firings_eq, plainFirings_eq_ok_iff]

/-- Of equal rules the same consequents fire, in some order. -/
theorem firings_perm {r₁ r₂ : Rule} (h : (r₁ == r₂) = true) {fired : List (SetId × α)}
    (hfired : firings store inputs r₁ = .ok fired) :
    ∃ others, firings store inputs r₂ = .ok others ∧ fired.Perm others := by
  have hperm := Rule.beq_iff_perm.mp h
  obtain ⟨hgiven, rfl⟩ := firings_eq_ok_iff.mp hfired
  refine ⟨_, firings_eq_ok_iff.mpr ⟨?_, rfl⟩, hperm.filterMap _⟩
  intro condition hcondition
  exact hgiven condition (hperm.mem_iff.mpr hcondition)

end Firings

/-! ## What is made of what fired -/

/-- The joined curve does not depend on the order of what fired, as a maximum does not. -/
theorem aggregate_perm [OrderlessFolds α] {fired others : List (SetId × α)}
    (h : fired.Perm others) (store : Store α) (points : List α) :
    aggregate store points fired = aggregate store points others := by
  unfold aggregate
  refine List.map_congr_left fun x _ => ?_
  exact OrderlessFolds.greater_congr fun v => (h.map _).mem_iff

/-- The mean of the centers of gravity that sets have in a domain, weighted. -/
def meanOfCenters (store : Store α) (d : DomainId) (weighted : List (SetId × α)) : α :=
  weighted.foldl (fun total e => total + store.centerIn d e.1 * e.2) 0.0 /
    Scalar.sum (weighted.map Prod.snd)

/-- In a coherent store the weighted sum takes each center from its domain. -/
theorem weightedCenters_of_coherent {store : Store α} (h : store.Coherent) {d : DomainId}
    {weighted : List (SetId × α)} (hd : ∀ e ∈ weighted, store.domainOf? e.1 = some d) (total : α) :
    (weightedCenters total weighted store).1 =
      .ok (weighted.foldl (fun total e => total + store.centerIn d e.1 * e.2) total) := by
  -- every center that is kept on the way is the one that would be found later
  induction weighted generalizing total store with
  | nil => rfl
  | cons entry rest ih =>
    obtain ⟨s, weight⟩ := entry
    obtain ⟨hs, hrest⟩ := List.forall_mem_cons.mp hd
    rcases hcenter : Store.centerOfGravity s store with ⟨outcome, later⟩
    have hquiet := Store.quiet_centerOfGravity s store
    have houtcome := Store.centerOfGravity_of_coherent h hs
    rw [hcenter] at hquiet houtcome
    cases houtcome
    rw [weightedCenters, Action.bind_of_ok hcenter, List.foldl_cons]
    have hreached : ∀ e ∈ rest, later.domainOf? e.1 = some d := by
      intro e he
      rw [hquiet.framed.domainOf?]
      exact hrest e he
    rw [ih (hquiet.coherent h) hreached]
    simp only [hquiet.framed.centerIn]

theorem meanCenter_of_coherent {store : Store α} (h : store.Coherent) {d : DomainId}
    {weighted : List (SetId × α)} (hd : ∀ e ∈ weighted, store.domainOf? e.1 = some d)
    (htotal : (Scalar.sum (weighted.map Prod.snd) == 0.0) = false) :
    (meanCenter weighted store).1 = .ok (meanOfCenters store d weighted) := by
  rw [meanCenter_of_total htotal]
  have hcenters := weightedCenters_of_coherent h hd (0.0 : α)
  rcases hrun : weightedCenters 0.0 weighted store with ⟨outcome, later⟩
  rw [hrun] at hcenters
  cases hcenters
  rw [Action.bind_of_ok hrun]
  rfl

/-- In exact arithmetic the mean does not depend on the order. -/
theorem meanOfCenters_perm {K : Type} [Field K] [LinearOrder K] [IsStrictOrderedRing K]
    [FloorRing K] [Elementary K] {fired others : List (SetId × K)} (h : fired.Perm others)
    (store : Store K) (d : DomainId) :
    meanOfCenters store d fired = meanOfCenters store d others := by
  unfold meanOfCenters
  rw [foldl_add (fun e : SetId × K => store.centerIn d e.1 * e.2),
    foldl_add (fun e : SetId × K => store.centerIn d e.1 * e.2), sum_eq, sum_eq,
    (h.map _).sum_eq, (h.map Prod.snd).sum_eq]

/-! ## Inference -/

/-- Both outcomes are failures, or both are none, or both are values. -/
structure SameKind (a b : Except (FuzzyError α) (Option α)) : Prop where
  fails : (∃ e, a = .error e) ↔ ∃ e, b = .error e
  empty : a = .ok none ↔ b = .ok none

/-- Both outcomes are the same value, if they are values. -/
def SameValue (a b : Except (FuzzyError α) (Option α)) : Prop :=
  ∀ v, a = .ok (some v) ↔ b = .ok (some v)

omit [Scalar α] in
theorem sameKind_of_toOption {a b : Except (FuzzyError α) (Option α)}
    (h : a.toOption.map Option.isSome = b.toOption.map Option.isSome) : SameKind a b := by
  have hfails : ∀ o : Except (FuzzyError α) (Option α),
      (∃ e, o = .error e) ↔ o.toOption.map Option.isSome = none := by
    rintro (e | _ | v) <;> simp [Except.toOption]
  have hempty : ∀ o : Except (FuzzyError α) (Option α),
      o = .ok none ↔ o.toOption.map Option.isSome = some false := by
    rintro (e | _ | v) <;> simp [Except.toOption]
  exact ⟨by rw [hfails, hfails, h], by rw [hempty, hempty, h]⟩

omit [Scalar α] in
theorem sameValue_of_toOption {a b : Except (FuzzyError α) (Option α)}
    (h : a.toOption = b.toOption) : SameValue a b := by
  intro v
  have hvalue : ∀ o : Except (FuzzyError α) (Option α),
      o = .ok (some v) ↔ o.toOption = some (some v) := by
    rintro (e | o) <;> simp [Except.toOption]
  rw [hvalue, hvalue, h]

/-- The result of defuzzifying, or none if nothing fired; a failure without its reason. -/
def settled (method : Method) (d : DomainId) (store : Store α) :
    List (SetId × α) → Option (Option α)
  | [] => some none
  | fired => (defuzzify method d fired store).1.toOption.map some

/-- With something fired, what is settled on is the method's own answer. -/
theorem settled_of_ne_nil (method : Method) (d : DomainId) (store : Store α)
    {fired : List (SetId × α)} (h : fired ≠ []) :
    settled method d store fired = (defuzzify method d fired store).1.toOption.map some := by
  cases fired with
  | nil => exact absurd rfl h
  | cons entry rest => rfl

/-- The curve methods settle on the same value for every order of the fired sets. -/
theorem settled_curve [OrderlessFolds α] {method : Method} (hmethod : method ≠ .cog)
    {fired others : List (SetId × α)} (h : fired.Perm others) (d : DomainId) (store : Store α) :
    settled method d store fired = settled method d store others := by
  have hcurve : curveOf store method d fired = curveOf store method d others := by
    unfold curveOf
    rw [aggregate_perm h]
  by_cases hne : fired = []
  · rw [hne] at h ⊢
    rw [h.nil_eq]
  · have hne' : others ≠ [] := by
      rintro rfl
      exact hne h.eq_nil
    rw [settled_of_ne_nil method d store hne, settled_of_ne_nil method d store hne',
      defuzzify_curve hmethod, defuzzify_curve hmethod, hcurve]

/-- The center method settles on the mean of centers, as positive weights have a positive sum. -/
theorem settled_cog [OrderlessFolds α] {store : Store α} (h : store.Coherent) {d : DomainId}
    {fired : List (SetId × α)} (hne : fired ≠ [])
    (hd : ∀ e ∈ fired, store.domainOf? e.1 = some d) (hpos : ∀ e ∈ fired, (0.0 : α) < e.2) :
    settled .cog d store fired = some (some (meanOfCenters store d fired)) := by
  have htotal : (Scalar.sum (fired.map Prod.snd) == 0.0) = false := by
    refine OrderlessFolds.total_ne_zero (by simpa using hne) fun w hw => ?_
    obtain ⟨e, he, rfl⟩ := List.mem_map.mp hw
    exact hpos e he
  rw [settled_of_ne_nil .cog d store hne, defuzzify_cog, meanCenter_of_coherent h hd htotal]
  rfl

namespace Rule

/-- Where all consequents have one target, inference settles what fired there. -/
theorem toOption_evaluate {store : Store α} {rule : Rule} {d : DomainId}
    (htarget : ∀ s ∈ rule.consequents, store.domainOf? s = some d) (inputs : Inputs α)
    (method : Method) :
    (rule.evaluate inputs method store).1.toOption =
      (firings store inputs rule).toOption.bind (settled method d store) := by
  cases hc : rule.consequents with
  | nil =>
    have hentries : rule.conditions.entries = [] := List.map_eq_nil_iff.mp hc
    rw [evaluate_of_target (target?_of_empty store hc), firings_eq, hentries]
    rfl
  | cons first rest =>
    have hfirst : store.domainOf? first = some d := htarget first (by simp [hc])
    rw [evaluate_of_target (target?_of_reached hc hfirst)]
    rcases firings store inputs rule with e | ⟨_ | ⟨entry, others⟩⟩
    · rfl
    · rfl
    · show ((defuzzify method d (entry :: others) >>= fun x => pure (some x)) store).1.toOption = _
      exact Action.toOption_bind_pure _ some store

section Equal

variable [OrderlessFolds α] {store : Store α} {r₁ r₂ : Rule} {d : DomainId}

omit [OrderlessFolds α] in
/-- Either nothing can be said to fire for either rule, or the same fires for both. -/
theorem firings_cases (store : Store α) (h : (r₁ == r₂) = true) (inputs : Inputs α) :
    ((firings store inputs r₁).toOption = none ∧ (firings store inputs r₂).toOption = none) ∨
      ∃ fired others, fired.Perm others ∧ firings store inputs r₁ = .ok fired ∧
        firings store inputs r₂ = .ok others := by
  have hsymm : (r₂ == r₁) = true := beq_iff_perm.mpr (beq_iff_perm.mp h).symm
  cases hfired : firings store inputs r₁ with
  | ok fired =>
    obtain ⟨others, hothers, hperm⟩ := firings_perm h hfired
    exact Or.inr ⟨fired, others, hperm, rfl, hothers⟩
  | error e =>
    left
    cases hothers : firings store inputs r₂ with
    | ok others =>
      obtain ⟨fired, hok, -⟩ := firings_perm hsymm hothers
      rw [hok] at hfired
      cases hfired
    | error f => exact ⟨rfl, rfl⟩

/-- Equal rules give the same answer under every curve method, or both none. -/
theorem toOption_evaluate_curve (h : (r₁ == r₂) = true)
    (htarget : ∀ s ∈ r₁.consequents, store.domainOf? s = some d) (inputs : Inputs α)
    {method : Method} (hmethod : method ≠ .cog) :
    (r₁.evaluate inputs method store).1.toOption = (r₂.evaluate inputs method store).1.toOption := by
  have htarget' : ∀ s ∈ r₂.consequents, store.domainOf? s = some d := by
    intro s hs
    exact htarget s (((beq_iff_perm.mp h).map Prod.snd).mem_iff.mpr hs)
  rw [toOption_evaluate htarget, toOption_evaluate htarget']
  rcases firings_cases store h inputs with ⟨h₁, h₂⟩ | ⟨fired, others, hperm, h₁, h₂⟩
  · rw [h₁, h₂]
  · rw [h₁, h₂]
    exact settled_curve hmethod hperm d store

/-- The center of gravity of what fired is the mean of the centers of all that did, for both rules. -/
theorem toOption_evaluate_cog (hstore : store.Coherent) (h : (r₁ == r₂) = true)
    (htarget : ∀ s ∈ r₁.consequents, store.domainOf? s = some d) (inputs : Inputs α) :
    (r₁.evaluate inputs .cog store).1.toOption = (r₂.evaluate inputs .cog store).1.toOption ∨
      ∃ fired others, fired.Perm others ∧
        (r₁.evaluate inputs .cog store).1.toOption = some (some (meanOfCenters store d fired)) ∧
        (r₂.evaluate inputs .cog store).1.toOption = some (some (meanOfCenters store d others)) := by
  have htarget' : ∀ s ∈ r₂.consequents, store.domainOf? s = some d := by
    intro s hs
    exact htarget s (((beq_iff_perm.mp h).map Prod.snd).mem_iff.mpr hs)
  rw [toOption_evaluate htarget, toOption_evaluate htarget']
  -- both rules fail to fire, or fire alike up to the order
  rcases firings_cases store h inputs with ⟨h₁, h₂⟩ | ⟨fired, others, hperm, h₁, h₂⟩
  · left
    rw [h₁, h₂]
  · rw [h₁, h₂]
    by_cases hne : fired = []
    · left
      rw [hne] at hperm ⊢
      rw [hperm.nil_eq]
    · right
      refine ⟨fired, others, hperm, ?_, ?_⟩
      · exact settled_cog hstore hne (fun e he => htarget _ (fired_of_firings h₁ he).1)
          fun e he => (fired_of_firings h₁ he).2
      · refine settled_cog hstore (fun hnil => hne ?_)
          (fun e he => htarget' _ (fired_of_firings h₂ he).1) fun e he => (fired_of_firings h₂ he).2
        rw [hnil] at hperm
        exact hperm.eq_nil

/-- Under every method, equal rules succeed together, on something or on nothing. -/
theorem sameKind_evaluate (hstore : store.Coherent) (h : (r₁ == r₂) = true)
    (htarget : ∀ s ∈ r₁.consequents, store.domainOf? s = some d) (inputs : Inputs α)
    (method : Method) :
    SameKind (r₁.evaluate inputs method store).1 (r₂.evaluate inputs method store).1 := by
  refine sameKind_of_toOption ?_
  by_cases hmethod : method = .cog
  · subst hmethod
    rcases toOption_evaluate_cog hstore h htarget inputs with heq | ⟨fired, others, -, h₁, h₂⟩
    · rw [heq]
    · rw [h₁, h₂]
      rfl
  · rw [toOption_evaluate_curve h htarget inputs hmethod]

end Equal

/-- Conditions from the same sets to the same consequent, the sets given in any order and any number of
    times, make one rule. -/
theorem ofConditions_congr (store : Store α) {conditions others : List (List SetId × SetId)}
    (h : List.Forall₂ (fun c o => (∀ s, s ∈ c.1 ↔ s ∈ o.1) ∧ c.2 = o.2) conditions others) :
    Rule.ofConditions store conditions = Rule.ofConditions store others := by
  have hentries : conditions.map (fun c => (Antecedent.ofList c.1, c.2)) =
      others.map (fun o => (Antecedent.ofList o.1, o.2)) := by
    induction h with
    | nil => rfl
    | cons hcondition _ ih =>
      rw [List.map_cons, List.map_cons, ih, Antecedent.ofList_congr hcondition.1, hcondition.2]
  unfold Rule.ofConditions
  rw [hentries]

/-- **Equal rules infer equally.** Where the consequents share one living target, both rules fail, both
    infer nothing, or both infer a value. In doubles the values are one double by every method but the
    center of gravity, and in exact arithmetic by every method. A rule is the same for every order and
    repetition of the sets of its conditions, and in which order the sets are evaluated does not show
    in how strongly they fire. -/
theorem evaluate_congr :
    (∀ {store : Store Float} {r₁ r₂ : Rule} {d : DomainId}, Store.Reachable store →
      (r₁ == r₂) = true → (∀ s ∈ r₁.consequents, store.domainOf? s = some d) →
      ∀ (inputs : Inputs Float) (method : Method),
        SameKind (r₁.evaluate inputs method store).1 (r₂.evaluate inputs method store).1 ∧
        (method ≠ .cog →
          SameValue (r₁.evaluate inputs method store).1 (r₂.evaluate inputs method store).1)) ∧
    (∀ {K : Type} [Field K] [LinearOrder K] [IsStrictOrderedRing K] [FloorRing K] [Elementary K]
      {store : Store K} {r₁ r₂ : Rule} {d : DomainId}, Store.Reachable store →
      (r₁ == r₂) = true → (∀ s ∈ r₁.consequents, store.domainOf? s = some d) →
      ∀ (inputs : Inputs K) (method : Method),
        SameKind (r₁.evaluate inputs method store).1 (r₂.evaluate inputs method store).1 ∧
        SameValue (r₁.evaluate inputs method store).1 (r₂.evaluate inputs method store).1) ∧
    (∀ (store : Store Float) {conditions others : List (List SetId × SetId)},
      List.Forall₂ (fun c o => (∀ s, s ∈ c.1 ↔ s ∈ o.1) ∧ c.2 = o.2) conditions others →
        Rule.ofConditions store conditions = Rule.ofConditions store others) ∧
    (∀ (store : Store Float) (inputs : Inputs Float) {sets others : List SetId},
      (∀ s, s ∈ sets ↔ s ∈ others) → ∀ {memo known : Memo Float}, Recorded store inputs memo →
        Recorded store inputs known →
          found? store inputs memo sets = found? store inputs known others) := by
  refine ⟨?_, ?_, ofConditions_congr, ?_⟩
  · intro store r₁ r₂ d hstore h htarget inputs method
    refine ⟨sameKind_evaluate hstore.coherent h htarget inputs method, fun hmethod => ?_⟩
    exact sameValue_of_toOption (toOption_evaluate_curve h htarget inputs hmethod)
  · intro K _ _ _ _ _ store r₁ r₂ d hstore h htarget inputs method
    refine ⟨sameKind_evaluate hstore.coherent h htarget inputs method, sameValue_of_toOption ?_⟩
    by_cases hmethod : method = .cog
    · subst hmethod
      rcases toOption_evaluate_cog hstore.coherent h htarget inputs with
        heq | ⟨fired, others, hperm, h₁, h₂⟩
      · exact heq
      · rw [h₁, h₂, meanOfCenters_perm hperm]
    · exact toOption_evaluate_curve h htarget inputs hmethod
  · intro store inputs sets others h memo known hmemo hknown
    refine Option.ext fun strength? => ?_
    rw [found?_eq_some_iff hmemo, found?_eq_some_iff hknown, strengthOf_congr h]
    simp only [h]

/-- Two input sets and two consequents of one target. -/
def twoConsequents (K : Type) [Scalar K] : Store K := Store.empty.runAll [
  .newDomain "x" 0.0 10.0 none, .newDomain "t" 0.0 4.0 none,
  .registerFunction ⟨0⟩ "any" (.shape (.constant 1.0)),
  .registerFunction ⟨0⟩ "half" (.shape (.constant 0.5)),
  .registerFunction ⟨1⟩ "all" (.shape (.constant 1.0)),
  .registerFunction ⟨1⟩ "spike" (.shape (.singleton 3.0 0.0 1.0))]

/-- A rule to both consequents. -/
def spikeLast : Rule := ⟨.ofList [(.ofList [⟨0⟩, ⟨1⟩], ⟨2⟩), (.ofList [⟨0⟩], ⟨3⟩)]⟩

/-- The same rule, its conditions the other way around. -/
def spikeFirst : Rule := ⟨.ofList [(.ofList [⟨0⟩], ⟨3⟩), (.ofList [⟨0⟩, ⟨1⟩], ⟨2⟩)]⟩

/-- The two rules go through their conditions in opposite orders. Both infer the spike by the mean of
    the maximum, and eight thirds by the center of gravity. -/
theorem evaluate_congr_twoConsequents :
    spikeLast.consequents = spikeFirst.consequents.reverse ∧
    (spikeFirst.evaluate (.ofList [(⟨0⟩, 5)]) .mom (twoConsequents Float)).1 = .ok (some 3.0) ∧
    (spikeFirst.evaluate (.ofList [(⟨0⟩, 5)]) .cog (twoConsequents ℚ)).1 = .ok (some (8 / 3)) ∧
    Rule.ofConditions (twoConsequents Float) [([⟨0⟩, ⟨1⟩], ⟨2⟩)] =
      Rule.ofConditions (twoConsequents Float) [([⟨1⟩, ⟨0⟩, ⟨1⟩], ⟨2⟩)] ∧
    found? (twoConsequents Float) (.ofList [(⟨0⟩, 5)]) .empty [⟨0⟩, ⟨1⟩] =
      found? (twoConsequents Float) (.ofList [(⟨0⟩, 5)]) .empty [⟨1⟩, ⟨0⟩, ⟨1⟩] := by
  have hequal : (spikeLast == spikeFirst) = true := by decide +kernel
  have htarget : ∀ s ∈ spikeLast.consequents, (twoConsequents Float).domainOf? s = some ⟨1⟩ := by
    decide +kernel
  have htarget' : ∀ s ∈ spikeLast.consequents, (twoConsequents ℚ).domainOf? s = some ⟨1⟩ := by
    decide +kernel
  have hrun : Store.Reachable (twoConsequents Float) := Store.reachable_runAll (by decide +kernel)
  have hrun' : Store.Reachable (twoConsequents ℚ) := Store.reachable_runAll (by decide +kernel)
  have hmom := (evaluate_congr.1 hrun hequal htarget (.ofList [(⟨0⟩, 5)]) .mom).2 (by decide)
  have hcog := (evaluate_congr.2.1 hrun' hequal htarget' (.ofList [(⟨0⟩, 5)]) .cog).2
  have hsets : ∀ s : SetId, s ∈ ([⟨0⟩, ⟨1⟩] : List SetId) ↔ s ∈ ([⟨1⟩, ⟨0⟩, ⟨1⟩] : List SetId) := by
    intro s
    simp only [List.mem_cons, List.not_mem_nil, or_false]
    tauto
  refine ⟨by decide +kernel, (hmom 3.0).mp ?_, (hcog (8 / 3)).mp ?_, ?_, ?_⟩
  · exact outcome_of_toOption (by decide +kernel)
  · exact outcome_of_toOption (by decide +kernel)
  · exact evaluate_congr.2.2.1 (twoConsequents Float) (.cons ⟨hsets, rfl⟩ .nil)
  · exact evaluate_congr.2.2.2 (twoConsequents Float) _ hsets recorded_empty recorded_empty

end Rule

end FuzzyInference

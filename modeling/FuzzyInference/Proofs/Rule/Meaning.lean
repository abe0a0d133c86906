import FuzzyInference.Proofs.Double.Unit
import FuzzyInference.Proofs.Rule.Equality

/-!
# What a rule means

A condition fires if it has an antecedent and the inputs have a positive membership in every set of it,
with the smallest of these memberships. What fired is either averaged, each consequent by its center of
gravity, or clipped, joined to one curve and handed to a method. Here this is said of doubles without
going through the conditions one by one and without a memo, and inference is shown to answer just that:
it fails only for a set that cannot be evaluated, and a set is evaluated even where another one already
keeps its condition from firing.

## Contents
- `HasMembership`, `FiresWith`, `Rests`, `Fires`: what fires. `fires_iff`: it is what is found to fire.
- `Joined`, `forall₂_joined_iff`: the curve of what fired.
- `apply_eq_some`: methods on curves of finite doubles always answer.
- `Defuzzified`, `settled_eq`, `evaluate_of_given`: what is inferred from what fired.
- `evaluate_meaning`: all of this together, run on `restingConditions`.
-/

namespace FuzzyInference

open Scalar

/-! ## What fires -/

section Fires

variable {store : Store Float} {inputs : Inputs Float}

/-- The inputs have a value for the domain that the set reaches, in its range, and the set has the
    membership there. -/
def HasMembership (store : Store Float) (inputs : Inputs Float) (s : SetId) (m : Float) : Prop :=
  ∃ d x, store.domainOf? s = some d ∧ inputs.get? d = some x ∧
    (store.domainAt d).grid.contains x = true ∧ store.call s x = m

/-- The sets are some, the inputs have a positive membership in each of them, and `w` is the smallest of
    these. -/
structure FiresWith (store : Store Float) (inputs : Inputs Float) (sets : List SetId) (w : Float) :
    Prop where
  attained : ∃ s ∈ sets, HasMembership store inputs s w
  least : ∀ s ∈ sets, ∀ m, HasMembership store inputs s m → (0.0 : Float) < m ∧ w ≤ m

/-- There are no sets, or the inputs have a membership in one of them that is not positive. -/
def Rests (store : Store Float) (inputs : Inputs Float) (sets : List SetId) : Prop :=
  sets = [] ∨ ∃ s ∈ sets, ∃ m, HasMembership store inputs s m ∧ ¬ (0.0 : Float) < m

/-- The consequents of the conditions that fire, with their weights, in the order of the conditions. -/
inductive Fires (store : Store Float) (inputs : Inputs Float) :
    List (Antecedent × SetId) → List (SetId × Float) → Prop
  | nil : Fires store inputs [] []
  | fires {antecedent consequent w conditions fired} (h : FiresWith store inputs antecedent.sets w)
      (rest : Fires store inputs conditions fired) :
      Fires store inputs ((antecedent, consequent) :: conditions) ((consequent, w) :: fired)
  | rests {antecedent consequent conditions fired} (h : Rests store inputs antecedent.sets)
      (rest : Fires store inputs conditions fired) :
      Fires store inputs ((antecedent, consequent) :: conditions) fired

/-- A set has one membership at the inputs, if any. -/
theorem hasMembership_iff {s : SetId} {m : Float} :
    HasMembership store inputs s m ↔ Given store inputs s ∧ membershipOf store inputs s = m := by
  have hvalue : ∀ {d x}, store.domainOf? s = some d → inputs.get? d = some x →
      (store.domainAt d).grid.contains x = true → membershipOf store inputs s = store.call s x := by
    intro d x hd hx hin
    unfold membershipOf
    rw [inputMembership_of_input hd hx]
    simp [Domain.checkRange, ensure, hin, Except.map, Except.toOption]
  constructor
  · rintro ⟨d, x, hd, hx, hin, rfl⟩
    exact ⟨⟨d, x, hd, hx, hin⟩, hvalue hd hx hin⟩
  · rintro ⟨⟨d, x, hd, hx, hin⟩, rfl⟩
    exact ⟨d, x, hd, hx, hin, (hvalue hd hx hin).symm⟩

/-- The memberships in all the sets can be told and are finite. -/
structure Measurable (store : Store Float) (inputs : Inputs Float) (sets : List SetId) : Prop where
  given : ∀ s ∈ sets, Given store inputs s
  finite : ∀ s ∈ sets, isFinite (membershipOf store inputs s) = true

/-- The smallest of finite memberships: one of them, and none is below it. -/
theorem smallest_spec {s : SetId} {sets : List SetId} (h : Measurable store inputs (s :: sets)) :
    let w := (sets.map (membershipOf store inputs)).foldl lesser (membershipOf store inputs s)
    (∃ t ∈ s :: sets, membershipOf store inputs t = w) ∧
      ∀ t ∈ s :: sets, w ≤ membershipOf store inputs t := by
  intro w
  obtain ⟨hmem, hall⟩ := Double.foldl_lesser (membershipOf store inputs s)
    (sets.map (membershipOf store inputs))
  rw [← List.map_cons (l := sets) (a := s)] at hmem hall
  refine ⟨List.mem_map.mp hmem, fun t ht => ?_⟩
  have hnan := Double.not_isNaN_of_isFinite (h.finite t ht)
  obtain ⟨hw, hle⟩ := hall _ (List.mem_map_of_mem ht) hnan
  exact (Double.le_iff_not_lt hw hnan).mpr hle

/-- The strength of an antecedent is the least membership, where that is positive. -/
theorem strengthOf_cons (s : SetId) (sets : List SetId) :
    strengthOf store inputs (s :: sets) =
      let w := (sets.map (membershipOf store inputs)).foldl lesser (membershipOf store inputs s)
      if (0.0 : Float) < w then some w else none := by
  unfold strengthOf positive
  rw [List.map_cons, least?_cons]
  rfl

/-- **A condition fires with the smallest membership,** or rests. -/
theorem strengthOf_cases {sets : List SetId} (h : Measurable store inputs sets) :
    (∃ w, strengthOf store inputs sets = some w ∧ FiresWith store inputs sets w) ∨
      strengthOf store inputs sets = none ∧ Rests store inputs sets := by
  cases sets with
  | nil => exact Or.inr ⟨if_neg (Double.not_lt_self 0.0), Or.inl rfl⟩
  | cons s sets =>
    obtain ⟨⟨t, ht, hw⟩, hleast⟩ := smallest_spec h
    rw [strengthOf_cons]
    generalize (sets.map (membershipOf store inputs)).foldl lesser (membershipOf store inputs s) = w
      at hw hleast ⊢
    have hattained : HasMembership store inputs t w := hasMembership_iff.mpr ⟨h.given t ht, hw⟩
    -- the smallest membership decides: above 0 so are all of them
    by_cases hpos : (0.0 : Float) < w
    · refine Or.inl ⟨w, if_pos hpos, ⟨t, ht, hattained⟩, fun u hu m hm => ?_⟩
      obtain ⟨-, rfl⟩ := hasMembership_iff.mp hm
      have hzero := Double.within_zero
      have hle := hleast u hu
      have hwf : isFinite w = true := hw ▸ h.finite t ht
      refine ⟨?_, hle⟩
      rw [Double.lt_iff_value hzero.finite hwf] at hpos
      rw [Double.le_iff_value hwf (h.finite u hu)] at hle
      exact (Double.lt_iff_value hzero.finite (h.finite u hu)).mpr (hpos.trans_le hle)
    · exact Or.inr ⟨if_neg hpos, Or.inr ⟨t, ht, w, hattained, hpos⟩⟩

/-- Two weights of one condition are one double. -/
theorem FiresWith.eq {sets : List SetId} {v w : Float} (hv : FiresWith store inputs sets v)
    (hw : FiresWith store inputs sets w) : v = w := by
  obtain ⟨s, hs, hms⟩ := hv.attained
  obtain ⟨t, ht, hmt⟩ := hw.attained
  obtain ⟨hvpos, hwv⟩ := hw.least s hs v hms
  obtain ⟨hwpos, hvw⟩ := hv.least t ht w hmt
  have hvn := (Double.not_isNaN_of_lt hvpos).2
  have hwn := (Double.not_isNaN_of_lt hwpos).2
  exact Double.IsMagnitude.eq_of_not_lt (Or.inr hvpos) (Or.inr hwpos)
    ((Double.le_iff_not_lt hwn hvn).mp hwv) ((Double.le_iff_not_lt hvn hwn).mp hvw)

/-- What fires does not rest. -/
theorem FiresWith.not_rests {sets : List SetId} {w : Float} (h : FiresWith store inputs sets w) :
    ¬ Rests store inputs sets := by
  rintro (rfl | ⟨s, hs, m, hm, hpos⟩)
  · obtain ⟨s, hs, -⟩ := h.attained
    cases hs
  · exact hpos (h.least s hs m hm).1

/-- **What fires is what is found to fire,** condition by condition. -/
theorem fires_iff {conditions : List (Antecedent × SetId)} {fired : List (SetId × Float)}
    (h : ∀ condition ∈ conditions, Measurable store inputs condition.1.sets) :
    Fires store inputs conditions fired ↔ fired = conditions.filterMap (firingOf store inputs) := by
  induction conditions generalizing fired with
  | nil =>
    constructor
    · intro hfires
      cases hfires
      rfl
    · rintro rfl
      exact .nil
  | cons condition conditions ih =>
    obtain ⟨antecedent, consequent⟩ := condition
    obtain ⟨hfirst, hlater⟩ := List.forall_mem_cons.mp h
    rw [List.filterMap_cons, firingOf_eq]
    -- the first condition fires or rests, and not both
    rcases strengthOf_cases hfirst with ⟨w, hstrength, hw⟩ | ⟨hstrength, hrests⟩
    · simp only [hstrength, Option.map_some]
      constructor
      · intro hfires
        cases hfires with
        | fires hv rest => rw [hv.eq hw, (ih hlater).mp rest]
        | rests hrests => exact absurd hrests hw.not_rests
      · rintro rfl
        exact .fires hw ((ih hlater).mpr rfl)
    · simp only [hstrength, Option.map_none]
      constructor
      · intro hfires
        cases hfires with
        | fires hv => exact absurd hrests hv.not_rests
        | rests _ rest => exact (ih hlater).mp rest
      · rintro rfl
        exact .rests hrests ((ih hlater).mpr rfl)

/-- The weights of what fires are finite. -/
theorem Fires.finite {conditions : List (Antecedent × SetId)} {fired : List (SetId × Float)}
    (hfires : Fires store inputs conditions fired)
    (h : ∀ condition ∈ conditions, Measurable store inputs condition.1.sets) :
    ∀ e ∈ fired, isFinite e.2 = true := by
  induction hfires with
  | nil => simp
  | fires hw rest ih =>
    obtain ⟨hfirst, hlater⟩ := List.forall_mem_cons.mp h
    refine List.forall_mem_cons.mpr ⟨?_, ih hlater⟩
    obtain ⟨s, hs, hm⟩ := hw.attained
    exact (hasMembership_iff.mp hm).2 ▸ hfirst.finite s hs
  | rests _ rest ih => exact ih (List.forall_mem_cons.mp h).2

end Fires

/-! ## The curve of what fired -/

/-- The largest membership at a point of the fired consequents, each clipped at its weight, or 0. -/
structure Joined (store : Store Float) (fired : List (SetId × Float)) (x m : Float) : Prop where
  magnitude : Double.IsMagnitude m
  attained : m = 0.0 ∨ ∃ e ∈ fired, m = lesser e.2 (store.call e.1 x)
  largest : ∀ e ∈ fired, lesser e.2 (store.call e.1 x) ≤ m

section Curve

variable {store : Store Float} {fired : List (SetId × Float)}

/-- A number clipped at a finite one is a number, and not above it. -/
theorem clipped_spec {w : Float} (hw : isFinite w = true) (v : Float) :
    isNaN (lesser w v) = false ∧ ¬ w < lesser w v :=
  Double.not_lt_lesser w v w (List.mem_cons_self ..) (Double.not_isNaN_of_isFinite hw)

/-- The joined curve is the maximum of the clipped memberships and 0. -/
theorem joined_iff (hfinite : ∀ e ∈ fired, isFinite e.2 = true) {x m : Float} :
    Joined store fired x m ↔
      m = (fired.map fun e => lesser e.2 (store.call e.1 x)).foldl greater 0.0 := by
  obtain ⟨hmagnitude, hmem, hall⟩ := Double.foldl_greater (Or.inl rfl)
    (fired.map fun e => lesser e.2 (store.call e.1 x))
  generalize (fired.map fun e => lesser e.2 (store.call e.1 x)).foldl greater 0.0 = largest
    at hmagnitude hmem hall ⊢
  have hlargest : Joined store fired x largest := by
    refine ⟨hmagnitude, ?_, fun e he => ?_⟩
    · rcases List.mem_cons.mp hmem with h | h
      · exact Or.inl h
      · obtain ⟨e, he, h⟩ := List.mem_map.mp h
        exact Or.inr ⟨e, he, h.symm⟩
    · have hclipped := (clipped_spec (hfinite e he) (store.call e.1 x)).1
      exact (Double.le_iff_not_lt hclipped hmagnitude.not_isNaN).mpr
        (hall _ (List.mem_cons_of_mem _ (List.mem_map_of_mem he)))
  -- either of two joined memberships is 0 or one of the clipped ones, and so not above the other
  have hnot_lt : ∀ {u v}, Joined store fired x u → Joined store fired x v → ¬ u < v := by
    intro u v hu hv huv
    rcases hv.attained with rfl | ⟨e, he, rfl⟩
    · rcases hu.magnitude with rfl | hpos
      · exact Double.not_lt_self _ huv
      · exact Double.not_lt_of_lt hpos huv
    · have hle := hu.largest e he
      exact (Double.le_iff_not_lt hv.magnitude.not_isNaN hu.magnitude.not_isNaN).mp hle huv
  constructor
  · intro hm
    exact hm.magnitude.eq_of_not_lt hmagnitude (hnot_lt hm hlargest) (hnot_lt hlargest hm)
  · rintro rfl
    exact hlargest

/-- **The joined curve** is the one of the joined memberships. -/
theorem forall₂_joined_iff (hfinite : ∀ e ∈ fired, isFinite e.2 = true) {points curve : List Float} :
    List.Forall₂ (Joined store fired) points curve ↔ curve = aggregate store points fired := by
  have hjoined : Joined store fired = fun x m =>
      (fired.map fun e => lesser e.2 (store.call e.1 x)).foldl greater 0.0 = m := by
    funext x m
    exact propext ((joined_iff hfinite).trans eq_comm)
  rw [hjoined, ← List.forall₂_map_left_iff (f := fun x : Float =>
    (fired.map fun e => lesser e.2 (store.call e.1 x)).foldl greater 0.0) (R := Eq),
    List.forall₂_eq_eq_eq, eq_comm]
  rfl

/-- Clipping by finite strengths keeps the joined curve finite, whatever the functions give. -/
theorem Joined.finite (hfinite : ∀ e ∈ fired, isFinite e.2 = true) {x m : Float}
    (h : Joined store fired x m) : isFinite m = true := by
  rcases h.attained with rfl | ⟨e, he, hm⟩
  · exact Double.within_zero.finite
  · by_contra hinfinite
    obtain ⟨s, hs⟩ := Double.infinity_of_not_isFinite h.magnitude.not_isNaN hinfinite
    obtain ⟨-, hnot⟩ := clipped_spec (hfinite e he) (store.call e.1 x)
    rw [← hm] at hnot
    cases s
    · rcases h.magnitude with rfl | hpos
      · exact hinfinite Double.within_zero.finite
      · exact Double.not_lt_of_lt hpos (Double.infinity_lt hs Double.within_zero.finite)
    · exact hnot (Double.lt_infinity (hfinite e he) hs)

end Curve

/-! ## Methods that always answer -/

/-- A finite double is no distance from itself. -/
theorem abs_sub_self_lt {m : Float} (h : isFinite m = true) :
    abs (m - m) < (maximumTolerance : Float) := by
  have hsub : Double.Within 0 0 (m - m) :=
    (Double.rounds_sub h h).within Double.exact_zero Double.exact_zero (by simp) (by simp)
  have habs := Double.within_abs hsub.finite
  have hpos : (0.0 : Float) < maximumTolerance := by decide +kernel
  have htolerance : isFinite (maximumTolerance : Float) = true := by decide +kernel
  rw [Double.lt_iff_value Double.within_zero.finite htolerance, Double.within_zero.value_eq] at hpos
  rw [Double.lt_iff_value habs.finite htolerance, habs.value_eq, hsub.value_eq, abs_zero]
  exact hpos

/-- A curve of finite doubles is largest somewhere. -/
theorem maximalPoints_ne_nil {points curve : List Float} (hlen : points.length = curve.length)
    (hne : curve ≠ []) (hfinite : ∀ m ∈ curve, isFinite m = true) :
    maximalPoints points curve ≠ [] :=
  maximalPoints_ne_nil_of_close hlen hne fun m hm => abs_sub_self_lt (hfinite m hm)

/-- **Every method but the center of gravity has an answer** for a curve of finite doubles over some
    points. -/
theorem apply_eq_some {method : Method} (hmethod : method ≠ .cog) {points curve : List Float}
    (step : Float) (hlen : points.length = curve.length) (hne : points ≠ [])
    (hfinite : ∀ m ∈ curve, isFinite m = true) : ∃ v, method.apply points curve step = some v := by
  have hne' : curve ≠ [] := by
    rintro rfl
    exact hne (List.length_eq_zero_iff.mp hlen)
  obtain ⟨p, ps, hmaximal⟩ := List.exists_cons_of_ne_nil (maximalPoints_ne_nil hlen hne' hfinite)
  cases method with
  | cog => exact absurd rfl hmethod
  -- the fallback of the bisector is the last point
  | bisector =>
    have hlast : points.getLast?.isSome = true := by simpa using hne
    refine Option.isSome_iff_exists.mp ?_
    show (Option.or _ _).isSome = true
    rw [Option.isSome_or, hlast, Bool.or_true]
  | mom =>
    show ∃ v, mom points curve = some v
    unfold mom
    rw [hmaximal]
    exact ⟨_, rfl⟩
  | som =>
    show ∃ v, pickBy lesser (maximalPoints points curve) = some v
    rw [hmaximal]
    exact ⟨_, rfl⟩
  | lom =>
    show ∃ v, pickBy greater (maximalPoints points curve) = some v
    rw [hmaximal]
    exact ⟨_, rfl⟩

/-! ## What is inferred -/

/-- What a method makes of what fired: the mean of the centers of gravity, weighted, or what the method
    answers for the joined curve. -/
inductive Defuzzified (store : Store Float) (d : DomainId) (fired : List (SetId × Float)) :
    Method → Float → Prop
  | cog : Defuzzified store d fired .cog (meanOfCenters store d fired)
  | curve {method curve v} (hmethod : method ≠ .cog)
      (joined : List.Forall₂ (Joined store fired) (store.domainAt d).range curve)
      (answer : method.apply (store.domainAt d).range curve (store.domainAt d).step = some v) :
      Defuzzified store d fired method v

theorem Store.Made.range_ne_nil {store : Store Float} {d : DomainId} (h : store.Made d) :
    (store.domainAt d).range ≠ [] := by
  obtain ⟨domain, hmake, hgrid⟩ := h
  rw [(Domain.make_eq_ok_iff.mp hmake).2.2.2.2] at hgrid
  have hlen : 0 < (store.domainAt d).grid.len := by
    rw [← hgrid]
    exact Nat.succ_pos _
  show (List.range (store.domainAt d).grid.len).map _ ≠ []
  rw [ne_eq, List.map_eq_nil_iff, List.range_eq_nil]
  exact hlen.ne'

namespace Rule

variable {store : Store Float} {rule : Rule} {inputs : Inputs Float} {d : DomainId}

theorem forall_mem_antecedentSets {P : SetId → Prop} :
    (∀ s ∈ rule.antecedentSets, P s) ↔
      ∀ condition ∈ rule.conditions.entries, ∀ s ∈ condition.1.sets, P s := by
  simp only [antecedentSets, OrderedMap.keys, List.mem_flatMap, List.mem_map]
  constructor
  · intro h condition hcondition s hs
    exact h s ⟨condition.1, ⟨condition, hcondition, rfl⟩, hs⟩
  · rintro h s ⟨-, ⟨condition, hcondition, rfl⟩, hs⟩
    exact h condition hcondition s hs

/-- Defuzzifying what fired answers, and answers what is made of it. -/
theorem settled_eq {fired : List (SetId × Float)} (hstore : Store.Reachable store)
    (hd : store.HasDomain d) (hne : fired ≠ []) (hreached : ∀ e ∈ fired, store.domainOf? e.1 = some d)
    (hpos : ∀ e ∈ fired, (0.0 : Float) < e.2) (hfinite : ∀ e ∈ fired, isFinite e.2 = true)
    (method : Method) :
    ∃ v, settled method d store fired = some (some v) ∧
      ∀ u, Defuzzified store d fired method u ↔ u = v := by
  by_cases hmethod : method = .cog
  · subst hmethod
    refine ⟨_, settled_cog hstore.coherent hne hreached hpos, fun u => ⟨?_, ?_⟩⟩
    · rintro (- | ⟨hmethod, -, -⟩)
      · rfl
      · exact absurd rfl hmethod
    · rintro rfl
      exact .cog
  · -- the joined curve is the only one there is, and it is finite, so the method finds a point of it
    have hjoined : List.Forall₂ (Joined store fired) (store.domainAt d).range
        (aggregate store (store.domainAt d).range fired) := (forall₂_joined_iff hfinite).mpr rfl
    have hvalues : ∀ m ∈ aggregate store (store.domainAt d).range fired, isFinite m = true := by
      intro m hm
      obtain ⟨x, -, rfl⟩ := List.mem_map.mp hm
      exact ((joined_iff hfinite).mpr rfl).finite hfinite
    obtain ⟨v, hv⟩ := apply_eq_some hmethod (store.domainAt d).step hjoined.length_eq
      (hstore.made hd).range_ne_nil hvalues
    refine ⟨v, ?_, fun u => ⟨?_, ?_⟩⟩
    · have hcurve : curveOf store method d fired = some v := hv
      rw [settled_of_ne_nil method d store hne, defuzzify_curve hmethod, hcurve]
      rfl
    · rintro (- | ⟨-, hother, hanswer⟩)
      · exact absurd rfl hmethod
      · rw [(forall₂_joined_iff hfinite).mp hother, hv] at hanswer
        exact (Option.some.inj hanswer).symm
    · rintro rfl
      exact .curve hmethod hjoined hv

/-- Where all sets can be evaluated, inference answers what is made of what fired. -/
theorem evaluate_of_given (hstore : Store.Reachable store) (hne : rule.consequents ≠ [])
    (htarget : ∀ s ∈ rule.consequents, store.domainOf? s = some d)
    (hmeasurable : ∀ condition ∈ rule.conditions.entries, Measurable store inputs condition.1.sets)
    (method : Method) :
    ∃ fired, (∀ others, Fires store inputs rule.conditions.entries others ↔ others = fired) ∧
      firings store inputs rule = .ok fired ∧
      ∃ answer?, (rule.evaluate inputs method store).1 = .ok answer? ∧ (answer? = none ↔ fired = []) ∧
        ∀ v, answer? = some v ↔ fired ≠ [] ∧ Defuzzified store d fired method v := by
  obtain ⟨first, rest, hconsequents⟩ := List.exists_cons_of_ne_nil hne
  have hd : store.HasDomain d :=
    Store.hasDomain_of_domainOf? (htarget first (by rw [hconsequents]; exact List.mem_cons_self ..))
  have hfired : firings store inputs rule =
      .ok (rule.conditions.entries.filterMap (firingOf store inputs)) :=
    firings_eq_ok_iff.mpr ⟨fun condition hcondition => (hmeasurable condition hcondition).given, rfl⟩
  have hfinite := ((fires_iff hmeasurable).mpr rfl).finite hmeasurable
  refine ⟨_, fun others => fires_iff hmeasurable, hfired, ?_⟩
  have houtcome := toOption_evaluate htarget inputs method
  rw [hfired] at houtcome
  -- from here on only the list of what fires matters
  generalize rule.conditions.entries.filterMap (firingOf store inputs) = fired at hfired hfinite houtcome ⊢
  by_cases hnil : fired = []
  · subst hnil
    exact ⟨none, outcome_of_toOption houtcome, by simp, by simp⟩
  · obtain ⟨v, hsettled, hv⟩ := settled_eq hstore hd hnil
      (fun e he => htarget _ (fired_of_firings hfired he).1)
      (fun e he => (fired_of_firings hfired he).2) hfinite method
    refine ⟨some v, outcome_of_toOption (houtcome.trans hsettled), by simp [hnil], fun u => ?_⟩
    rw [hv, Option.some_inj, eq_comm]
    exact (and_iff_right hnil).symm

/-- **What a rule means.** Let the consequents of a rule with conditions share a living target and the
    memberships of the inputs in its antecedents be finite. Inference fails just when some set of some
    antecedent reaches no domain, or one without a value in range. Otherwise it answers what the method
    makes of the conditions that fire, and nothing if none of them does. A memo of true memberships
    does not show: the conditions could as well be evaluated each on its own. -/
theorem evaluate_meaning (hstore : Store.Reachable store) (hne : rule.consequents ≠ [])
    (htarget : ∀ s ∈ rule.consequents, store.domainOf? s = some d)
    (hfinite : ∀ s ∈ rule.antecedentSets, ∀ m, HasMembership store inputs s m → isFinite m = true)
    (method : Method) :
    ((∃ e, (rule.evaluate inputs method store).1 = .error e) ↔
      ∃ s ∈ rule.antecedentSets, ¬ Given store inputs s) ∧
    ((∀ s ∈ rule.antecedentSets, Given store inputs s) →
      ∃ fired, (∀ others, Fires store inputs rule.conditions.entries others ↔ others = fired) ∧
        firings store inputs rule = .ok fired ∧
        ∃ answer?, (rule.evaluate inputs method store).1 = .ok answer? ∧
          (answer? = none ↔ fired = []) ∧
          ∀ v, answer? = some v ↔ fired ≠ [] ∧ Defuzzified store d fired method v) ∧
    ∀ memo, Recorded store inputs memo →
      firingsFrom store inputs memo rule.conditions.entries =
        plainFirings store inputs rule.conditions.entries := by
  have hgiven : (∀ s ∈ rule.antecedentSets, Given store inputs s) → ∀ condition ∈ rule.conditions.entries,
      Measurable store inputs condition.1.sets := by
    intro hgiven condition hcondition
    have hsets := forall_mem_antecedentSets.mp hgiven condition hcondition
    refine ⟨hsets, fun s hs => ?_⟩
    exact forall_mem_antecedentSets.mp hfinite condition hcondition s hs _
      (hasMembership_iff.mpr ⟨hsets s hs, rfl⟩)
  -- with all memberships given there is an answer, so an error means that one is missing
  refine ⟨?_, fun h => evaluate_of_given hstore hne htarget (hgiven h) method,
    fun memo hmemo => firingsFrom_eq hmemo rule.conditions.entries⟩
  constructor
  · rintro ⟨e, he⟩
    by_contra hall
    have hall : ∀ s ∈ rule.antecedentSets, Given store inputs s := by simpa using hall
    obtain ⟨-, -, -, answer?, hanswer, -⟩ := evaluate_of_given hstore hne htarget (hgiven hall) method
    rw [he] at hanswer
    cases hanswer
  · rintro ⟨s, hs, hmissing⟩
    have houtcome := toOption_evaluate htarget inputs method
    cases hfired : firings store inputs rule with
    | ok fired =>
      have hsets := forall_mem_antecedentSets.mpr (firings_eq_ok_iff.mp hfired).1
      exact absurd (hsets s hs) hmissing
    | error e =>
      rw [hfired] at houtcome
      cases hanswer : (rule.evaluate inputs method store).1 with
      | error e => exact ⟨e, rfl⟩
      | ok answer? =>
        rw [hanswer] at houtcome
        cases houtcome

/-- Three input sets, the last one empty, and two consequents of one target. -/
def restingConditions : Store Float := Store.empty.runAll [
  .newDomain "x" 0.0 10.0 none, .newDomain "t" 0.0 4.0 none,
  .registerFunction ⟨0⟩ "any" (.shape (.constant 1.0)),
  .registerFunction ⟨0⟩ "half" (.shape (.constant 0.5)),
  .registerFunction ⟨0⟩ "never" (.shape (.constant 0.0)),
  .registerFunction ⟨1⟩ "all" (.shape (.constant 1.0)),
  .registerFunction ⟨1⟩ "spike" (.shape (.singleton 3.0 0.0 1.0))]

/-- Of four conditions the one without sets and the one that asks for the empty set rest. -/
def twoOfFour : Rule := ⟨.ofList [(.ofList [⟨0⟩, ⟨1⟩], ⟨3⟩), (.ofList [], ⟨4⟩), (.ofList [⟨0⟩, ⟨2⟩], ⟨3⟩),
  (.ofList [⟨0⟩], ⟨4⟩)]⟩

/-- With an input two conditions fire, and the mean of the maximum is the spike. Without one nothing is
    inferred but a failure. -/
theorem evaluate_meaning_twoOfFour :
    (∃ fired : List (SetId × Float), fired = [(⟨3⟩, 0.5), (⟨4⟩, 1.0)] ∧
      Fires restingConditions (.ofList [(⟨0⟩, 5)]) twoOfFour.conditions.entries fired ∧
      Defuzzified restingConditions ⟨1⟩ fired .mom 3.0) ∧
    ∃ e, (twoOfFour.evaluate .empty .mom restingConditions).1 = .error e := by
  have hrun : Store.Reachable restingConditions := Store.reachable_runAll (by decide +kernel)
  have hne : twoOfFour.consequents ≠ [] := by decide +kernel
  have htarget : ∀ s ∈ twoOfFour.consequents, restingConditions.domainOf? s = some ⟨1⟩ := by
    decide +kernel
  have hvalues : ∀ s ∈ twoOfFour.antecedentSets,
      isFinite (membershipOf restingConditions (.ofList [(⟨0⟩, 5)]) s) = true := by decide +kernel
  have hfired : firings restingConditions (.ofList [(⟨0⟩, 5)]) twoOfFour =
      .ok [(⟨3⟩, 0.5), (⟨4⟩, 1.0)] := outcome_of_toOption (by decide +kernel)
  have hanswer : (twoOfFour.evaluate (.ofList [(⟨0⟩, 5)]) .mom restingConditions).1 = .ok (some 3.0) :=
    outcome_of_toOption (by decide +kernel)
  constructor
  · obtain ⟨fired, hfires, hfirings, answer?, houtcome, -, hvalue⟩ :=
      (evaluate_meaning hrun hne htarget (fun s hs m hm => (hasMembership_iff.mp hm).2 ▸ hvalues s hs)
        .mom).2.1 (forall_mem_antecedentSets.mpr (firings_eq_ok_iff.mp hfired).1)
    rw [hfired] at hfirings
    rw [hanswer] at houtcome
    cases hfirings
    cases houtcome
    exact ⟨_, rfl, (hfires _).mpr rfl, ((hvalue 3.0).mp rfl).2⟩
  · -- without inputs nothing has a membership, so the rule fails
    have hnothing : ∀ s : SetId, ¬ Given restingConditions .empty s := by
      rintro s ⟨d, x, -, hx, -⟩
      rw [OrderedMap.get?_empty] at hx
      cases hx
    refine (evaluate_meaning hrun hne htarget (fun s _ m hm => ?_) .mom).1.mpr
      ⟨⟨0⟩, by decide +kernel, hnothing ⟨0⟩⟩
    exact absurd (hasMembership_iff.mp hm).1 (hnothing s)

end Rule

end FuzzyInference

import FuzzyInference.Proofs.Store.Registry

/-!
# What is kept is right

A set keeps its memberships and its center of gravity once they were computed. In every run these are
what computing them again from the set's own function and the domain it is bound to would give: a set is
bound once, and neither a function nor the parameters of a domain ever change.

## Contents
- `ArrayFits`, `CenterFits`: what a kept value has to be.
- `Coherent`, `Change.coherent`, `Changes.coherent`, `Reachable.coherent`.
- `Made`, `Reachable.made`: every domain has passed the conditions on its parameters.
-/

namespace FuzzyInference

namespace Store

variable {α : Type} [Scalar α]

/-! ## Kept values -/

/-- The memberships of a set on the sample points that its domain gives it. -/
def ArrayFits (store : Store α) (s : SetId) (values : List α) : Prop :=
  ∃ d, (store.setAt s).domain? = some d ∧ store.HasDomain d ∧
    values = store.sampled s (pointsOf (store.domainAt d).grid (store.setAt s).func)

/-- The spike of a set, or else the centroid of its memberships on its sample points. -/
def CenterFits (store : Store α) (s : SetId) (c : α) : Prop :=
  (store.setAt s).func.spike? = some c ∨
    (store.setAt s).func.spike? = none ∧ ∃ d, (store.setAt s).domain? = some d ∧
      store.HasDomain d ∧
      c = (centroid (pointsOf (store.domainAt d).grid (store.setAt s).func)
        (store.sampled s (pointsOf (store.domainAt d).grid (store.setAt s).func))).getD 0.0

/-- All kept values are what they have to be. -/
structure Coherent (store : Store α) : Prop where
  array : ∀ s values, (store.setAt s).array? = some values → store.ArrayFits s values
  center : ∀ s c, (store.setAt s).center? = some c → store.CenterFits s c

/-- Functions do not change, so a set's memberships at given points do not either. -/
theorem sampled_eq {before after : Store α} (hext : Extends before after) {s : SetId}
    (hs : before.HasSet s) (points : List α) : after.sampled s points = before.sampled s points := by
  unfold sampled
  rw [hext.func hs]

/-- A kept array that fits goes on fitting in every extension of the store. -/
theorem ArrayFits.mono {before after : Store α} {s : SetId} {values : List α}
    (h : before.ArrayFits s values) (hext : Extends before after) : after.ArrayFits s values := by
  obtain ⟨d, hbound, hdomain, hvalues⟩ := h
  have hs := hasSet_of_bound hbound
  refine ⟨d, hext.bound hbound, hext.hasDomain hdomain, ?_⟩
  rw [hext.func hs, hext.grid hdomain, sampled_eq hext hs, hvalues]

theorem CenterFits.mono {before after : Store α} {s : SetId} {c : α}
    (h : before.CenterFits s c) (hext : Extends before after) : after.CenterFits s c := by
  rcases h with hspike | ⟨hspike, d, hbound, hdomain, hc⟩
  · left
    rw [hext.func (hasSet_of_spike hspike)]
    exact hspike
  · have hs := hasSet_of_bound hbound
    refine Or.inr ⟨?_, d, hext.bound hbound, hext.hasDomain hdomain, ?_⟩
    · rw [hext.func hs]
      exact hspike
    · rw [hext.func hs, hext.grid hdomain, sampled_eq hext hs, hc]

/-! ## Steps and runs -/

theorem hasDomain_of_domainOf? {store : Store α} {s : SetId} {d : DomainId}
    (h : store.domainOf? s = some d) : store.HasDomain d :=
  hasDomain_of_isLive (domainOf?_eq_some_iff.mp h).2

omit [Scalar α] in
/-- A new set keeps nothing yet. -/
theorem kept_of_addFresh (store : Store α) (func : Membership α) (domain? : Option DomainId)
    (s : SetId) :
    ((store.addFresh func domain?).2.setAt s).array? = (store.setAt s).array? ∧
      ((store.addFresh func domain?).2.setAt s).center? = (store.setAt s).center? ∨
    ((store.addFresh func domain?).2.setAt s).array? = none ∧
      ((store.addFresh func domain?).2.setAt s).center? = none := by
  rcases setAt_addFresh_cases store func domain? s with hs | ⟨-, hs⟩ <;> rw [hs]
  · exact Or.inl ⟨rfl, rfl⟩
  · exact Or.inr ⟨rfl, rfl⟩

/-- What memberships a set keeps after a change it kept before, or they were just computed, at the
    points of a domain that it reaches. -/
theorem Change.array_cases {before after : Store α} (h : Change before after) {s : SetId}
    {values : List α} (hkept : (after.setAt s).array? = some values) :
    (before.setAt s).array? = some values ∨
      before.ArrayFits s values ∧ (before.domainOf? s).isSome = true := by
  -- an array is newly kept by sampling alone; a fresh set has none
  cases h with
  | makeSet func =>
    rcases kept_of_addFresh before func none s with ⟨hs, -⟩ | ⟨hs, -⟩ <;> rw [hs] at hkept
    · exact Or.inl hkept
    · cases hkept
  | deriveSet t func =>
    rcases kept_of_addFresh before func (before.setAt t).domain? s with ⟨hs, -⟩ | ⟨hs, -⟩ <;> rw [hs] at hkept
    · exact Or.inl hkept
    · cases hkept
  | @keepArray t points _ sampled =>
    rcases setAt_modifySet_cases before s t fun set =>
      { set with array? := some (points.map fun x => (before.setAt t).func.evaluate x) } with
      hs | ⟨rfl, -, hs⟩ <;> rw [hs] at hkept
    · exact Or.inl hkept
    · obtain ⟨d, hd, rfl⟩ := samplePoints_eq_ok_iff.mp sampled
      exact Or.inr ⟨⟨d, (domainOf?_eq_some_iff.mp hd).1, hasDomain_of_domainOf? hd,
        (Option.some.inj hkept).symm⟩, by rw [hd]; rfl⟩
  | bind _ | call _ | keepSpike _ _ | keepCentroid _ _ _ _ =>
    refine Or.inl (Eq.trans (Eq.symm ?_) hkept)
    refine read_modifySet FuzzySet.array? ?_ before s _
    exact fun _ => rfl
  | _ => exact Or.inl hkept

/-- The same for the center of gravity, which is computed from kept memberships. -/
theorem Change.center_cases {before after : Store α} (h : Change before after)
    (coherent : before.Coherent) {s : SetId} {c : α}
    (hkept : (after.setAt s).center? = some c) :
    (before.setAt s).center? = some c ∨ before.CenterFits s c ∧
      ((before.setAt s).func.spike? = some c ∨ (before.domainOf? s).isSome = true) := by
  cases h with
  | makeSet func =>
    rcases kept_of_addFresh before func none s with ⟨-, hs⟩ | ⟨-, hs⟩ <;> rw [hs] at hkept
    · exact Or.inl hkept
    · cases hkept
  | deriveSet t func =>
    rcases kept_of_addFresh before func (before.setAt t).domain? s with ⟨-, hs⟩ | ⟨-, hs⟩ <;> rw [hs] at hkept
    · exact Or.inl hkept
    · cases hkept
  | @keepSpike t e _ spike =>
    rcases setAt_modifySet_cases before s t fun set => { set with center? := some e } with
      hs | ⟨rfl, -, hs⟩ <;> rw [hs] at hkept
    · exact Or.inl hkept
    · rw [← Option.some.inj hkept]
      exact Or.inr ⟨Or.inl spike, Or.inl spike⟩
  | @keepCentroid t points values _ spike sampled array =>
    rcases setAt_modifySet_cases before s t fun set =>
      { set with center? := some ((centroid points values).getD 0.0) } with
      hs | ⟨rfl, -, hs⟩ <;> rw [hs] at hkept
    · exact Or.inl hkept
    · obtain ⟨d, hd, rfl⟩ := samplePoints_eq_ok_iff.mp sampled
      have hbound := (domainOf?_eq_some_iff.mp hd).1
      -- the memberships may be older than this computation, but they still fit
      obtain ⟨e, he, -, rfl⟩ := coherent.array s values array
      obtain rfl : d = e := Option.some.inj (hbound.symm.trans he)
      exact Or.inr ⟨Or.inr ⟨spike, d, hbound, hasDomain_of_domainOf? hd,
        (Option.some.inj hkept).symm⟩, Or.inr (by rw [hd]; rfl)⟩
  | bind _ | call _ | keepArray _ _ =>
    refine Or.inl (Eq.trans (Eq.symm ?_) hkept)
    refine read_modifySet FuzzySet.center? ?_ before s _
    exact fun _ => rfl
  | _ => exact Or.inl hkept

/-- Each way a store can change keeps it coherent: what is newly kept is computed from what is
there. -/
theorem Change.coherent {before after : Store α} (h : Change before after)
    (coherent : before.Coherent) : after.Coherent where
  array s values hkept := by
    rcases h.array_cases hkept with hold | ⟨hnew, -⟩
    · exact (coherent.array s values hold).mono h.extends
    · exact hnew.mono h.extends
  center s c hkept := by
    rcases h.center_cases coherent hkept with hold | ⟨hnew, -⟩
    · exact (coherent.center s c hold).mono h.extends
    · exact hnew.mono h.extends

theorem Changes.coherent {before after : Store α} (h : Changes before after)
    (coherent : before.Coherent) : after.Coherent := by
  induction h with
  | refl => exact coherent
  | tail _ step ih => exact step.coherent ih

theorem coherent_placed (place : SetId → ℕ) : Coherent (placed place : Store α) := by
  have hfresh : ∀ s, (placed place : Store α).setAt s = .fresh (.shape .identity) none :=
    fun s => setAt_of_not_hasSet (by simp [HasSet, placed])
  constructor
  · intro s values h
    rw [hfresh] at h
    cases h
  · intro s c h
    rw [hfresh] at h
    cases h

/-- **What is kept is right, in every run.** -/
theorem Reachable.coherent {store : Store α} (h : Reachable store) : store.Coherent :=
  h.invariant coherent_placed Change.coherent

/-! ## The parameters of domains -/

/-- The parameters of a domain pass the conditions on them, and its grid is the one that they make. -/
def Made (store : Store α) (d : DomainId) : Prop :=
  ∃ domain, Domain.make (store.domainAt d).name (store.domainAt d).grid.low
    (store.domainAt d).grid.high (store.domainAt d).res = .ok domain ∧
      domain.grid = (store.domainAt d).grid

/-- A domain made as the constructor makes it stays one. -/
theorem Made.mono {before after : Store α} {d : DomainId} (h : before.Made d)
    (hd : before.HasDomain d) (hext : Extends before after) : after.Made d := by
  unfold Made
  rw [hext.domainName hd, hext.grid hd, hext.res hd]
  exact h

/-- Every domain of a later store was there before, or was made in this step. -/
theorem Change.made {before after : Store α} (h : Change before after)
    (made : ∀ d, before.HasDomain d → before.Made d) {d : DomainId} (hd : after.HasDomain d) :
    after.Made d := by
  by_cases hold : before.HasDomain d
  · exact (made d hold).mono hold h.extends
  · cases h with
    | @makeDomain name low high res domain hmake =>
      have hnew := domainAt_addDomain_of_new hold hd
      obtain rfl := (Domain.make_eq_ok_iff.mp hmake).2.2.2.2
      refine ⟨_, ?_, rfl⟩
      rw [hnew]
      exact hmake
    | enter _ _ _ | leave _ _ | retain _ | release _ =>
      exact absurd (hasDomain_modifyDomain.mp hd) hold
    | _ => exact absurd hd hold

/-- **Every domain has passed its conditions, in every run.** -/
theorem Reachable.made {store : Store α} (h : Reachable store) :
    ∀ {d}, store.HasDomain d → store.Made d :=
  fun {d} hd => h.invariant (P := fun store => ∀ d, store.HasDomain d → store.Made d)
    (fun _ d hd => absurd hd (by simp [HasDomain, placed])) (fun change made _ => change.made made) d hd

end Store

end FuzzyInference

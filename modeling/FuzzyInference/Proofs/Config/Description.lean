import FuzzyInference.Proofs.Store.Acceptance

/-!
# Building and describing are inverse

A description that is built is described as it was, and a domain that is described is built as it was:
with the same parameters, grid and names, and with the same memberships. The second half needs that
whatever a domain holds is accepted again, which is what runs keep: the parameters of domains have
passed their conditions, the names in registries are identifiers, and functions that were made by the
constructors and the operators on sets pass the conditions on functions.

## Contents
- `SameDomain`: what a domain and its copy have in common.
- `build_ofDomain`: both directions.
-/

namespace FuzzyInference

namespace DomainConfig

open Store Scalar

/-- Two domains, each in a store, that a user of one could take for the other: they have the same
    parameters, the same sample points, and under the same names, in the same order, sets with the same
    memberships everywhere. -/
structure SameDomain {α : Type} [Scalar α] (store : Store α) (d : DomainId) (other : Store α)
    (e : DomainId) : Prop where
  name : (other.domainAt e).name = (store.domainAt d).name
  low : (other.domainAt e).grid.low = (store.domainAt d).grid.low
  high : (other.domainAt e).grid.high = (store.domainAt d).grid.high
  res : (other.domainAt e).res = (store.domainAt d).res
  range : (other.domainAt e).range = (store.domainAt d).range
  step : (other.domainAt e).step = (store.domainAt d).step
  names : (other.domainAt e).sets.keys = (store.domainAt d).sets.keys
  calls : ∀ name x, ((other.domainAt e).sets.get? name).map (fun t => other.call t x) =
    ((store.domainAt d).sets.get? name).map fun s => store.call s x

section

variable {α : Type} [Scalar α]

/-- Domains with one description differ in their grids at most. -/
theorem sameDomain_of_ofDomain {store other : Store α} {d e : DomainId}
    (h : ofDomain other e = ofDomain store d)
    (hgrid : (other.domainAt e).grid = (store.domainAt d).grid) : SameDomain store d other e := by
  have hsets := congrArg DomainConfig.sets h
  refine ⟨congrArg DomainConfig.name h, congrArg DomainConfig.low h, congrArg DomainConfig.high h,
    congrArg DomainConfig.res h, congrArg Grid.points hgrid, congrArg Grid.step hgrid, ?_, ?_⟩
  · have hkeys := congrArg OrderedMap.keys hsets
    rwa [ofDomain, ofDomain, OrderedMap.keys_mapValues, OrderedMap.keys_mapValues] at hkeys
  · intro name x
    have hget := congrArg (fun m => (m.get? name).map (Membership.evaluate x)) hsets
    simp only [ofDomain, OrderedMap.get?_mapValues, Option.map_map] at hget
    exact hget

/-- A domain that was built has the grid that its parameters make. -/
theorem grid_of_build {config : DomainConfig α} {store later : Store α} {d : DomainId}
    (h : config.build store = (.ok d, later)) :
    (later.domainAt d).grid = .ofResolution config.low config.high config.res := by
  obtain ⟨-, made, hmade, hrun⟩ := build_eq_ok_iff.mp h
  obtain ⟨domain, hmake, rfl, rfl⟩ := newDomain_eq_ok_iff.mp hmade
  have hext := (changes_registerAll (store.addDomain domain).1 config.sets.entries
    (store.addDomain domain).2).extends
  rw [hrun] at hext
  rw [hext.grid (hasDomain_addDomain_self store domain), domainAt_addDomain_self,
    (Domain.make_eq_ok_iff.mp hmake).2.2.2.2]

end

/-- What a domain of such a run is described as can be built, and becomes the same domain again. -/
theorem build_of_built {store : Store Float} (h : Built store) {d : DomainId}
    (hd : store.HasDomain d) (other : Store Float) :
    ∃ e later, (ofDomain store d).build other = (.ok e, later) ∧ SameDomain store d later e := by
  obtain ⟨domain, hmake, hgrid⟩ := h.reachable.made hd
  obtain ⟨e, later, hbuild⟩ : ∃ e later, (ofDomain store d).build other = (.ok e, later) := by
    refine build_succeeds_iff.mpr ⟨fun func hfunc => ?_, ⟨domain, hmake⟩, fun name hname => ?_⟩
    · obtain ⟨entry, hentry, rfl⟩ := List.mem_map.mp hfunc
      obtain ⟨named, -, rfl⟩ := List.mem_map.mp hentry
      exact h.accepted named.2
    · rw [ofDomain, OrderedMap.keys_mapValues] at hname
      obtain ⟨entry, hentry, rfl⟩ := List.mem_map.mp hname
      exact (h.reachable.consistent d entry.1 entry.2 hentry).identifier
  refine ⟨e, later, hbuild, sameDomain_of_ofDomain (ofDomain_build hbuild) ?_⟩
  rw [grid_of_build hbuild, ← hgrid, (Domain.make_eq_ok_iff.mp hmake).2.2.2.2]
  rfl

/-- **Building and describing are inverse.** A description is built just when its functions, its
    parameters and its names are accepted, and the domain it becomes is described as it was, with the
    sets in the same order. After a run in which every function that was handed in was made by the
    constructors, whatever operators were applied to sets, all functions are accepted and hold no NaN,
    and what a domain is described as can be built, anywhere, and becomes the same domain again. -/
theorem build_ofDomain :
    (∀ (config : DomainConfig Float) (store : Store Float),
      ((∃ d later, config.build store = (.ok d, later)) ↔
        (∀ func ∈ config.sets.values, func.validate = .ok ()) ∧
        (∃ domain, Domain.make config.name config.low config.high config.res = .ok domain) ∧
        ∀ name ∈ config.sets.keys, Text.isIdentifier name = true) ∧
      ∀ d later, config.build store = (.ok d, later) → ofDomain later d = config) ∧
    ∀ store, Built store →
      (∀ s, (store.setAt s).func.validate = .ok () ∧
        ∀ x ∈ (store.setAt s).func.numbers, isNaN x = false) ∧
      ∀ d, store.HasDomain d → ∀ other, ∃ e later,
        (ofDomain store d).build other = (.ok e, later) ∧ SameDomain store d later e :=
  ⟨fun _ _ => ⟨build_succeeds_iff, fun _ _ => ofDomain_build⟩,
    fun _ h => ⟨fun s => ⟨h.accepted s, Membership.not_isNaN_of_accepted _ (h.accepted s)⟩,
      fun _ hd other => build_of_built h hd other⟩⟩

/-- A triangle and sets derived from it, entered in a domain; one name is entered anew, one taken out. -/
def derivation : List (Operation Float) := [
  .newDomain "room" 0 30 (some 2.5),
  .registerFunction ⟨0⟩ "warm" (.shape (.triangular 10 30 20 0.5 0)),
  .unary .normalized ⟨0⟩, .register ⟨0⟩ "hot" ⟨1⟩,
  .unary (.hedged .very) ⟨0⟩, .register ⟨0⟩ "veryWarm" ⟨2⟩,
  .unary .dilated ⟨1⟩, .register ⟨0⟩ "hot" ⟨3⟩,
  .binary (.lambda 0.25) ⟨0⟩ ⟨2⟩, .register ⟨0⟩ "mixed" ⟨4⟩, .remove ⟨0⟩ "warm"]

/-- The store after `derivation`. -/
def derived : Store Float := Store.empty.runAll derivation

/-- A domain with a hedged and a mixed set, described and built again. -/
theorem build_ofDomain_derived :
    Built derived ∧ ∃ e later, (ofDomain derived ⟨0⟩).build derived = (.ok e, later) ∧
      ofDomain later e = ofDomain derived ⟨0⟩ ∧
      (later.domainAt e).sets.keys = ["hot", "veryWarm", "mixed"] := by
  have hbuilt : Built derived := by
    refine built_runAll (fun op hop other => ?_) (by decide +kernel)
    simp only [derivation, List.mem_cons] at hop
    rcases hop with rfl | rfl | rfl | rfl | rfl | rfl | rfl | rfl | rfl | rfl | rfl | hop
    case inr.inl =>
      have hvalid : (Shape.triangular (10 : Float) 30 20 0.5 0).validate = .ok () :=
        outcome_of_toOption (by decide +kernel)
      exact .shape (Membership.checked_eq_ok_iff.mpr ⟨hvalid, rfl⟩)
    all_goals trivial
  refine ⟨hbuilt, ?_⟩
  obtain ⟨e, later, hbuild, hsame⟩ :=
    (build_ofDomain.2 derived hbuilt).2 ⟨0⟩ (hasDomain_of_isLive (by decide +kernel)) derived
  refine ⟨e, later, hbuild, (build_ofDomain.1 _ derived).2 e later hbuild, ?_⟩
  rw [hsame.names]
  decide +kernel

end DomainConfig

end FuzzyInference

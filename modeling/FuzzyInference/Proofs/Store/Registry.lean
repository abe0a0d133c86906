import FuzzyInference.Proofs.Store.Operation
import FuzzyInference.Scalar.Machine
import Mathlib.Data.List.Nodup

/-!
# Registries in every run

A domain registers only sets that are bound to it and called as registered. A set is bound and named
once, so it never stands under two names or in two domains, and no two entries of a registry compete
for one place in the answer of `memberships`.

## Contents
- `make_eq_ok_iff`: what a domain is made of.
- `Entered`: what holds of a registered set. `Consistent`: it holds of all of them.
- `Change.consistent`: kept by every change.
- `registries_of_reachable`.
-/

namespace FuzzyInference

variable {α : Type} [Scalar α]

open Scalar in
/-- A domain is made exactly from a good name, finite ascending bounds, a positive finite resolution
and a grid below the limit; it starts empty, with one reference. -/
theorem Domain.make_eq_ok_iff {name : String} {low high res : α} {domain : Domain α} :
    Domain.make name low high res = .ok domain ↔
      Text.isIdentifier name = true ∧
      (isFinite low && isFinite high && low < high) = true ∧
      (isFinite res && (0.0 : α) < res) = true ∧
      (isFinite ((high - low) / res) && (high - low) / res < ofNat maxPoints) = true ∧
      domain = ⟨name, .ofResolution low high res, res, .empty, 1⟩ := by
  unfold Domain.make
  rw [check_bind_eq_ok_iff, check_bind_eq_ok_iff, check_bind_eq_ok_iff, check_bind_eq_ok_iff,
    ensure_eq_ok_iff, ensure_eq_ok_iff, ensure_eq_ok_iff, ensure_eq_ok_iff]
  exact and_congr_right' (and_congr_right' (and_congr_right' (and_congr_right'
    ⟨fun h => (Except.ok.inj h).symm, fun h => congrArg Except.ok h.symm⟩)))

namespace Store

/-! ## The invariant -/

/-- What holds of a set that a domain has under a name. -/
structure Entered (store : Store α) (d : DomainId) (name : String) (s : SetId) : Prop where
  bound : (store.setAt s).domain? = some d
  named : (store.setAt s).name? = some name
  identifier : Text.isIdentifier name = true

/-- All registries hold only what belongs there. -/
def Consistent (store : Store α) : Prop :=
  ∀ d name s, (name, s) ∈ (store.domainAt d).sets.entries → store.Entered d name s

theorem Entered.mono {before after : Store α} {d : DomainId} {name : String} {s : SetId}
    (h : before.Entered d name s) (hext : Extends before after) : after.Entered d name s :=
  ⟨hext.bound h.bound, hext.named h.named, h.identifier⟩

omit [Scalar α] in
/-- A set that is entered twice is entered in one place. -/
theorem Entered.unique {store : Store α} {d e : DomainId} {name other : String} {s : SetId}
    (h : store.Entered d name s) (k : store.Entered e other s) : d = e ∧ name = other :=
  ⟨Option.some.inj (h.bound.symm.trans k.bound), Option.some.inj (h.named.symm.trans k.named)⟩

/-- The empty store is consistent, wherever its sets will be placed. -/
theorem consistent_placed (place : SetId → ℕ) : Consistent (placed place : Store α) := by
  intro d name s h
  have hempty : ((placed place : Store α).domainAt d).sets = .empty := by
    rw [domainAt_of_not_hasDomain (by simp [HasDomain, placed])]
  rw [hempty] at h
  exact absurd h (List.not_mem_nil)

/-! ## Steps and runs -/

/-- What a registry holds after a change it held before, or its entry was just checked. -/
theorem Change.mem_entries {before after : Store α} (h : Change before after) {d : DomainId}
    {name : String} {s : SetId} (hmem : (name, s) ∈ (after.domainAt d).sets.entries) :
    (name, s) ∈ (before.domainAt d).sets.entries ∨ before.Entered d name s := by
  -- only making a domain, entering and leaving touch a registry; the other changes close at the end
  cases h with
  | @makeDomain _ _ _ _ domain hmake =>
    rcases domainAt_addDomain_cases before domain d with hd | ⟨-, hd⟩
    · exact Or.inl (hd ▸ hmem)
    · rw [hd, (Domain.make_eq_ok_iff.mp hmake).2.2.2.2] at hmem
      exact absurd hmem List.not_mem_nil
  | @enter t e other identifier bound named =>
    rcases domainAt_modifyDomain_cases before d e (fun domain =>
      { domain with sets := domain.sets.insert other t }) with hd | ⟨rfl, -, hd⟩
    · exact Or.inl (hd ▸ hmem)
    · rw [hd] at hmem
      rcases OrderedMap.mem_entries_insert.mp hmem with ⟨rfl, rfl⟩ | ⟨-, hold⟩
      · exact Or.inr ⟨bound, named, identifier⟩
      · exact Or.inl hold
  | leave e other =>
    rcases domainAt_modifyDomain_cases before d e (fun domain =>
      { domain with sets := domain.sets.erase other }) with hd | ⟨rfl, -, hd⟩
    · exact Or.inl (hd ▸ hmem)
    · rw [hd] at hmem
      exact Or.inl (OrderedMap.mem_entries_erase.mp hmem).2
  | retain e =>
    rcases domainAt_modifyDomain_cases before d e (fun domain =>
      if 0 < domain.owners then { domain with owners := domain.owners + 1 } else domain) with
      hd | ⟨rfl, -, hd⟩
    · exact Or.inl (hd ▸ hmem)
    · -- only the owners are counted
      refine Or.inl ?_
      rw [Store.retain, hd] at hmem
      split at hmem
      · exact hmem
      · exact hmem
  | release e =>
    rcases domainAt_modifyDomain_cases before d e (fun domain =>
      { domain with owners := domain.owners - 1 }) with hd | ⟨rfl, -, hd⟩
    · exact Or.inl (hd ▸ hmem)
    · rw [Store.release, hd] at hmem
      exact Or.inl hmem
  | _ => exact Or.inl hmem

theorem Change.consistent {before after : Store α} (h : Change before after)
    (hc : before.Consistent) : after.Consistent := by
  intro d name s hmem
  rcases h.mem_entries hmem with hold | hnew
  · exact (hc d name s hold).mono h.extends
  · exact hnew.mono h.extends

/-- Registries are consistent after every run, by induction over its steps. -/
theorem Reachable.consistent {store : Store α} (h : Reachable store) : store.Consistent :=
  h.invariant consistent_placed Change.consistent

/-! ## A number in all sets of a domain -/

/-- A set stands under one name of a registry only, since it has only one name. -/
theorem Consistent.nodup_values {store : Store α} (h : store.Consistent) (d : DomainId) :
    (store.domainAt d).sets.values.Nodup := by
  -- a set that stood under two names would be called by both
  unfold OrderedMap.values
  refine List.Nodup.map_on ?_ (List.Nodup.of_map Prod.fst (store.domainAt d).sets.distinct)
  rintro ⟨name, s⟩ hs ⟨other, t⟩ ht (rfl : s = t)
  rw [((h d name s hs).unique (h d other s ht)).2]

/-- Since no set is entered twice, the answer has an entry for every name. -/
theorem Consistent.memberships_eq {store : Store α} (h : store.Consistent) {d : DomainId} {x : α}
    (hx : (store.domainAt d).grid.contains x = true) :
    ∃ m, store.memberships d x = .ok m ∧
      m.entries = (store.domainAt d).sets.entries.map fun (_, s) => (s, store.call s x) := by
  refine ⟨_, check_bind_eq_ok_iff.mpr ⟨ensure_eq_ok_iff.mpr hx, rfl⟩, ?_⟩
  rw [OrderedMap.entries_ofList]
  · simp [OrderedMap.values]
  · simpa [List.map_map, Function.comp_def] using h.nodup_values d

/-- **Registries in every run.** After any operations, failed ones included, a registered set is bound
    to exactly the domain that has it and called exactly as registered, by an identifier; so it stands
    under one name of one domain. What it is bound to and called stays so whatever comes later. A
    number in the range of a domain has one membership for each registered name, in their order. -/
theorem registries_of_reachable {store : Store α} (h : Reachable store) :
    (∀ d, (store.domainAt d).sets.keys.Nodup ∧
      ∀ name s, (name, s) ∈ (store.domainAt d).sets.entries →
        (store.setAt s).domain? = some d ∧ (store.setAt s).name? = some name ∧
          Text.isIdentifier name = true) ∧
    (∀ d e name other s, (name, s) ∈ (store.domainAt d).sets.entries →
      (other, s) ∈ (store.domainAt e).sets.entries → d = e ∧ name = other) ∧
    (∀ later, Steps store later → ∀ s,
      (∀ d, (store.setAt s).domain? = some d → (later.setAt s).domain? = some d) ∧
      ∀ name, (store.setAt s).name? = some name → (later.setAt s).name? = some name) ∧
    ∀ d x, (store.domainAt d).grid.contains x = true →
      ∃ m, store.memberships d x = .ok m ∧
        m.entries = (store.domainAt d).sets.entries.map fun (_, s) => (s, store.call s x) := by
  have hc := h.consistent
  refine ⟨fun d => ⟨(store.domainAt d).sets.distinct, fun name s hs => ?_⟩,
    fun d e name other s hs ht => (hc d name s hs).unique (hc e other s ht),
    fun later hlater s => ?_, fun d x hx => hc.memberships_eq hx⟩
  · have entered := hc d name s hs
    exact ⟨entered.bound, entered.named, entered.identifier⟩
  · have hext := hlater.changes.extends
    exact ⟨fun d hd => hext.bound hd, fun name hn => hext.named hn⟩

/-- Two sets of one domain, of which the first is taken out and entered again; an attempt to enter it
    under the name of the second fails. -/
def reentry : List (Operation Float) := [
  .newDomain "room" 0 30 none, .newSet (.shape (.constant 0.25)), .register ⟨0⟩ "warm" ⟨0⟩,
  .unary .complement ⟨0⟩, .register ⟨0⟩ "cool" ⟨1⟩, .register ⟨0⟩ "cool" ⟨0⟩,
  .remove ⟨0⟩ "warm", .register ⟨0⟩ "warm" ⟨0⟩]

/-- The store after `reentry`. -/
def reentered : Store Float := empty.runAll reentry

/-- A set taken out and entered again answers last, though it was the first one made. -/
theorem registries_of_reentered :
    Reachable reentered ∧ ∃ m, reentered.memberships ⟨0⟩ 20 = .ok m ∧
      m.entries = [(⟨1⟩, 0.75), (⟨0⟩, 0.25)] := by
  have hrun : Reachable reentered := reachable_runAll (by decide)
  refine ⟨hrun, ?_⟩
  obtain ⟨m, hm, hentries⟩ := (registries_of_reachable hrun).2.2.2 ⟨0⟩ 20 (by decide)
  exact ⟨m, hm, hentries.trans rfl⟩

end Store

end FuzzyInference

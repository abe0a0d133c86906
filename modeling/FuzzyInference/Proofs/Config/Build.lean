import FuzzyInference.Proofs.Membership.Accepted
import FuzzyInference.Proofs.OrderedMap
import FuzzyInference.Proofs.Store.Coherence

/-!
# Building and describing domains

A description is built if all that it names is accepted, and the domain that it becomes is described as
it was. Nothing is lost on the way: registering appends to the registry what the description lists,
under the same names and in the same order, and a description lists the registry.

## Contents
- `checkFunctions_eq_ok_iff`, `registerAll_eq_ok_iff`: what each phase of building asks for.
- `ofDomain_registerAll`: what registering adds to a description.
- `build_eq_ok_iff`, `ofDomain_build`.
-/

namespace FuzzyInference

namespace DomainConfig

open Store

variable {α : Type} [Scalar α]

/-! ## Checking -/

theorem checkFunctions_eq_ok_iff {funcs : List (Membership α)} :
    checkFunctions funcs = .ok () ↔ ∀ func ∈ funcs, func.validate = .ok () := by
  induction funcs with
  | nil => simp [checkFunctions]
  | cons func funcs ih =>
    rw [checkFunctions, check_bind_eq_ok_iff, ih, ofFault_eq_ok_iff, List.forall_mem_cons]

/-! ## Registering -/

/-- The store after a function was registered. -/
def entered (store : Store α) (d : DomainId) (name : String) (func : Membership α) : Store α :=
  ((((store.addFresh func none).2.bound ⟨store.sets.size⟩ d).called ⟨store.sets.size⟩ name).modifyDomain
    d fun domain => { domain with sets := domain.sets.insert name ⟨store.sets.size⟩ })

/-- A fresh set has no domain and no name yet, so only the name that is given can be refused. -/
theorem checkRegistration_addFresh (store : Store α) (d : DomainId) (name : String)
    (func : Membership α) :
    (store.addFresh func none).2.checkRegistration d name ⟨store.sets.size⟩ = .ok () ↔
      Text.isIdentifier name = true := by
  rw [checkRegistration_eq_ok_iff, checkDomainBinding_eq_ok_iff, checkNameBinding_eq_ok_iff,
    setAt_addFresh_self]
  simp [FuzzySet.fresh]

/-- Entering a fresh set fails only for a bad name. -/
theorem registerFunction_eq_ok_iff {store later : Store α} {d : DomainId} {name : String}
    {func : Membership α} {s : SetId} :
    registerFunction d name func store = (.ok s, later) ↔
      Text.isIdentifier name = true ∧ s = ⟨store.sets.size⟩ ∧ later = entered store d name func := by
  have hnew : newSet func store = (.ok ⟨store.sets.size⟩, (store.addFresh func none).2) := rfl
  unfold registerFunction
  rw [Action.bind_of_ok hnew, Action.bind_apply, ← checkRegistration_addFresh store d name func]
  unfold register
  rcases (store.addFresh func none).2.checkRegistration d name ⟨store.sets.size⟩ with e | ⟨⟩
  · exact ⟨fun h => (by cases h), fun h => (by cases h.1)⟩
  · refine ⟨fun h => ?_, fun h => ?_⟩
    · cases h
      exact ⟨rfl, rfl, rfl⟩
    · rw [h.2.1, h.2.2]
      rfl

/-- A row of functions can be entered exactly when every name is an identifier. -/
theorem registerAll_eq_ok_iff {d : DomainId} {entries : List (String × Membership α)}
    {store : Store α} :
    (∃ later, registerAll d entries store = (.ok (), later)) ↔
      ∀ entry ∈ entries, Text.isIdentifier entry.1 = true := by
  induction entries generalizing store with
  | nil => exact iff_of_true ⟨store, rfl⟩ (by simp)
  | cons entry rest ih =>
    obtain ⟨name, func⟩ := entry
    rw [List.forall_mem_cons, ← @ih (entered store d name func)]
    simp only [registerAll, Action.bind_eq_ok_iff, registerFunction_eq_ok_iff]
    constructor
    · rintro ⟨later, s, between, ⟨hname, -, rfl⟩, h⟩
      exact ⟨hname, later, h⟩
    · rintro ⟨hname, later, h⟩
      exact ⟨later, _, _, ⟨hname, rfl, rfl⟩, h⟩

/-! ## Describing -/

/-- Entering a set adds it to the registry of its domain, at the end or in place of a name. -/
theorem domainAt_entered {store : Store α} {d : DomainId} (hd : store.HasDomain d) (name : String)
    (func : Membership α) :
    (entered store d name func).domainAt d =
      { store.domainAt d with sets := (store.domainAt d).sets.insert name ⟨store.sets.size⟩ } :=
  domainAt_modifyDomain_self _ hd

omit [Scalar α] in
/-- Binding and naming a fresh set changes no function. -/
theorem func_entered (store : Store α) (d : DomainId) (name : String) (func : Membership α)
    (s : SetId) :
    ((entered store d name func).setAt s).func =
      ((store.addFresh func none).2.setAt s).func := by
  -- two writes to the fresh set, neither of them to its function
  refine Eq.trans (b := (((store.addFresh func none).2.bound ⟨store.sets.size⟩ d).setAt s).func) ?_ ?_
  · refine read_modifySet FuzzySet.func ?_ _ s _
    exact fun _ => rfl
  · refine read_modifySet FuzzySet.func ?_ _ s _
    exact fun _ => rfl

omit [Scalar α] in
theorem hasSet_entered {store : Store α} {d : DomainId} {name : String} {func : Membership α}
    {s : SetId} :
    (entered store d name func).HasSet s ↔ s.index < store.sets.size + 1 := by
  simp [entered, HasSet, called, bound, modifySet, modifyDomain, addFresh]

/-- The domain is there, and so is every set that it registers. -/
def Listed (store : Store α) (d : DomainId) : Prop :=
  store.HasDomain d ∧ ∀ s ∈ (store.domainAt d).sets.values, store.HasSet s

/-- Entering one more set keeps the domain and all its registered sets in the store. -/
theorem Listed.entered {store : Store α} {d : DomainId} (h : Listed store d) (name : String)
    (func : Membership α) : Listed (entered store d name func) d := by
  refine ⟨hasDomain_modifyDomain.mpr h.1, fun s hs => ?_⟩
  rw [domainAt_entered h.1] at hs
  rw [hasSet_entered]
  rcases OrderedMap.mem_values_insert hs with rfl | hold
  · exact Nat.lt_succ_self _
  · exact Nat.lt_succ_of_lt (h.2 s hold)

/-- Registering a function adds it to the description. -/
theorem ofDomain_entered {store : Store α} {d : DomainId} (h : Listed store d) (name : String)
    (func : Membership α) :
    ofDomain (entered store d name func) d =
      { ofDomain store d with sets := (ofDomain store d).sets.insert name func } := by
  unfold ofDomain
  rw [domainAt_entered h.1]
  dsimp only
  rw [OrderedMap.mapValues_insert, func_entered, setAt_addFresh_self]
  -- the sets that were there before keep their functions
  have hold : ∀ s ∈ (store.domainAt d).sets.values,
      ((entered store d name func).setAt s).func = (store.setAt s).func := by
    intro s hs
    rw [func_entered, setAt_addFresh_of_hasSet (h.2 s hs)]
  rw [OrderedMap.mapValues_congr hold]
  rfl

/-- Registering functions appends them to the description, one after the other. -/
theorem ofDomain_registerAll {d : DomainId} {entries : List (String × Membership α)}
    {store later : Store α} (h : Listed store d)
    (hrun : registerAll d entries store = (.ok (), later)) :
    ofDomain later d =
      { ofDomain store d with sets := (ofDomain store d).sets.insertAll entries } := by
  induction entries generalizing store with
  | nil =>
    cases hrun
    rfl
  | cons entry rest ih =>
    obtain ⟨name, func⟩ := entry
    simp only [registerAll, Action.bind_eq_ok_iff, registerFunction_eq_ok_iff] at hrun
    obtain ⟨s, between, ⟨-, -, rfl⟩, hrun⟩ := hrun
    rw [ih (h.entered name func) hrun, ofDomain_entered h]
    rfl

/-! ## Building -/

omit [Scalar α] in
/-- Giving a domain back on failure does not change what succeeds. -/
theorem tryRelease_eq_ok_iff {β : Type} {act : Action α β} {d : DomainId} {store later : Store α}
    {b : β} :
    (tryCatch act fun e => do
      modify fun store => store.release d
      throw e) store = (.ok b, later) ↔ act store = (.ok b, later) := by
  rw [Action.tryCatch_apply]
  rcases act store with ⟨e | c, between⟩
  · exact ⟨fun h => (by cases h), fun h => (by cases h)⟩
  · exact Iff.rfl

/-- The phases of a building that succeeds. -/
theorem build_eq_ok_iff {config : DomainConfig α} {store later : Store α} {d : DomainId} :
    config.build store = (.ok d, later) ↔
      checkFunctions config.sets.values = .ok () ∧
      ∃ made, newDomain config.name config.low config.high (some config.res) store = (.ok d, made) ∧
        registerAll d config.sets.entries made = (.ok (), later) := by
  unfold build
  simp only [Action.bind_eq_ok_iff, Action.ofExcept_apply, tryRelease_eq_ok_iff, Action.pure_apply]
  constructor
  · rintro ⟨⟨⟩, between, hchecked, d', made, hmade, ⟨⟩, last, hrun, h⟩
    cases h
    obtain rfl : store = between := congrArg Prod.snd hchecked
    exact ⟨congrArg Prod.fst hchecked, made, hmade, hrun⟩
  · rintro ⟨hchecked, made, hmade, hrun⟩
    exact ⟨(), store, Prod.ext hchecked rfl, d, made, hmade, (), later, hrun, rfl⟩

theorem newDomain_eq_ok_iff {name : String} {low high res : α} {store later : Store α}
    {d : DomainId} :
    newDomain name low high (some res) store = (.ok d, later) ↔
      ∃ domain, Domain.make name low high res = .ok domain ∧
        d = (store.addDomain domain).1 ∧ later = (store.addDomain domain).2 := by
  unfold newDomain
  rw [Option.getD_some]
  cases Domain.make name low high res with
  | error e => exact ⟨fun h => (by cases h), fun ⟨_, h, _⟩ => (by cases h)⟩
  | ok domain =>
    constructor
    · intro h
      cases h
      exact ⟨domain, rfl, rfl, rfl⟩
    · rintro ⟨domain', h, rfl, rfl⟩
      cases h
      rfl

/-- **What can be built.** -/
theorem build_succeeds_iff {config : DomainConfig α} {store : Store α} :
    (∃ d later, config.build store = (.ok d, later)) ↔
      (∀ func ∈ config.sets.values, func.validate = .ok ()) ∧
      (∃ domain, Domain.make config.name config.low config.high config.res = .ok domain) ∧
      ∀ name ∈ config.sets.keys, Text.isIdentifier name = true := by
  have hnames : (∀ name ∈ config.sets.keys, Text.isIdentifier name = true) ↔
      ∀ entry ∈ config.sets.entries, Text.isIdentifier entry.1 = true := List.forall_mem_map
  simp only [build_eq_ok_iff, newDomain_eq_ok_iff, checkFunctions_eq_ok_iff, hnames]
  constructor
  · rintro ⟨d, later, hfuncs, made, ⟨domain, hmake, rfl, rfl⟩, hrun⟩
    exact ⟨hfuncs, ⟨domain, hmake⟩, registerAll_eq_ok_iff.mp ⟨later, hrun⟩⟩
  · rintro ⟨hfuncs, ⟨domain, hmake⟩, hentries⟩
    obtain ⟨later, hrun⟩ := registerAll_eq_ok_iff.mpr hentries
    exact ⟨_, later, hfuncs, _, ⟨domain, hmake, rfl, rfl⟩, hrun⟩

/-- **A domain that was built is described as it was.** -/
theorem ofDomain_build {config : DomainConfig α} {store later : Store α} {d : DomainId}
    (h : config.build store = (.ok d, later)) : ofDomain later d = config := by
  obtain ⟨-, made, hmade, hrun⟩ := build_eq_ok_iff.mp h
  obtain ⟨domain, hmake, rfl, rfl⟩ := newDomain_eq_ok_iff.mp hmade
  obtain rfl := (Domain.make_eq_ok_iff.mp hmake).2.2.2.2
  have hnew := domainAt_addDomain_self store
    ⟨config.name, .ofResolution config.low config.high config.res, config.res, .empty, 1⟩
  have hlisted : Listed (store.addDomain _).2 (store.addDomain _).1 :=
    ⟨hasDomain_addDomain_self store _, by rw [hnew]; intro s hs; cases hs⟩
  rw [ofDomain_registerAll hlisted hrun]
  unfold ofDomain
  rw [hnew]
  show (⟨config.name, config.low, config.high, config.res, .ofList config.sets.entries⟩ :
    DomainConfig α) = config
  rw [OrderedMap.ofList_entries]

end DomainConfig

end FuzzyInference

import FuzzyInference.Proofs.Config.Build
import FuzzyInference.Proofs.Store.Quiet

/-!
# Functions in every run

A run in which every function that is handed in was made by the constructors, perhaps from functions of
sets that are there, has accepted functions only. Operators on sets build some functions without a
check, and where they check, they check the new function as a whole; either way the new set's function
is accepted because that of the old set was.

## Contents
- `Accepted`: all functions of a store pass the conditions. `Operation.Crafts`: what is asked of an
  operation. `Operation.accepted`.
- `Built`, `Built.reachable`, `Built.accepted`.
-/

namespace FuzzyInference

namespace Store

/-- Every set has a function that passes the conditions. -/
def Accepted (store : Store Float) : Prop := ∀ s, (store.setAt s).func.validate = .ok ()

/-- The function of a set that is there. -/
def Known {α : Type} (store : Store α) (func : Membership α) : Prop :=
  ∃ s, store.HasSet s ∧ (store.setAt s).func = func

end Store

/-- A function that the operation hands in was made by the constructors. Descriptions are checked when
    they are built. -/
def Operation.Crafts {α : Type} [Scalar α] (op : Operation α) (store : Store α) : Prop :=
  match op with
  | newSet func | registerFunction _ _ func => Crafted store.Known func
  | _ => True

namespace Store

variable {β γ : Type} {store : Store Float}

/-! ## Actions -/

/-- Acceptance depends on the functions only, so binding, naming and changing domains keep it. -/
theorem Accepted.of_func_eq {before after : Store Float} (h : before.Accepted)
    (hfunc : ∀ s, (after.setAt s).func = (before.setAt s).func) : after.Accepted := by
  intro s
  rw [hfunc]
  exact h s

theorem Quiet.accepted {before after : Store Float} (hquiet : Quiet before after)
    (h : before.Accepted) : after.Accepted := h.of_func_eq hquiet.framed.func

/-- Adding a set whose function validates keeps a store accepted. -/
theorem Accepted.addFresh (h : store.Accepted) {func : Membership Float}
    (hfunc : func.validate = .ok ()) (domain? : Option DomainId) :
    (store.addFresh func domain?).2.Accepted := by
  intro s
  rcases setAt_addFresh_cases store func domain? s with hs | ⟨-, hs⟩ <;> rw [hs]
  · exact h s
  · exact hfunc

theorem Accepted.bound (h : store.Accepted) (s : SetId) (d : DomainId) :
    (store.bound s d).Accepted := by
  refine h.of_func_eq fun t => read_modifySet FuzzySet.func ?_ store t s
  exact fun _ => rfl

theorem Accepted.called (h : store.Accepted) (s : SetId) (name : String) :
    (store.called s name).Accepted := by
  refine h.of_func_eq fun t => read_modifySet FuzzySet.func ?_ store t s
  exact fun _ => rfl

theorem Accepted.modifyDomain (h : store.Accepted) (d : DomainId)
    (f : Domain Float → Domain Float) : (store.modifyDomain d f).Accepted := h

/-- A row of actions keeps a store accepted when each step does. The rest is asked about where the
first step succeeded. -/
theorem accepted_andThen {act : Action Float β} {next : β → Action Float γ}
    (first : (act store).2.Accepted)
    (rest : ∀ b later, act store = (.ok b, later) → later.Accepted → (next b later).2.Accepted) :
    ((act >>= next) store).2.Accepted :=
  Action.bind_preserves (P := Store.Accepted) first rest

/-- The release that follows a failed build changes no function. -/
theorem accepted_tryRelease {act : Action Float β} (d : DomainId) (h : (act store).2.Accepted) :
    ((tryCatch act fun e => do
      modify fun store => store.release d
      throw e) store).2.Accepted := by
  rw [Action.tryCatch_apply]
  rcases ha : act store with ⟨e | b, later⟩ <;> rw [ha] at h
  · exact h
  · exact h

/-! ### Registering and building -/

theorem accepted_register (h : store.Accepted) (d : DomainId) (name : String) (s : SetId) :
    (register d name s store).2.Accepted := by
  unfold register
  split
  · exact h
  · exact ((h.bound s d).called s name).modifyDomain d _

theorem accepted_bind (h : store.Accepted) (s : SetId) (d : DomainId) :
    (bind s d store).2.Accepted := by
  unfold bind
  split
  · exact h
  · exact h.bound s d

theorem accepted_remove (h : store.Accepted) (d : DomainId) (name : String) :
    (remove d name store).2.Accepted := by
  unfold remove
  split
  · exact h
  · exact h.modifyDomain d _

/-- Entering a function that validates keeps a store accepted. -/
theorem accepted_registerFunction (h : store.Accepted) (d : DomainId) (name : String)
    {func : Membership Float} (hfunc : func.validate = .ok ()) :
    (registerFunction d name func store).2.Accepted := by
  refine accepted_andThen (h.addFresh hfunc none) fun s later _ hlater => ?_
  exact accepted_andThen (accepted_register hlater d name s) fun _ _ _ hlast => hlast

theorem accepted_newDomain (h : store.Accepted) (name : String) (low high : Float)
    (res? : Option Float) : (newDomain name low high res? store).2.Accepted := by
  unfold newDomain
  split
  · exact h
  · exact h

theorem accepted_registerAll (h : store.Accepted) (d : DomainId)
    {entries : List (String × Membership Float)}
    (hfuncs : ∀ entry ∈ entries, entry.2.validate = .ok ()) :
    (DomainConfig.registerAll d entries store).2.Accepted := by
  induction entries generalizing store with
  | nil => exact h
  | cons entry rest ih =>
    obtain ⟨hfunc, hrest⟩ := List.forall_mem_cons.mp hfuncs
    exact accepted_andThen (accepted_registerFunction h d entry.1 hfunc)
      fun _ later _ hlater => ih hlater hrest

/-- Building needs no assumption on the configuration, as each of its functions is validated first.
-/
theorem accepted_build (h : store.Accepted) (config : DomainConfig Float) :
    (config.build store).2.Accepted := by
  refine accepted_andThen h fun _ later hchecked hlater => ?_
  have hfuncs := DomainConfig.checkFunctions_eq_ok_iff.mp (congrArg Prod.fst hchecked)
  refine accepted_andThen (accepted_newDomain hlater _ _ _ _) fun d last _ hlast => ?_
  refine accepted_andThen (accepted_tryRelease d (accepted_registerAll hlast d ?_))
    fun _ _ _ hend => hend
  exact fun entry hentry => hfuncs entry.2 (List.mem_map_of_mem hentry)

theorem accepted_buildAll (h : store.Accepted) (configs : List (DomainConfig Float)) :
    (DomainConfig.buildAll configs store).2.Accepted := by
  induction configs generalizing store with
  | nil => exact h
  | cons config configs ih =>
    refine accepted_andThen (accepted_build h config) fun d later _ hlater => ?_
    exact accepted_andThen (accepted_tryRelease d (ih hlater)) fun _ _ _ hlast => hlast

/-! ### Deriving -/

theorem accepted_reshaped (h : store.Accepted) (s : SetId)
    {change : Membership Float → Except (FunctionFault Float) (Membership Float)}
    (hchange : ∀ func made, func.validate = .ok () → change func = .ok made →
      made.validate = .ok ()) : (reshaped s change store).2.Accepted := by
  unfold reshaped
  rw [Action.bind_of_ok (Action.get_apply store)]
  refine accepted_andThen h fun made later hmade hlater => ?_
  exact hlater.addFresh
    (hchange (store.setAt s).func made (h s) (ofFault_eq_ok_iff.mp (congrArg Prod.fst hmade))) _

/-- Scaling to height 1 validates the scaled function. -/
theorem accepted_normalized (h : store.Accepted) (s : SetId) :
    (normalized s store).2.Accepted := by
  refine accepted_andThen ((quiet_array s store).accepted h) fun values later _ hlater => ?_
  dsimp only
  split
  · exact hlater
  · refine accepted_reshaped hlater s fun func made _ hmade => ?_
    obtain ⟨hvalid, rfl⟩ := Membership.checked_eq_ok_iff.mp hmade
    exact hvalid

/-- An operator that cannot fail and keeps functions valid. -/
theorem accepted_reshaped_ok (h : store.Accepted) (s : SetId)
    {change : Membership Float → Membership Float}
    (hchange : ∀ {func}, func.validate = .ok () → (change func).validate = .ok ()) :
    (reshaped s (fun func => .ok (change func)) store).2.Accepted := by
  refine accepted_reshaped h s fun func made hfunc hmade => ?_
  cases hmade
  exact hchange hfunc

/-- Every one-operand operator makes functions that validate. -/
theorem accepted_deriveUnary (h : store.Accepted) (op : UnaryOperator Float) (s : SetId) :
    (deriveUnary op s store).2.Accepted := by
  cases op with
  | complement | intensified => exact accepted_reshaped_ok h s id
  | hedged hedge => exact accepted_reshaped_ok h s (Membership.validate_hedged hedge)
  | concentrated | dilated =>
    exact accepted_reshaped_ok h s (Membership.validate_power (by decide +kernel))
  | normalized => exact accepted_normalized h s
  | raised exponent =>
    refine accepted_reshaped h s fun func made _ hmade => ?_
    obtain ⟨hvalid, rfl⟩ := Membership.checked_eq_ok_iff.mp hmade
    exact hvalid

/-- A connective of two functions that validate does so too. -/
theorem accepted_deriveBinary (h : store.Accepted) (op : Combinator Float) (s t : SetId) :
    (deriveBinary op s t store).2.Accepted := by
  unfold deriveBinary
  rw [Action.bind_of_ok (Action.get_apply store)]
  refine accepted_andThen h fun _ later _ hlater => ?_
  refine accepted_andThen hlater fun made last hmade hlast => hlast.addFresh ?_ _
  obtain ⟨hop, rfl⟩ := Membership.combined_eq_ok_iff.mp (ofFault_eq_ok_iff.mp (congrArg Prod.fst hmade))
  refine check_bind_eq_ok_iff.mpr ⟨hop, Membership.validateAll_eq_ok_iff.mpr ?_⟩
  exact List.forall_mem_cons.mpr ⟨h s, List.forall_mem_singleton.mpr (h t)⟩

end Store

/-! ## Operations and runs -/

namespace Operation

variable {store : Store Float}

/-- **Functions stay accepted,** whatever is done with what was made by the constructors. -/
theorem accepted {op : Operation Float} (h : store.Accepted) (hcrafts : op.Crafts store) :
    (op.run store).Accepted := by
  have hcrafted : ∀ {func}, Crafted store.Known func → func.validate = .ok () :=
    fun hfunc => hfunc.accepted fun func ⟨s, _, hs⟩ => hs ▸ h s
  cases op with
  | newDomain name low high res? => exact Store.accepted_newDomain h name low high res?
  | build config => exact Store.accepted_build h config
  | buildAll configs => exact Store.accepted_buildAll h configs
  | share d | drop d => exact h.modifyDomain d _
  | newSet func => exact h.addFresh (hcrafted hcrafts) none
  | registerFunction d name func => exact Store.accepted_registerFunction h d name (hcrafted hcrafts)
  | register d name s => exact Store.accepted_register h d name s
  | bind s d => exact Store.accepted_bind h s d
  | remove d name => exact Store.accepted_remove h d name
  | unary op s => exact Store.accepted_deriveUnary h op s
  | binary op s t => exact Store.accepted_deriveBinary h op s t
  | array | centerOfGravity | len | cardinality | relativeCardinality | compare | meanCenter | infer =>
    exact (quiet rfl store).accepted h

end Operation

namespace Store

/-- What a run makes of a store without domains and sets if the functions that it hands in were made
    by the constructors. -/
inductive Built : Store Float → Prop where
  | start (place : SetId → ℕ) : Built (.placed place)
  | step {store : Store Float} (op : Operation Float) (before : Built store)
      (admissible : op.Admissible store) (crafts : op.Crafts store) : Built (op.run store)

/-- What is built by constructors is reached by operations. -/
theorem Built.reachable {store : Store Float} (h : Built store) : Reachable store := by
  induction h with
  | start place => exact .start place
  | step op _ admissible _ ih => exact .tail op ih admissible

/-- An empty store has no function to refuse. -/
theorem accepted_placed (place : SetId → ℕ) : (placed place : Store Float).Accepted := by
  intro s
  rw [setAt_of_not_hasSet (by simp [HasSet, placed])]
  rfl

/-- **All functions of such a run are accepted.** -/
theorem Built.accepted {store : Store Float} (h : Built store) : store.Accepted := by
  induction h with
  | start place => exact accepted_placed place
  | step op _ _ crafts ih => exact Operation.accepted ih crafts

/-- A checked sequence of crafting operations from a built store ends in one. -/
theorem built_of_runAll? {store later : Store Float} {ops : List (Operation Float)}
    (h : Built store) (hcrafts : ∀ op ∈ ops, ∀ other : Store Float, op.Crafts other)
    (hrun : store.runAll? ops = some later) : Built later := by
  induction ops generalizing store with
  | nil =>
    cases hrun
    exact h
  | cons op ops ih =>
    obtain ⟨hop, hops⟩ := List.forall_mem_cons.mp hcrafts
    rw [runAll?] at hrun
    split at hrun
    · rename_i admissible
      exact ih (.step op h admissible (hop store)) hops hrun
    · cases hrun

/-- A run that hands in functions made from nothing. -/
theorem built_runAll {ops : List (Operation Float)}
    (hcrafts : ∀ op ∈ ops, ∀ other : Store Float, op.Crafts other)
    (hrun : ((empty : Store Float).runAll? ops).isSome = true) : Built (empty.runAll ops) := by
  obtain ⟨later, hlater⟩ := Option.isSome_iff_exists.mp hrun
  rw [runAll, hlater]
  exact built_of_runAll? (.start SetId.index) hcrafts hlater

end Store

end FuzzyInference

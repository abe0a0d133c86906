import FuzzyInference.Config.Build
import FuzzyInference.Proofs.Store.Action
import FuzzyInference.Proofs.Rule.Evaluation
import FuzzyInference.Store.Comparison

/-!
# Runs of a store

What a user can do with domains and sets, one operation after the other. A user names only what was
handed out before, and a domain only while it lives, since whoever names a domain owns it. Every
operation, failed or not, is a row of elementary changes (`Operation.changes`), so what these keep
holds after every run.

## Contents
- `Operation`, `Operation.run`: the store after an operation, whatever its outcome.
- `Operation.Admissible`, `Steps`, `Reachable`.
- `Operation.changes`, `Steps.changes`.
-/

namespace FuzzyInference

variable {α β γ : Type}

/-- What can be done with the domains and sets of a store, questions that keep a value included. -/
inductive Operation (α : Type) where
  | newDomain (name : String) (low high : α) (res? : Option α)
  | build (config : DomainConfig α)
  | buildAll (configs : List (DomainConfig α))
  /-- another owner for a domain -/
  | share (d : DomainId)
  /-- an owner of a domain lets go of it -/
  | drop (d : DomainId)
  | newSet (func : Membership α)
  | registerFunction (d : DomainId) (name : String) (func : Membership α)
  | register (d : DomainId) (name : String) (s : SetId)
  | bind (s : SetId) (d : DomainId)
  | remove (d : DomainId) (name : String)
  | unary (op : UnaryOperator α) (s : SetId)
  | binary (op : Combinator α) (s t : SetId)
  | array (s : SetId)
  | centerOfGravity (s : SetId)
  | len (s : SetId)
  | cardinality (s : SetId)
  | relativeCardinality (s : SetId)
  | compare (rel : Relation) (s t : SetId)
  | meanCenter (weighted : List (SetId × α))
  | infer (rule : Rule) (inputs : Inputs α) (method : Method)

namespace Operation

/-- The domains that an operation names. -/
def domains : Operation α → List DomainId
  | share d | drop d | registerFunction d _ _ | register d _ _ | bind _ d | remove d _ => [d]
  | infer _ inputs _ => inputs.keys
  | _ => []

/-- The sets that an operation names. -/
def sets : Operation α → List SetId
  | register _ _ s | bind s _ | unary _ s | array s | centerOfGravity s | len s | cardinality s
  | relativeCardinality s => [s]
  | binary _ s t | compare _ s t => [s, t]
  | meanCenter weighted => weighted.map Prod.fst
  | infer rule _ _ => rule.conditions.keys.flatMap Antecedent.sets ++ rule.consequents
  | _ => []

variable [Scalar α]

/-- The store after an operation. A failure keeps what was written before it. -/
def run (op : Operation α) (store : Store α) : Store α :=
  match op with
  | newDomain name low high res? => (Store.newDomain name low high res? store).2
  | build config => (config.build store).2
  | buildAll configs => (DomainConfig.buildAll configs store).2
  | share d => store.retain d
  | drop d => store.release d
  | newSet func => (Store.newSet func store).2
  | registerFunction d name func => (Store.registerFunction d name func store).2
  | register d name s => (Store.register d name s store).2
  | bind s d => (Store.bind s d store).2
  | remove d name => (Store.remove d name store).2
  | unary op s => (Store.deriveUnary op s store).2
  | binary op s t => (Store.deriveBinary op s t store).2
  | array s => (Store.array s store).2
  | centerOfGravity s => (Store.centerOfGravity s store).2
  | len s => (Store.len s store).2
  | cardinality s => (Store.cardinality s store).2
  | relativeCardinality s => (Store.relativeCardinality s store).2
  | compare rel s t => (Store.compare rel s t store).2
  | meanCenter weighted => (FuzzyInference.meanCenter weighted store).2
  | infer rule inputs method => (rule.evaluate inputs method store).2

/-- The domains that an operation names live, and its sets were handed out. -/
def Admissible (op : Operation α) (store : Store α) : Prop :=
  (∀ d ∈ op.domains, store.isLive d) ∧ ∀ s ∈ op.sets, store.HasSet s

end Operation

namespace Store

variable [Scalar α]

/-- Operations one after the other. -/
inductive Steps : Store α → Store α → Prop where
  | refl {store : Store α} : Steps store store
  | tail {start store : Store α} (op : Operation α) :
      Steps start store → op.Admissible store → Steps start (op.run store)

/-- What operations make of a store without domains and sets, wherever sets lie. -/
inductive Reachable : Store α → Prop where
  | start (place : SetId → Nat) : Reachable (placed place)
  | tail {store : Store α} (op : Operation α) :
      Reachable store → op.Admissible store → Reachable (op.run store)

instance (store : Store α) (s : SetId) : Decidable (store.HasSet s) :=
  inferInstanceAs (Decidable (s.index < store.sets.size))

instance (op : Operation α) (store : Store α) : Decidable (op.Admissible store) :=
  inferInstanceAs (Decidable (_ ∧ _))

/-- The store after a list of operations; `none` if one of them names what it may not. -/
def runAll? (store : Store α) : List (Operation α) → Option (Store α)
  | [] => some store
  | op :: ops => if op.Admissible store then (op.run store).runAll? ops else none

/-- A step put before a run makes a longer run. -/
theorem Steps.head {start store : Store α} {op : Operation α} (h : op.Admissible start)
    (later : Steps (op.run start) store) : Steps start store := by
  induction later with
  | refl => exact .tail op .refl h
  | tail next _ admissible ih => exact .tail next ih admissible

theorem Reachable.steps {start store : Store α} (h : Reachable start) (later : Steps start store) :
    Reachable store := by
  induction later with
  | refl => exact h
  | tail op _ admissible ih => exact .tail op ih admissible

/-- A checked sequence of operations is a run. The induction is on the list, as `runAll?` recurses.
-/
theorem steps_of_runAll? {start store : Store α} {ops : List (Operation α)}
    (h : start.runAll? ops = some store) : Steps start store := by
  induction ops generalizing start with
  | nil =>
    cases h
    exact .refl
  | cons op ops ih =>
    rw [runAll?] at h
    split at h
    · rename_i admissible
      exact (ih h).head admissible
    · cases h

/-- The store after a list of operations; without them if one of them names what it may not. -/
def runAll (store : Store α) (ops : List (Operation α)) : Store α :=
  (store.runAll? ops).getD store

theorem steps_runAll {store : Store α} {ops : List (Operation α)}
    (h : (store.runAll? ops).isSome = true) : Steps store (store.runAll ops) := by
  obtain ⟨later, hlater⟩ := Option.isSome_iff_exists.mp h
  rw [runAll, hlater]
  exact steps_of_runAll? hlater

/-- A checked sequence from the empty store ends in a reachable one. -/
theorem reachable_runAll {ops : List (Operation α)} (h : (empty.runAll? ops).isSome = true) :
    Reachable (empty.runAll ops) :=
  (Reachable.start SetId.index).steps (steps_runAll h)

/-! ## Actions as rows of changes -/

/-- A row of actions changes a store by its steps' changes, one after the other. The rest is only
asked about where the first step succeeds. -/
theorem changes_andThen {act : Action α β} {next : β → Action α γ} {store : Store α}
    (first : Changes store (act store).2)
    (rest : ∀ b later, act store = (.ok b, later) → Changes later (next b later).2) :
    Changes store ((act >>= next) store).2 :=
  Action.bind_preserves (P := Changes store) first fun b later h seen => seen.trans (rest b later h)

theorem changes_ofExcept (outcome : Except (FuzzyError α) β) (store : Store α) :
    Changes store (Action.ofExcept outcome store).2 := .refl

/-- A new domain is added or, with unusable bounds or resolution, nothing happens. -/
theorem changes_newDomain (name : String) (low high : α) (res? : Option α) (store : Store α) :
    Changes store (newDomain name low high res? store).2 := by
  unfold newDomain
  split
  · exact .refl
  · rename_i domain h
    exact .single (.makeDomain h)

theorem changes_newSet (func : Membership α) (store : Store α) :
    Changes store (newSet func store).2 := .single (.makeSet func)

/-- A derived set is fresh too, bound at most to the domain of the set it comes from. -/
theorem changes_derive (s : SetId) (func : Membership α) (store : Store α) :
    Changes store (derive s func store).2 := .single (.deriveSet s func)

/-- Binding changes the binding alone, and only of a set that had none or the same. -/
theorem changes_bind (s : SetId) (d : DomainId) (store : Store α) :
    Changes store (bind s d store).2 := by
  unfold bind
  split
  · exact .refl
  · rename_i h
    exact .single (.bind h)

/-- Nothing is removed where no set has the name. -/
theorem remove_of_absent {store : Store α} {d : DomainId} {name : String}
    (h : (store.domainAt d).sets.get? name = none) : remove d name store = (.ok none, store) := by
  unfold remove
  rw [h]

/-- The set that has the name loses it in the domain. -/
theorem remove_of_present {store : Store α} {d : DomainId} {name : String} {s : SetId}
    (h : (store.domainAt d).sets.get? name = some s) :
    remove d name store = (.ok (some s), store.modifyDomain d fun domain =>
      { domain with sets := domain.sets.erase name }) := by
  unfold remove
  rw [h]

/-- Removing a name changes its domain's registry and no set. -/
theorem changes_remove (d : DomainId) (name : String) (store : Store α) :
    Changes store (remove d name store).2 := by
  cases h : (store.domainAt d).sets.get? name with
  | none =>
    rw [remove_of_absent h]
  | some s =>
    rw [remove_of_present h]
    exact .single (.leave d name)

/-! ### Registering -/

/-- A set may be bound to a domain when it has no other binding. -/
theorem checkDomainBinding_eq_ok_iff {store : Store α} {s : SetId} {d : DomainId} :
    store.checkDomainBinding s d = .ok () ↔ ∀ e, (store.setAt s).domain? = some e → e = d := by
  unfold checkDomainBinding
  rw [ensure_eq_ok_iff]
  cases h : (store.setAt s).domain? <;> simp

theorem checkNameBinding_eq_ok_iff {store : Store α} {s : SetId} {name : String} :
    store.checkNameBinding s name = .ok () ↔
      ∀ current, (store.setAt s).name? = some current → current = name := by
  unfold checkNameBinding
  cases h : (store.setAt s).name? <;> simp [ensure_eq_ok_iff]

/-- Registration checks the name's form, then the binding, then the name the set has. -/
theorem checkRegistration_eq_ok_iff {store : Store α} {d : DomainId} {name : String} {s : SetId} :
    store.checkRegistration d name s = .ok () ↔ Text.isIdentifier name = true ∧
      store.checkDomainBinding s d = .ok () ∧ store.checkNameBinding s name = .ok () := by
  unfold checkRegistration
  rw [check_bind_eq_ok_iff, check_bind_eq_ok_iff, ensure_eq_ok_iff]

/-- Once the checks are passed, binding and naming make a set fit the entry. -/
theorem domain?_bound {store : Store α} {s : SetId} {d : DomainId} (hs : store.HasSet s)
    (h : store.checkDomainBinding s d = .ok ()) :
    ((store.bound s d).setAt s).domain? = some d := by
  rw [bound, setAt_modifySet_self _ hs]
  cases he : (store.setAt s).domain? with
  | none => rfl
  | some e => rw [checkDomainBinding_eq_ok_iff.mp h e he]; rfl

theorem name?_called {store : Store α} {s : SetId} {name : String} (hs : store.HasSet s)
    (h : store.checkNameBinding s name = .ok ()) :
    ((store.called s name).setAt s).name? = some name := by
  rw [called, setAt_modifySet_self _ hs]
  cases he : (store.setAt s).name? with
  | none => rfl
  | some current => rw [checkNameBinding_eq_ok_iff.mp h current he]; rfl

/-- Registering binds and names the set and enters it in the registry, or changes nothing. -/
theorem changes_register {store : Store α} {s : SetId} (hs : store.HasSet s) (d : DomainId)
    (name : String) : Changes store (register d name s store).2 := by
  unfold register
  split
  · exact .refl
  · rename_i h
    obtain ⟨hi, hd, hn⟩ := checkRegistration_eq_ok_iff.mp h
    -- three writes; what the third one needs is what the first two have written
    have hs' : (store.bound s d).HasSet s := hasSet_modifySet.mpr hs
    have hn' : (store.bound s d).checkNameBinding s name = .ok () := by
      rw [checkNameBinding_eq_ok_iff] at hn ⊢
      rw [bound, setAt_modifySet_self _ hs]
      exact hn
    have hbound : (((store.bound s d).called s name).setAt s).domain? = some d := by
      rw [called, setAt_modifySet_self _ hs']
      exact domain?_bound hs hd
    exact ((Relation.ReflTransGen.single (.bind hd)).tail (.call hn')).tail
      (.enter hi hbound (name?_called hs' hn'))

/-- Entering a function makes a set of it and registers that. -/
theorem changes_registerFunction (d : DomainId) (name : String) (func : Membership α)
    (store : Store α) : Changes store (registerFunction d name func store).2 := by
  refine changes_andThen (changes_newSet func store) fun s later h => ?_
  cases h
  exact changes_andThen (changes_register (hasSet_addFresh_self store func none) d name)
    fun _ _ _ => .refl

/-! ### Building -/

/-- Entering a whole row of functions, ended by the first refusal. The induction is on the row. -/
theorem changes_registerAll (d : DomainId) (entries : List (String × Membership α))
    (store : Store α) : Changes store (DomainConfig.registerAll d entries store).2 := by
  induction entries generalizing store with
  | nil => exact .refl
  | cons entry rest ih =>
    obtain ⟨name, func⟩ := entry
    exact changes_andThen (changes_registerFunction d name func store) fun _ later _ => ih later

/-- An action that gives a domain back when it fails. -/
theorem changes_tryRelease {act : Action α β} {store : Store α} (d : DomainId)
    (h : Changes store (act store).2) :
    Changes store ((tryCatch act fun e => do
      modify fun store => store.release d
      throw e) store).2 := by
  rw [Action.tryCatch_apply]
  rcases ha : act store with ⟨e | b, later⟩
  · rw [ha] at h
    exact h.tail (.release d)
  · rw [ha] at h
    exact h

/-- Building a configured domain changes the store by its own steps only, a failed build's release
included. -/
theorem changes_build (config : DomainConfig α) (store : Store α) :
    Changes store (config.build store).2 := by
  refine changes_andThen (changes_ofExcept _ store) fun _ later _ => ?_
  refine changes_andThen (changes_newDomain _ _ _ _ later) fun d last _ => ?_
  exact changes_andThen (changes_tryRelease d (changes_registerAll d _ last)) fun _ _ _ => .refl

theorem changes_buildAll (configs : List (DomainConfig α)) (store : Store α) :
    Changes store (DomainConfig.buildAll configs store).2 := by
  induction configs generalizing store with
  | nil => exact .refl
  | cons config configs ih =>
    refine changes_andThen (changes_build config store) fun d later _ => ?_
    exact changes_andThen (changes_tryRelease d (ih later)) fun _ _ _ => .refl

/-! ### Sampling -/

/-- Sampling changes the kept array of the one set, and only where there was none. -/
theorem changes_array (s : SetId) (store : Store α) : Changes store (array s store).2 := by
  cases hk : (store.setAt s).array? with
  | some values =>
    rw [array_of_kept hk]
  | none =>
    cases hp : store.samplePoints s with
    | error e =>
      rw [array_of_error hk hp]
    | ok points =>
      rw [array_of_points hk hp]
      exact .single (.keepArray hk hp)

/-- A center is kept where there was none, after the array it was weighed from. -/
theorem changes_centerOfGravity (s : SetId) (store : Store α) :
    Changes store (centerOfGravity s store).2 := by
  cases hc : (store.setAt s).center? with
  | some c =>
    rw [centerOfGravity_of_kept hc]
  | none =>
    cases hs : (store.setAt s).func.spike? with
    | some c =>
      rw [centerOfGravity_of_spike hc hs]
      exact .single (.keepSpike hc hs)
    | none =>
      cases hp : store.samplePoints s with
      | error e =>
        rw [centerOfGravity_of_error hc hs hp]
      | ok points =>
        obtain ⟨values, later, ha, hset, hframed, -⟩ := array_keeps hp
        rw [centerOfGravity_of_points hc hs hp ha]
        -- the array is kept even when the caller only asked for the center
        have hfirst := changes_array s store
        rw [ha] at hfirst
        exact hfirst.tail (.keepCentroid (by rw [hset]; exact hc) (by rw [hset]; exact hs)
          (hframed.samplePoints hp) (by rw [hset]))

theorem changes_len (s : SetId) (store : Store α) : Changes store (len s store).2 :=
  changes_andThen (changes_array s store) fun _ _ _ => .refl

theorem changes_cardinality (s : SetId) (store : Store α) :
    Changes store (cardinality s store).2 :=
  changes_andThen (changes_array s store) fun _ _ _ => .refl

theorem changes_relativeCardinality (s : SetId) (store : Store α) :
    Changes store (relativeCardinality s store).2 := by
  refine changes_andThen (changes_len s store) fun n later _ => ?_
  dsimp only
  split
  · exact .refl
  · exact changes_andThen (changes_cardinality s later) fun _ _ _ => .refl

/-! ### Deriving -/

/-- A reshaped set is a derived one, made only when its function could be. -/
theorem changes_reshaped (s : SetId)
    (change : Membership α → Except (FunctionFault α) (Membership α)) (store : Store α) :
    Changes store (reshaped s change store).2 := by
  refine changes_andThen .refl fun seen later _ => ?_
  exact changes_andThen (changes_ofExcept _ later) fun func last _ => changes_derive s func last

/-- Scaling to height 1 samples the set first and then derives the scaled one. -/
theorem changes_normalized (s : SetId) (store : Store α) :
    Changes store (normalized s store).2 := by
  refine changes_andThen (changes_array s store) fun values later _ => ?_
  dsimp only
  split
  · exact .refl
  · exact changes_reshaped s _ later

theorem changes_deriveUnary (op : UnaryOperator α) (s : SetId) (store : Store α) :
    Changes store (deriveUnary op s store).2 := by
  cases op with
  | normalized => exact changes_normalized s store
  | _ => exact changes_reshaped s _ store

/-- Each two-operand operator derives one set, if both operands share a domain. -/
theorem changes_deriveBinary (op : Combinator α) (s t : SetId) (store : Store α) :
    Changes store (deriveBinary op s t store).2 := by
  refine changes_andThen .refl fun seen later _ => ?_
  refine changes_andThen (changes_ofExcept _ later) fun _ last _ => ?_
  exact changes_andThen (changes_ofExcept _ last) fun func end_ _ => changes_derive s func end_

/-! ### Comparing -/

theorem changes_boundArrays (s t : SetId) (store : Store α) :
    Changes store (boundArrays s t store).2 := by
  refine changes_andThen .refl fun seen later _ => ?_
  dsimp only
  split
  · exact .refl
  · refine changes_andThen (changes_array s later) fun _ last _ => ?_
    exact changes_andThen (changes_array t last) fun _ _ _ => .refl

/-- The slow path of a comparison reads functions alone, so only the fast one changes anything. -/
theorem changes_holdsPointwise (holds : α → α → Bool) (s t : SetId) (store : Store α) :
    Changes store (holdsPointwise holds s t store).2 := by
  refine changes_andThen (changes_boundArrays s t store) fun _ later _ => ?_
  refine changes_andThen .refl fun seen last _ => ?_
  refine changes_andThen (changes_ofExcept _ last) fun _ final _ => ?_
  dsimp only
  split
  · exact .refl
  · refine changes_andThen (changes_ofExcept _ final) fun _ _ _ => ?_
    exact changes_andThen (changes_ofExcept _ _) fun _ _ _ => .refl

theorem changes_compare (rel : Relation) (s t : SetId) (store : Store α) :
    Changes store (compare rel s t store).2 := by
  cases rel with
  | equal =>
    unfold compare isEqualTo
    exact changes_andThen (changes_boundArrays s t store) fun _ _ _ => .refl
  | _ =>
    unfold compare
    exact changes_holdsPointwise _ s t store

/-! ### Inferring -/

/-- Weighing centers changes a store by what each request for a center keeps. -/
theorem changes_weightedCenters (total : α) (weighted : List (SetId × α)) (store : Store α) :
    Changes store (weightedCenters total weighted store).2 := by
  induction weighted generalizing total store with
  | nil => exact .refl
  | cons entry rest ih =>
    obtain ⟨s, weight⟩ := entry
    exact changes_andThen (changes_centerOfGravity s store) fun c later _ => ih _ later

theorem changes_meanCenter (weighted : List (SetId × α)) (store : Store α) :
    Changes store (meanCenter weighted store).2 := by
  unfold meanCenter
  dsimp only
  split
  · exact .refl
  · exact changes_andThen (changes_weightedCenters _ weighted store) fun _ _ _ => .refl

theorem changes_defuzzify (method : Method) (d : DomainId) (fired : List (SetId × α))
    (store : Store α) : Changes store (defuzzify method d fired store).2 := by
  by_cases h : method = .cog
  · subst h
    exact changes_meanCenter fired store
  · rw [defuzzify_curve h]

/-- Evaluation changes what is kept, in its last step if at all. -/
theorem changes_evaluate (rule : Rule) (inputs : Inputs α) (method : Method) (store : Store α) :
    Changes store (rule.evaluate inputs method store).2 := by
  refine changes_andThen .refl fun seen later _ => ?_
  refine changes_andThen (changes_ofExcept _ later) fun target? last _ => ?_
  cases target? with
  | none => exact .refl
  | some d =>
    refine changes_andThen (changes_ofExcept _ last) fun fired final _ => ?_
    cases fired with
    | nil => exact .refl
    | cons entry rest =>
      exact changes_andThen (changes_defuzzify method d _ final) fun _ _ _ => .refl

/-! ## Runs as rows of changes -/

end Store

/-- **Every operation is a row of changes,** whether it fails or not. -/
theorem Operation.changes [Scalar α] {op : Operation α} {store : Store α}
    (h : op.Admissible store) : store.Changes (op.run store) := by
  cases op with
  | newDomain name low high res? => exact Store.changes_newDomain name low high res? store
  | build config => exact Store.changes_build config store
  | buildAll configs => exact Store.changes_buildAll configs store
  | share d => exact .single (.retain d)
  | drop d => exact .single (.release d)
  | newSet func => exact Store.changes_newSet func store
  | registerFunction d name func => exact Store.changes_registerFunction d name func store
  | register d name s => exact Store.changes_register (h.2 s (List.mem_singleton_self s)) d name
  | bind s d => exact Store.changes_bind s d store
  | remove d name => exact Store.changes_remove d name store
  | unary op s => exact Store.changes_deriveUnary op s store
  | binary op s t => exact Store.changes_deriveBinary op s t store
  | array s => exact Store.changes_array s store
  | centerOfGravity s => exact Store.changes_centerOfGravity s store
  | len s => exact Store.changes_len s store
  | cardinality s => exact Store.changes_cardinality s store
  | relativeCardinality s => exact Store.changes_relativeCardinality s store
  | compare rel s t => exact Store.changes_compare rel s t store
  | meanCenter weighted => exact Store.changes_meanCenter weighted store
  | infer rule inputs method => exact Store.changes_evaluate rule inputs method store

/-- **A run is a row of changes.** -/
theorem Store.Steps.changes [Scalar α] {start store : Store α} (h : Steps start store) :
    Changes start store := by
  induction h with
  | refl => exact .refl
  | tail op _ admissible ih => exact ih.trans (Operation.changes admissible)

/-- **What holds without domains and sets and is kept by every change holds in every run.** -/
theorem Store.Reachable.invariant [Scalar α] {P : Store α → Prop}
    (start : ∀ place, P (placed place))
    (change : ∀ {before after}, Change before after → P before → P after) {store : Store α}
    (h : Reachable store) : P store := by
  have hchanges : ∀ {before after : Store α}, Changes before after → P before → P after := by
    intro before after hsteps hbefore
    induction hsteps with
    | refl => exact hbefore
    | tail _ step ih => exact change step ih
  induction h with
  | start place => exact start place
  | tail op _ admissible ih => exact hchanges (Operation.changes admissible) ih

end FuzzyInference

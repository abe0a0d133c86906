import FuzzyInference.Error
import FuzzyInference.Grid
import FuzzyInference.OrderedMap

/-!
# The store of domains and sets

Domains and fuzzy sets refer to each other: a domain registers sets under names, a set remembers
the domain it is bound to. Both live in a store and are known by identities, which the store hands
out and never takes back. What a set is bound to and called, and what was once computed of it, is
written once.

A domain has owners. When the last one lets go of it the domain is gone for good: its sets still
remember it, but can no longer reach it.

Where in memory a set lies is up to the environment. A store takes it as given for every set that it
will ever have, and no operation looks at it but inference, which evaluates the sets of a condition in
this order (`Antecedent.visited`).

## Contents
- `DomainId`, `SetId`, `Domain`, `FuzzySet`, `Store`.
- `Store.placed`, `Store.empty`: the stores without domains and sets, one for each layout of memory.
- Lookup and change by identity; an identity that was never handed out reads as an empty default.
- `Action`: what may fail and may change the store, where a failure keeps the changes made before
  it.
- `retain`, `release`, `isLive`: owners of domains.
-/

namespace FuzzyInference

/-- The identity of a domain. -/
structure DomainId where
  index : Nat
  deriving DecidableEq, Repr

/-- The identity of a set. -/
structure SetId where
  index : Nat
  deriving DecidableEq, Repr

/-- A linguistic variable: a sampled range of numbers and the sets registered on it. -/
structure Domain (α : Type) where
  name : String
  grid : Grid α
  res : α
  sets : OrderedMap String SetId
  owners : Nat

/-- A membership function with the domain it is bound to and the name it has there, and what was
    computed of it before: its sampled memberships and its center of gravity. -/
structure FuzzySet (α : Type) where
  func : Membership α
  domain? : Option DomainId
  name? : Option String
  array? : Option (List α)
  center? : Option α

/-- All domains and sets there ever were, and where the sets lie, those to come included. Two sets that
    are not kept at the same time may lie at one place. -/
structure Store (α : Type) where
  domains : Array (Domain α)
  sets : Array (FuzzySet α)
  place : SetId → Nat

/-- What may fail and may change the store. The changes made before a failure stay. -/
abbrev Action (α β : Type) := ExceptT (FuzzyError α) (StateM (Store α)) β

/-- An outcome that leaves the store alone. -/
def Action.ofExcept {α β : Type} (outcome : Except (FuzzyError α) β) : Action α β :=
  fun store => (outcome, store)

/-- A failed condition on a function as a failure of what asked for the function. -/
def ofFault {α β : Type} (outcome : Except (FunctionFault α) β) : Except (FuzzyError α) β :=
  outcome.mapError .function

namespace FuzzySet

/-- A set that nothing is known of but its function, and perhaps its domain. -/
def fresh {α : Type} (func : Membership α) (domain? : Option DomainId) : FuzzySet α :=
  ⟨func, domain?, none, none, none⟩

end FuzzySet

namespace Store

variable {α : Type}

/-- The store without domains and sets, in a memory in which sets will lie at some places. -/
def placed (place : SetId → Nat) : Store α := ⟨#[], #[], place⟩

/-- The store without domains and sets, in a memory in which sets will lie in the order in which they
    are made. -/
def empty : Store α := placed SetId.index

instance : Inhabited (Store α) := ⟨empty⟩

/-! ## Sets -/

/-- The set of an identity. -/
def setAt (store : Store α) (s : SetId) : FuzzySet α :=
  store.sets[s.index]?.getD (.fresh (.shape .identity) none)

/-- Changes the set of an identity. -/
def modifySet (store : Store α) (s : SetId) (f : FuzzySet α → FuzzySet α) : Store α :=
  { store with sets := store.sets.modify s.index f }

/-- Adds a set and hands out its identity. -/
def addFresh (store : Store α) (func : Membership α) (domain? : Option DomainId) :
    SetId × Store α :=
  (⟨store.sets.size⟩, { store with sets := store.sets.push (.fresh func domain?) })

/-! ## Domains -/

section Domains

variable [Scalar α]

/-- The domain of an identity. -/
def domainAt (store : Store α) (d : DomainId) : Domain α :=
  store.domains[d.index]?.getD ⟨"", ⟨0.0, 0.0, 0⟩, 0.0, .empty, 0⟩

/-- Changes the domain of an identity. -/
def modifyDomain (store : Store α) (d : DomainId) (f : Domain α → Domain α) : Store α :=
  { store with domains := store.domains.modify d.index f }

/-- Adds a domain and hands out its identity. -/
def addDomain (store : Store α) (domain : Domain α) : DomainId × Store α :=
  (⟨store.domains.size⟩, { store with domains := store.domains.push domain })

/-- Whether a domain has an owner. -/
def isLive (store : Store α) (d : DomainId) : Bool := 0 < (store.domainAt d).owners

/-- Gives a domain another owner. One that is gone does not come back. -/
def retain (store : Store α) (d : DomainId) : Store α :=
  store.modifyDomain d fun domain =>
    if 0 < domain.owners then { domain with owners := domain.owners + 1 } else domain

/-- Takes an owner from a domain. -/
def release (store : Store α) (d : DomainId) : Store α :=
  store.modifyDomain d fun domain => { domain with owners := domain.owners - 1 }

/-- The domain that a set is bound to and can still reach. -/
def domainOf? (store : Store α) (s : SetId) : Option DomainId :=
  (store.setAt s).domain?.filter store.isLive

/-- How a set is called now. -/
def label (store : Store α) (s : SetId) : SetLabel α :=
  match store.domainOf? s, (store.setAt s).name? with
  | some d, some name => .qualified (store.domainAt d).name name
  | none, some name => .named name
  | some _, none => .unnamed (store.setAt s).func
  | none, none => .dangling (store.setAt s).func

/-- The membership of a number in a set, whatever the set's domain. -/
def call (store : Store α) (s : SetId) (x : α) : α := (store.setAt s).func.evaluate x

/-- Makes a set without domain and name. -/
def newSet (func : Membership α) : Action α SetId := fun store =>
  let (s, store) := store.addFresh func none
  (.ok s, store)

/-- Makes a set without name that is bound to what another set is bound to. -/
def derive (s : SetId) (func : Membership α) : Action α SetId := fun store =>
  let (t, store) := store.addFresh func (store.setAt s).domain?
  (.ok t, store)

end Domains

end Store

end FuzzyInference

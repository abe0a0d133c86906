import FuzzyInference.Membership.Validate
import FuzzyInference.Store.Basic
import FuzzyInference.Text.Identifier

/-!
# Registering sets on domains

Making domains, binding sets to them, and the names under which a domain registers its sets. A set
is bound and named for good; registering checks everything before it changes anything.

## Contents
- `newDomain`: the conditions on a domain.
- `bind`, `register`, `remove`.
- `memberships`, `least`, `greatest`: a number in all the sets of a domain.
-/

namespace FuzzyInference

open Scalar

namespace Domain

variable {α : Type}

/-- The width of a domain is less than this many times its resolution. -/
def maxPoints : Nat := 10000000

variable [Scalar α]

/-- The domain that a name, bounds and a resolution make, with one owner. -/
def make (name : String) (low high res : α) : Except (FuzzyError α) (Domain α) := do
  ensure (Text.isIdentifier name) (.invalidIdentifier name)
  ensure (isFinite low && isFinite high && low < high) (.invalidBounds name low high)
  ensure (isFinite res && (0.0 : α) < res) (.invalidResolution name res)
  let ratio := (high - low) / res
  ensure (isFinite ratio && ratio < ofNat maxPoints) (.tooManyPoints name res low high maxPoints)
  return ⟨name, .ofResolution low high res, res, .empty, 1⟩

/-- The distance of two sample points. -/
def step (domain : Domain α) : α := domain.grid.step

/-- The sample points. -/
def range (domain : Domain α) : List α := domain.grid.points

/-- Fails for a number outside the bounds. -/
def checkRange (domain : Domain α) (x : α) : Except (FuzzyError α) Unit :=
  ensure (domain.grid.contains x) (.outOfRange domain.name x domain.grid.low domain.grid.high)

end Domain

namespace Store

variable {α : Type} [Scalar α]

/-- Makes a domain. The resolution is 1 unless given. -/
def newDomain (name : String) (low high : α) (res? : Option α) : Action α DomainId := fun store =>
  match Domain.make name low high (res?.getD 1.0) with
  | .error e => (.error e, store)
  | .ok domain =>
    let (d, store) := store.addDomain domain
    (.ok d, store)

/-- Fails if a set is bound to another domain. -/
def checkDomainBinding (store : Store α) (s : SetId) (d : DomainId) :
    Except (FuzzyError α) Unit :=
  ensure ((store.setAt s).domain?.all (· = d))
    (.boundElsewhere (store.label s) (store.domainAt d).name)

/-- Fails if a set has another name. -/
def checkNameBinding (store : Store α) (s : SetId) (name : String) : Except (FuzzyError α) Unit :=
  match (store.setAt s).name? with
  | some current => ensure (current = name) (.namedOtherwise (store.label s) current name)
  | none => .ok ()

/-- Binds a set to a domain unless it is bound. -/
def bound (store : Store α) (s : SetId) (d : DomainId) : Store α :=
  store.modifySet s fun set => { set with domain? := set.domain?.or (some d) }

/-- Names a set unless it has a name. -/
def called (store : Store α) (s : SetId) (name : String) : Store α :=
  store.modifySet s fun set => { set with name? := set.name?.or (some name) }

/-- Binds a set to a domain for good. -/
def bind (s : SetId) (d : DomainId) : Action α Unit := fun store =>
  match store.checkDomainBinding s d with
  | .error e => (.error e, store)
  | .ok () => (.ok (), store.bound s d)

/-- The conditions under which a domain registers a set under a name. -/
def checkRegistration (store : Store α) (d : DomainId) (name : String) (s : SetId) :
    Except (FuzzyError α) Unit := do
  ensure (Text.isIdentifier name) (.invalidSetName name)
  store.checkDomainBinding s d
  store.checkNameBinding s name

/-- Registers a set under a name, at the old place of the name if it is taken. The set is bound to
    the domain and named. -/
def register (d : DomainId) (name : String) (s : SetId) : Action α Unit := fun store =>
  match store.checkRegistration d name s with
  | .error e => (.error e, store)
  | .ok () =>
    let store := (store.bound s d).called s name
    (.ok (), store.modifyDomain d fun domain =>
      { domain with sets := domain.sets.insert name s })

/-- Registers a function as a fresh set. -/
def registerFunction (d : DomainId) (name : String) (func : Membership α) : Action α SetId := do
  let s ← newSet func
  register d name s
  return s

/-- Takes a name out of a domain. The set that had it stays bound and named. -/
def remove (d : DomainId) (name : String) : Action α (Option SetId) := fun store =>
  match (store.domainAt d).sets.get? name with
  | none => (.ok none, store)
  | some s =>
    (.ok (some s), store.modifyDomain d fun domain =>
      { domain with sets := domain.sets.erase name })

/-! ## A number in all sets of a domain -/

/-- The membership of a number in every registered set. -/
def memberships (store : Store α) (d : DomainId) (x : α) :
    Except (FuzzyError α) (OrderedMap SetId α) := do
  (store.domainAt d).checkRange x
  return .ofList ((store.domainAt d).sets.values.map fun s => (s, store.call s x))

/-- One membership picked among those of all registered sets. -/
def picked (pick : α → α → α) (store : Store α) (d : DomainId) (x : α) :
    Except (FuzzyError α) α := do
  (store.domainAt d).checkRange x
  match (store.domainAt d).sets.values.map fun s => store.call s x with
  | [] => .error (.noSets (store.domainAt d).name)
  | m :: ms => return ms.foldl pick m

/-- The smallest membership of a number. -/
def least (store : Store α) (d : DomainId) (x : α) : Except (FuzzyError α) α :=
  store.picked lesser d x

/-- The largest membership of a number. -/
def greatest (store : Store α) (d : DomainId) (x : α) : Except (FuzzyError α) α :=
  store.picked greater d x

/-- The membership of a number in a set, which lies in the set's domain if it has one. -/
def evaluate (store : Store α) (s : SetId) (x : α) : Except (FuzzyError α) α := do
  match store.domainOf? s with
  | some d => (store.domainAt d).checkRange x
  | none => .ok ()
  return store.call s x

end Store

end FuzzyInference

import FuzzyInference.Rating
import FuzzyInference.Rule.Basic
import FuzzyInference.Session.Answer
import FuzzyInference.Session.Command

/-!
# Sessions

A session holds domains, sets, rules and weighted sums under handles and works on one store.
Handles of domains are their owners: when the last handle of a domain is given to something else or
dropped, the domain is gone.

## Contents
- `Session`, `Session.empty`.
- `Request`: what may fail and may change the session. A failure keeps the changes made before it,
  as those of an `Action` do.
- What handles hold, and how something gets under a handle.
-/

namespace FuzzyInference

open Session in
/-- What is held under handles, and the store behind it. -/
structure Session where
  store : Store Float
  domains : OrderedMap Handle DomainId
  sets : OrderedMap Handle SetId
  rules : OrderedMap Handle Rule
  sums : OrderedMap Handle (WeightedSum Float)

namespace Session

/-- The session that holds nothing. -/
def empty : Session := ⟨.empty, .empty, .empty, .empty, .empty⟩

/-- What may fail and may change the session. -/
abbrev Request (β : Type) := ExceptT Failure (StateM Session) β

/-- An action on the session's store. -/
def onStore {β : Type} (action : Action Float β) : Request β := fun session =>
  let (outcome, store) := action session.store
  (outcome.mapError .error, { session with store := store })

/-- A question to the session's store. -/
def asked {β : Type} (question : Store Float → Except (FuzzyError Float) β) : Request β := do
  onStore (Action.ofExcept (question (← get).store))

/-! ## Handles -/

/-- What a handle holds. -/
def held {β : Type} (table : Session → OrderedMap Handle β) (handle : Handle) : Request β := do
  match (table (← get)).get? handle with
  | some value => return value
  | none => throw (.noHandle handle)

/-- The domain under a handle. -/
def domainAt (handle : Handle) : Request DomainId := held domains handle

/-- The set under a handle. -/
def setAt (handle : Handle) : Request SetId := held sets handle

/-- The rule under a handle. -/
def ruleAt (handle : Handle) : Request Rule := held rules handle

/-- The weighted sum under a handle. -/
def sumAt (handle : Handle) : Request (WeightedSum Float) := held sums handle

/-- A domain and its identity under a handle. -/
def domainValueAt (handle : Handle) : Request (Domain Float) := do
  let d ← domainAt handle
  return (← get).store.domainAt d

/-- Releases the domain that a handle holds, if it holds one. -/
def letGo (session : Session) (handle : Handle) : Session :=
  match session.domains.get? handle with
  | some d => { session with store := session.store.release d }
  | none => session

/-- Puts a domain that counts the handle as an owner under a handle. -/
def holdDomain (target : Handle) (d : DomainId) : Request Unit :=
  modify fun session =>
    let session := session.letGo target
    { session with domains := session.domains.insert target d }

/-- Puts a set under a handle, if one is given, and answers its label. -/
def holdSet (target : Option Handle) (s : SetId) : Request Answer := do
  if let some handle := target then
    modify fun session => { session with sets := session.sets.insert handle s }
  return .set (some ((← get).store.labelText s))

/-- The answer about a set that may not be there. -/
def holdPerhaps (target : Option Handle) : Option SetId → Request Answer
  | some s => holdSet target s
  | none => return .set none

/-- Puts a rule under a handle and answers its size. -/
def holdRule (target : Handle) (rule : Rule) : Request Answer := do
  modify fun session => { session with rules := session.rules.insert target rule }
  return .ruleSize rule.size

end Session

end FuzzyInference

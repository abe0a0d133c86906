import FuzzyInference.Config.Build
import FuzzyInference.Config.Decode
import FuzzyInference.Config.Encode
import FuzzyInference.Session.Basic

/-!
# Commands about domains

Making domains from parameters or documents, asking them for their points and sets, and letting
them go.
-/

namespace FuzzyInference.Session

/-- The parameters of a domain. -/
def domainAnswer (domain : Domain Float) : Answer :=
  .domain domain.name domain.grid.low domain.grid.high domain.res domain.step

/-- The answer to a command about domains. -/
def DomainCommand.answer : DomainCommand → Request Answer
  | .newDomain target name low high res => do
    let d ← onStore (Store.newDomain name low high res)
    holdDomain target d
    return domainAnswer ((← get).store.domainAt d)
  | .buildDomain target text => do
    match DomainConfig.read? text with
    | none => throw (.error .document)
    | some config =>
      let d ← onStore config.build
      holdDomain target d
      return domainAnswer ((← get).store.domainAt d)
  | .cloneDomain handle target => do
    let d ← domainAt handle
    modify fun session => { session with store := session.store.retain d }
    holdDomain target d
    return .domainName ((← get).store.domainAt d).name
  | .dropDomain handle => do
    let wasHeld := ((← get).domains.get? handle).isSome
    modify fun session =>
      let session := session.letGo handle
      { session with domains := session.domains.erase handle }
    return .dropped wasHeld
  | .range handle places => do
    let grid := (← domainValueAt handle).grid
    return .range grid.len (match places with
      | some places => places.map grid.point?
      | none => grid.points.map some)
  | .contains handle x => do return .flag ((← domainValueAt handle).grid.contains x)
  | .setNames handle => do return .texts (← domainValueAt handle).sets.keys
  | .sets handle => do
    let domain ← domainValueAt handle
    let store := (← get).store
    return .registered (domain.sets.entries.map fun (name, s) => (name, store.labelText s))
  | .getSet handle name target => do
    holdPerhaps target ((← domainValueAt handle).sets.get? name)
  | .removeSet handle name target => do
    let d ← domainAt handle
    holdPerhaps target (← onStore (Store.remove d name))
  | .memberships handle x => do
    let d ← domainAt handle
    let found ← asked (·.memberships d x)
    let store := (← get).store
    return .memberships (found.entries.map fun (s, m) => (store.labelText s, m))
  | .least handle x => do
    let d ← domainAt handle
    return .number (← asked (·.least d x))
  | .greatest handle x => do
    let d ← domainAt handle
    return .number (← asked (·.greatest d x))
  | .describe handle => do
    let d ← domainAt handle
    return .document (DomainConfig.ofDomain (← get).store d).write
  | .sameDomain a b => do return .flag ((← domainAt a) = (← domainAt b))
  | .inspectDomain handle => do
    let d ← domainAt handle
    return .text ((← get).store.inspectDomain d)

end FuzzyInference.Session

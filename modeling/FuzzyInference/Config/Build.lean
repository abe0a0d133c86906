import FuzzyInference.Config.Basic
import FuzzyInference.Store.Registry

/-!
# Domains from descriptions and back

A description is built into a domain with its sets registered in order. All functions are checked
before the domain is made. A domain that lives is described by its parameters and the functions of
its sets.
-/

namespace FuzzyInference.DomainConfig

open Scalar

variable {α : Type} [Scalar α]

/-- Fails at the first function that is not accepted. -/
def checkFunctions : List (Membership α) → Except (FuzzyError α) Unit
  | [] => .ok ()
  | func :: funcs => do
    ofFault func.validate
    checkFunctions funcs

/-- Registers functions as fresh sets, one after the other. -/
def registerAll (d : DomainId) : List (String × Membership α) → Action α Unit
  | [] => return ()
  | (name, func) :: rest => do
    let _ ← Store.registerFunction d name func
    registerAll d rest

/-- Builds a domain. A domain whose sets cannot all be registered has no owner. -/
def build (config : DomainConfig α) : Action α DomainId := do
  Action.ofExcept (checkFunctions config.sets.values)
  let d ← Store.newDomain config.name config.low config.high (some config.res)
  try
    registerAll d config.sets.entries
  catch e =>
    modify (·.release d)
    throw e
  return d

/-- Builds several domains, one after the other. If one cannot be built, none has an owner. -/
def buildAll : List (DomainConfig α) → Action α (List DomainId)
  | [] => return []
  | config :: configs => do
    let d ← config.build
    let ds ←
      try
        buildAll configs
      catch e =>
        modify (·.release d)
        throw e
    return d :: ds

/-- The description of a domain. -/
def ofDomain (store : Store α) (d : DomainId) : DomainConfig α :=
  let domain := store.domainAt d
  { name := domain.name
    low := domain.grid.low
    high := domain.grid.high
    res := domain.res
    sets := domain.sets.mapValues fun s => (store.setAt s).func }

end FuzzyInference.DomainConfig

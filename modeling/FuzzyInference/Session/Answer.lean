import FuzzyInference.Error
import FuzzyInference.Store.Basic

/-!
# Answers of a session

What a session says to a command, and the texts it describes things by.
-/

namespace FuzzyInference

namespace Session

/-- Why a command was refused. -/
inductive Failure where
  | error (cause : FuzzyError Float)
  /-- nothing is held under a handle -/
  | noHandle (handle : String)

/-- The answer to a command. -/
inductive Answer where
  | done
  | flag (value : Bool)
  | number (value : Float)
  | count (value : Nat)
  | numbers (values : List Float)
  | perhapsNumber (value : Option Float)
  | text (value : String)
  | texts (values : List String)
  | dropped (wasHeld : Bool)
  | domain (name : String) (low high res step : Float)
  | domainName (name : String)
  /-- how many sample points there are, and those that were asked for -/
  | range (len : Nat) (points : List (Option Float))
  | registered (sets : List (String × String))
  | memberships (sets : List (String × Float))
  | document (text : String)
  | set (label : Option String)
  | setInfo (label : String) (name domain : Option String) (func : String)
  | ruleSize (conditions : Nat)
  | ruleInfo (size : Nat) (isEmpty : Bool)
      (target : Except (FuzzyError Float) (Option String))
      (conditions : List (List String × String))
  | antecedentInfo (size : Nat) (isEmpty : Bool) (sets : List String) (label : Option String)
      (contains : Option Bool)
  | inputsInfo (size : Nat) (isEmpty : Bool) (value : Option Float)

end Session

/-- A value that may be missing, as inspections show it. -/
def inspectOption : Option String → String
  | some text => s!"Some({text})"
  | none => "None"

namespace Store

/-- The label of a set as text. -/
def labelText (store : Store Float) (s : SetId) : String := (store.label s).render

/-- The name of the domain that a set can reach. -/
def domainName? (store : Store Float) (s : SetId) : Option String :=
  (store.domainOf? s).map fun d => (store.domainAt d).name

/-- The inspection of a set. -/
def inspectSet (store : Store Float) (s : SetId) : String :=
  inspectFields "Set"
    [("name", inspectOption ((store.setAt s).name?.map Text.quoted)),
     ("domain", inspectOption ((store.domainName? s).map Text.quoted)),
     ("func", (store.setAt s).func.inspect)]

/-- The inspection of a domain. -/
def inspectDomain (store : Store Float) (d : DomainId) : String :=
  let domain := store.domainAt d
  let n := NumberStyle.inspection.render
  inspectFields "Domain"
    [("name", Text.quoted domain.name), ("low", n domain.grid.low), ("high", n domain.grid.high),
     ("res", n domain.res), ("sets", s!"[{joined (domain.sets.keys.map Text.quoted)}]")]

end Store

end FuzzyInference

import FuzzyInference.Membership.Label
import FuzzyInference.Text.Quoted

/-!
# Errors

Everything that can go wrong while fuzzy structures are built and used, one constructor for each
cause with the values that show it. Membership functions themselves never fail once they are built.

## Contents
- `SetLabel`: how a set is called in labels and messages.
- `FuzzyError`, `FuzzyError.kind`, `FuzzyError.message`.
-/

namespace FuzzyInference

/-- How a set is called: by its domain and name, by its name alone if the domain is missing or
    gone, or by its function. -/
inductive SetLabel (α : Type) where
  | qualified (domain name : String)
  | named (name : String)
  | unnamed (func : Membership α)
  | dangling (func : Membership α)
  deriving Repr

/-- The text of a set's label. -/
def SetLabel.render : SetLabel Float → String
  | qualified domain name => s!"{domain}.{name}"
  | named name => name
  | unnamed func => s!"Set({func.label})"
  | dangling func => s!"dangling Set({func.label})"

/-- A cause of failure. -/
inductive FuzzyError (α : Type) where
  -- parameters of a function
  | function (fault : FunctionFault α)
  -- making a domain
  | invalidIdentifier (name : String)
  | invalidBounds (name : String) (low high : α)
  | invalidResolution (name : String) (res : α)
  | tooManyPoints (name : String) (res low high : α) (limit : Nat)
  -- registering a set
  | invalidSetName (name : String)
  | boundElsewhere (set : SetLabel α) (domain : String)
  | namedOtherwise (set : SetLabel α) (current name : String)
  -- asking a domain or a set
  | noSets (domain : String)
  | noPoints (set : SetLabel α)
  | zeroEverywhere (set : SetLabel α)
  | unbound (set : SetLabel α)
  | differentDomains (a b : SetLabel α)
  | incomparable (a b : SetLabel α)
  | outOfRange (domain : String) (value low high : α)
  -- rules
  | differentTargets (first other : SetLabel α)
  | unboundConsequent (set : SetLabel α)
  | unboundAntecedent (set : SetLabel α)
  | noInput (domain : String)
  | unknownMethod (name : String)
  | zeroWeight
  | noCurve (domain : String)
  -- rule tables
  | emptyTable
  | unqualifiedCell (cell : String)
  | unknownAlias (space cell : String)
  | unknownSet (domain name : String)
  | unevenRow (row : SetLabel α) (given expected : Nat)
  -- ratings
  | emptyInterval (low high : α)
  | weightsTotal (total : α)
  | unknownFactor (name : String)
  -- a document that does not describe what it should
  | document
  deriving Repr

/-- The four kinds of failure, and malformed documents. -/
inductive ErrorKind where
  | configuration
  | domainMismatch
  | outOfRange
  | defuzzification
  | document
  deriving DecidableEq, Repr

namespace FuzzyError

/-- The kind of a failure. -/
def kind {α : Type} : FuzzyError α → ErrorKind
  | unbound _ | differentDomains _ _ | incomparable _ _ | differentTargets _ _
  | unboundConsequent _ | unboundAntecedent _ => .domainMismatch
  | outOfRange _ _ _ _ => .outOfRange
  | zeroWeight | noCurve _ => .defuzzification
  | document => .document
  | _ => .configuration

/-- What a failure says about its cause. -/
def detail : FuzzyError Float → String
  | function fault => fault.message
  | invalidIdentifier name => s!"{Text.quoted name} is not a valid identifier"
  | invalidBounds name low high => s!"{name}: need finite low < high, got {n low} and {n high}"
  | invalidResolution name res =>
    s!"{name}: resolution must be finite and positive, got {n res}"
  | tooManyPoints name res low high limit =>
    s!"{name}: resolution {n res} over [{n low}, {n high}] needs more than {limit} points"
  | invalidSetName name => s!"{Text.quoted name} is not a valid set name"
  | boundElsewhere set domain =>
    s!"{set.render} is already bound to another domain than {domain}"
  | namedOtherwise set current name =>
    s!"{set.render} is already named {current}, can't rename it to {name}"
  | noSets domain => s!"{domain} has no sets"
  | noPoints set => s!"{set.render} has no sample points"
  | zeroEverywhere set => s!"{set.render} is zero everywhere, can't normalize it"
  | unbound set => s!"{set.render} has no domain"
  | differentDomains a b => s!"{a.render} and {b.render} belong to different domains"
  | incomparable a b => s!"can't compare {a.render} and {b.render} without domains"
  | outOfRange domain value low high =>
    s!"{n value} is outside of domain {domain} [{n low}, {n high}]"
  | differentTargets first other =>
    s!"consequents {first.render} and {other.render} have different domains"
  | unboundConsequent set => s!"consequent {set.render} is not bound to a domain"
  | unboundAntecedent set => s!"antecedent {set.render} is not bound to a domain"
  | noInput domain => s!"no input value for domain {domain}"
  | unknownMethod name => s!"unknown defuzzification method {Text.quoted name}"
  | zeroWeight => "total weight is zero, there is no center of gravity"
  | noCurve domain => s!"{domain} has no sample points"
  | emptyTable => "rule table is empty"
  | unqualifiedCell cell => s!"{Text.quoted cell} is not of the form domain.set"
  | unknownAlias space cell => s!"unknown domain {Text.quoted space} in {Text.quoted cell}"
  | unknownSet domain name => s!"{domain} has no set {Text.quoted name}"
  | unevenRow row given expected =>
    s!"row {row.render} has {given} consequents for {expected} columns"
  | emptyInterval low high => s!"rescale needs in_min < in_max, got {n low} and {n high}"
  | weightsTotal total => s!"weights must add up to 1, got {n total}"
  | unknownFactor name => s!"no weight for factor {name}"
  | document => "malformed document"
where
  n (x : Float) : String := NumberStyle.plain.render x

/-- What stands before the cause in the message of a kind. -/
def lead : ErrorKind → String
  | .configuration => "invalid configuration: "
  | .domainMismatch => "domain mismatch: "
  | .outOfRange => ""
  | .defuzzification => "cannot defuzzify: "
  | .document => "config: "

/-- The message of a failure. -/
def message (e : FuzzyError Float) : String := lead e.kind ++ e.detail

end FuzzyError

end FuzzyInference

import FuzzyInference.Membership.Expression
import FuzzyInference.Store.Comparison

/-!
# Commands of a session

What can be asked of a session. Domains, sets, rules and weighted sums are named by handles; a
command that makes one says which handle is to hold it.
-/

namespace FuzzyInference.Session

/-- The name of something that a session holds. -/
abbrev Handle := String

/-- The set to register: a function for a fresh one, or a set that is there. -/
inductive SetSource where
  | function (request : Expression Float)
  | handle (set : Handle)

/-- A command about domains. -/
inductive DomainCommand where
  | newDomain (target : Handle) (name : String) (low high : Float) (res : Option Float)
  | buildDomain (target : Handle) (text : String)
  | cloneDomain (domain target : Handle)
  | dropDomain (domain : Handle)
  | range (domain : Handle) (places : Option (List Nat))
  | contains (domain : Handle) (x : Float)
  | setNames (domain : Handle)
  | sets (domain : Handle)
  | getSet (domain : Handle) (name : String) (target : Option Handle)
  | removeSet (domain : Handle) (name : String) (target : Option Handle)
  | memberships (domain : Handle) (x : Float)
  | least (domain : Handle) (x : Float)
  | greatest (domain : Handle) (x : Float)
  | describe (domain : Handle)
  | sameDomain (a b : Handle)
  | inspectDomain (domain : Handle)

/-- A command about sets. -/
inductive SetCommand where
  | newSet (request : Expression Float) (target : Option Handle)
  | dropSet (set : Handle)
  | register (domain : Handle) (name : String) (source : SetSource) (target : Option Handle)
  | bind (set domain : Handle)
  | describeSet (set : Handle)
  | inspectSet (set : Handle)
  | sameSet (a b : Handle)
  | unary (op : UnaryOperator Float) (set : Handle) (target : Option Handle)
  /-- with `weightFirst` a weight is checked before the sets are looked at -/
  | binary (op : Combinator Float) (weightFirst : Bool) (a b : Handle) (target : Option Handle)
  | call (set : Handle) (xs : List Float)
  | evaluate (set : Handle) (x : Float)
  | array (set : Handle)
  | samplePoints (set : Handle)
  | centerOfGravity (set : Handle)
  | len (set : Handle)
  | cardinality (set : Handle)
  | relativeCardinality (set : Handle)
  | compare (rel : Relation) (a b : Handle)

/-- A command about rules and ratings. -/
inductive RuleCommand where
  | newRule (target : Handle) (conditions : List (List Handle × Handle))
  | table (target : Handle) (text : String) (aliases : List (String × Handle))
  | union (target a b : Handle)
  | combine (target : Handle) (rules : List Handle)
  | sameRule (a b : Handle)
  | consequentOf (rule : Handle) (sets : List Handle)
  | describeRule (rule : Handle)
  | antecedent (sets : List Handle) (set : Option Handle)
  | inputs (values : List (Handle × Float)) (domain : Handle)
  /-- without a method the center of gravity is taken -/
  | infer (rule : Handle) (method : Option String) (values : List (Handle × Float))
  | meanCenter (weighted : List (Handle × Float))
  | newWeights (target : Handle) (weights : List (String × Float)) (domain : Handle)
  | rate (weights : Handle) (memberships : List (String × Float))

/-- A command of a session. -/
inductive Command where
  | domain (command : DomainCommand)
  | set (command : SetCommand)
  | rule (command : RuleCommand)

end FuzzyInference.Session

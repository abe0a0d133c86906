import FuzzyInference.Proofs.Store.Operation
import FuzzyInference.Rule.Table

/-!
# What is answered

The answer to each operation, beside the store that it leaves, and the answers to the questions that
only read a store: how a set is called, its memberships, what a domain registers, which rules can be
made. No question keeps anything, so asking one is no step of a run.

## Contents
- `Reply`, `Reply.sets`: answers, and the sets that they hand out.
- `Operation.reply`: the answer to an operation.
- `Question`, `Question.ask`: what can be read of a store.
-/

namespace FuzzyInference

/-- An answer. -/
inductive Reply (α : Type) where
  | done
  | domain (d : DomainId)
  | domains (ds : List DomainId)
  /-- the domain that a set reaches or that a rule concludes to -/
  | reached (d? : Option DomainId)
  | number (x : α)
  /-- what a rule infers -/
  | inferred (x? : Option α)
  | numbers (xs : List α)
  | count (n : Nat)
  | truth (b : Bool)
  | label (label : SetLabel α)
  | described (config : DomainConfig α)
  | set (s : SetId)
  /-- a set that a name was taken from, or that a rule concludes to -/
  | found (s? : Option SetId)
  | registered (entries : List (String × SetId))
  | weights (entries : List (SetId × α))
  | rule (rule : Rule)

/-- The sets of a rule, those of the antecedents before the consequents. -/
def Rule.sets (rule : Rule) : List SetId :=
  rule.conditions.keys.flatMap Antecedent.sets ++ rule.consequents

/-- The sets that an answer hands out. -/
def Reply.sets {α : Type} : Reply α → List SetId
  | set s => [s]
  | found s? => s?.toList
  | registered entries => entries.map Prod.snd
  | weights entries => entries.map Prod.fst
  | rule r => r.sets
  | _ => []

/-- The answer to an operation. -/
def Operation.reply {α : Type} [Scalar α] (op : Operation α) (store : Store α) :
    Except (FuzzyError α) (Reply α) :=
  match op with
  | newDomain name low high res? => (Store.newDomain name low high res? store).1.map .domain
  | build config => (config.build store).1.map .domain
  | buildAll configs => (DomainConfig.buildAll configs store).1.map .domains
  | share _ | drop _ => .ok .done
  | newSet func => (Store.newSet func store).1.map .set
  | registerFunction d name func => (Store.registerFunction d name func store).1.map .set
  | register d name s => (Store.register d name s store).1.map fun _ => .done
  | bind s d => (Store.bind s d store).1.map fun _ => .done
  | remove d name => (Store.remove d name store).1.map .found
  | unary op s => (Store.deriveUnary op s store).1.map .set
  | binary op s t => (Store.deriveBinary op s t store).1.map .set
  | array s => (Store.array s store).1.map .numbers
  | centerOfGravity s => (Store.centerOfGravity s store).1.map .number
  | len s => (Store.len s store).1.map .count
  | cardinality s => (Store.cardinality s store).1.map .number
  | relativeCardinality s => (Store.relativeCardinality s store).1.map .number
  | compare rel s t => (Store.compare rel s t store).1.map .truth
  | meanCenter weighted => (FuzzyInference.meanCenter weighted store).1.map .number
  | infer rule inputs method => (rule.evaluate inputs method store).1.map .inferred

/-- What can be read of a store. -/
inductive Question (α : Type) where
  | label (s : SetId)
  /-- the domain that a set reaches -/
  | reached (s : SetId)
  | call (s : SetId) (x : α)
  | evaluate (s : SetId) (x : α)
  | samplePoints (s : SetId)
  | describe (d : DomainId)
  | registered (d : DomainId)
  | memberships (d : DomainId) (x : α)
  | least (d : DomainId) (x : α)
  | greatest (d : DomainId) (x : α)
  | ofConditions (conditions : List (List SetId × SetId))
  | ofTable (text : String) (space : Namespace)
  | union (r₁ r₂ : Rule)
  | combine (rules : List Rule)
  | consequentOf (rule : Rule) (sets : List SetId)
  | sameRule (r₁ r₂ : Rule)
  | target (rule : Rule)

end FuzzyInference

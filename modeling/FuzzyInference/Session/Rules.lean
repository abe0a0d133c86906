import FuzzyInference.Rule.Inference
import FuzzyInference.Rule.Table
import FuzzyInference.Session.Basic

/-!
# Commands about rules and ratings

Making rules from conditions, tables and other rules, inferring with them, and rating by weights.
-/

namespace FuzzyInference.Session

/-- Texts in the order of code points. -/
def sorted (texts : List String) : List String := texts.mergeSort fun a b => !(b < a)

/-- The labels of the sets of an antecedent, in the order of code points. -/
def antecedentLabels (store : Store Float) (a : Antecedent) : List String :=
  sorted (a.sets.map store.labelText)

/-- The values given for domains, as inputs. -/
def inputsOf (values : List (Handle × Float)) : Request (Inputs Float) := do
  return .ofList (← values.mapM fun (handle, x) => do return (← domainAt handle, x))

/-- Pairs of sets and numbers. -/
def weightedOf (pairs : List (Handle × Float)) : Request (List (SetId × Float)) :=
  pairs.mapM fun (handle, weight) => do return (← setAt handle, weight)

/-- The method of a name; the center of gravity without one. -/
def methodOf : Option String → Request Method
  | none => return default
  | some name => asked fun _ =>
    match Method.ofName? name with
    | some method => .ok method
    | none => .error (.unknownMethod name)

/-- The answer to a command about rules and ratings. -/
def RuleCommand.answer : RuleCommand → Request Answer
  | .newRule target conditions => do
    let conditions ← conditions.mapM fun (sets, consequent) => do
      return (← sets.mapM setAt, ← setAt consequent)
    holdRule target (← asked fun store => Rule.ofConditions store conditions)
  | .table target text aliases => do
    let space ← aliases.mapM fun (word, handle) => do return (word, ← domainAt handle)
    holdRule target (← asked fun store => Rule.ofTable store text (.ofList space))
  | .union target a b => do
    let a ← ruleAt a
    let b ← ruleAt b
    holdRule target (← asked fun store => Rule.union store a b)
  | .combine target handles => do
    let rules ← handles.mapM ruleAt
    holdRule target (← asked fun store => Rule.combine store rules)
  | .sameRule a b => do return .flag ((← ruleAt a) == (← ruleAt b))
  | .consequentOf handle sets => do
    let rule ← ruleAt handle
    let sets ← sets.mapM setAt
    holdPerhaps none (rule.get? sets)
  | .describeRule handle => do
    let rule ← ruleAt handle
    let store := (← get).store
    return .ruleInfo rule.size rule.isEmpty
      ((rule.target? store).map fun d => d.map fun d => (store.domainAt d).name)
      (rule.conditions.entries.map fun (a, s) => (antecedentLabels store a, store.labelText s))
  | .antecedent sets set => do
    let sets ← sets.mapM setAt
    let set ← set.mapM setAt
    let a := Antecedent.ofList sets
    let labels := antecedentLabels (← get).store a
    return .antecedentInfo a.sets.length a.sets.isEmpty labels
      (if a.sets.length < 2 then some s!"({joined labels})" else none) (set.map a.contains)
  | .inputs values domain => do
    let inputs ← inputsOf values
    let d ← domainAt domain
    return .inputsInfo inputs.size inputs.isEmpty (inputs.get? d)
  | .infer handle method values => do
    let rule ← ruleAt handle
    let method ← methodOf method
    let inputs ← inputsOf values
    return .perhapsNumber (← onStore (rule.evaluate inputs method))
  | .meanCenter weighted => do
    let weighted ← weightedOf weighted
    return .number (← onStore (FuzzyInference.meanCenter weighted))
  | .newWeights target weights domain => do
    let targetDomain ← domainValueAt domain
    let sum ← asked fun _ => WeightedSum.make weights targetDomain
    modify fun session => { session with sums := session.sums.insert target sum }
    return .done
  | .rate handle memberships => do
    let sum ← sumAt handle
    return .number (← asked fun _ => sum.rate memberships)

end FuzzyInference.Session

import FuzzyInference.Session.Basic
import FuzzyInference.Store.Comparison
import FuzzyInference.Store.Registry

/-!
# Commands about sets

Making sets from functions and from other sets, registering them, and asking for their memberships.
-/

namespace FuzzyInference.Session

/-- The function that is asked for, or the reason why there is none. -/
def built (request : Expression Float) : Request (Membership Float) :=
  asked fun _ => ofFault request.build

/-- The answer to a command about sets. -/
def SetCommand.answer : SetCommand → Request Answer
  | .newSet request target => do
    let func ← built request
    holdSet target (← onStore (Store.newSet func))
  | .dropSet handle => do
    let wasHeld := ((← get).sets.get? handle).isSome
    modify fun session => { session with sets := session.sets.erase handle }
    return .dropped wasHeld
  | .register handle name source target => do
    let d ← domainAt handle
    match source with
    | .function request =>
      let func ← built request
      holdSet target (← onStore (Store.registerFunction d name func))
    | .handle set =>
      let s ← setAt set
      onStore (Store.register d name s)
      holdSet target s
  | .bind set domain => do
    let s ← setAt set
    let d ← domainAt domain
    onStore (Store.bind s d)
    holdSet none s
  | .describeSet set => do
    let s ← setAt set
    let store := (← get).store
    return .setInfo (store.labelText s) (store.setAt s).name? (store.domainName? s)
      (store.setAt s).func.label
  | .inspectSet set => do
    let s ← setAt set
    return .text ((← get).store.inspectSet s)
  | .sameSet a b => do return .flag ((← setAt a) = (← setAt b))
  | .unary op set target => do
    let s ← setAt set
    holdSet target (← onStore (Store.deriveUnary op s))
  | .binary op weightFirst a b target => do
    if weightFirst then
      asked fun _ => ofFault op.checkWeight
    let s ← setAt a
    let t ← setAt b
    holdSet target (← onStore (Store.deriveBinary op s t))
  | .call set xs => do
    let s ← setAt set
    let store := (← get).store
    return .numbers (xs.map (store.call s))
  | .evaluate set x => do
    let s ← setAt set
    return .number (← asked (·.evaluate s x))
  | .array set => do
    let s ← setAt set
    return .numbers (← onStore (Store.array s))
  | .samplePoints set => do
    let s ← setAt set
    return .numbers (← asked (·.samplePoints s))
  | .centerOfGravity set => do
    let s ← setAt set
    return .number (← onStore (Store.centerOfGravity s))
  | .len set => do
    let s ← setAt set
    return .count (← onStore (Store.len s))
  | .cardinality set => do
    let s ← setAt set
    return .number (← onStore (Store.cardinality s))
  | .relativeCardinality set => do
    let s ← setAt set
    return .number (← onStore (Store.relativeCardinality s))
  | .compare rel a b => do
    let s ← setAt a
    let t ← setAt b
    return .flag (← onStore (Store.compare rel s t))

end FuzzyInference.Session

import FuzzyInference.Membership.Expression
import FuzzyInference.Store.Sampling

/-!
# Sets derived from sets

Operators on sets. A derived set has no name and is bound to what its (left) operand is bound to.
Two operands have to be bound to the same domain or both to none; whether that domain still lives
does not matter.

## Contents
- `UnaryOperator`, `deriveUnary`: one operand.
- `deriveBinary`: two operands under any combinator.
-/

namespace FuzzyInference

open Scalar

/-- A way to derive a set from one other. -/
inductive UnaryOperator (α : Type) where
  /-- the complement -/
  | complement
  | hedged (hedge : Hedge)
  /-- the square -/
  | concentrated
  /-- the square root -/
  | dilated
  /-- away from one half -/
  | intensified
  /-- divided by the largest sampled membership -/
  | normalized
  /-- to a power, which is checked -/
  | raised (exponent : α)
  deriving Repr

namespace Store

variable {α : Type} [Scalar α]

/-- The set that has a changed function. -/
def reshaped (s : SetId) (change : Membership α → Except (FunctionFault α) (Membership α)) :
    Action α SetId := do
  derive s (← Action.ofExcept (ofFault (change ((← get).setAt s).func)))

/-- The same shape, scaled so that its largest sampled membership is 1. -/
def normalized (s : SetId) : Action α SetId := do
  let height := (← array s).foldl greater 0.0
  if height ≤ 0.0 then throw (.zeroEverywhere ((← get).label s))
  reshaped s (Membership.normalized height)

/-- The set that an operator derives from another. -/
def deriveUnary (op : UnaryOperator α) (s : SetId) : Action α SetId :=
  match op with
  | .complement => reshaped s fun func => .ok (.inv func)
  | .hedged hedge => reshaped s fun func => .ok (func.hedged hedge)
  | .concentrated => reshaped s fun func => .ok (.power 2.0 func)
  | .dilated => reshaped s fun func => .ok (.power 0.5 func)
  | .intensified => reshaped s fun func => .ok (.intensify func)
  | .normalized => normalized s
  | .raised exponent => reshaped s (Membership.raised exponent)

/-- Fails unless two sets are bound to the same domain or both to none. -/
def checkSameDomain (store : Store α) (s t : SetId) : Except (FuzzyError α) Unit :=
  ensure ((store.setAt s).domain? = (store.setAt t).domain?)
    (.differentDomains (store.label s) (store.label t))

/-- The set that combines two others. -/
def deriveBinary (op : Combinator α) (s t : SetId) : Action α SetId := do
  let store ← get
  Action.ofExcept (store.checkSameDomain s t)
  derive s (← Action.ofExcept (ofFault
    (Membership.combined op [(store.setAt s).func, (store.setAt t).func])))

end Store

end FuzzyInference

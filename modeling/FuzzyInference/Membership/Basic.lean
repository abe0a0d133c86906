import FuzzyInference.Combinator
import FuzzyInference.Membership.Shape

/-!
# Membership functions

A membership function is an elementary shape or is built from other membership functions. Building
keeps the tree, so a function can be inspected, checked, written down and compared.

## Contents
- `Membership`: shapes, the transformations of one function, and combinations of several.
- `Membership.evaluate`: the membership of a number.
- `Membership.beq`: equality of trees, with the number type's own equality at the leaves.
-/

namespace FuzzyInference

/-- A membership function. -/
inductive Membership (α : Type) where
  | shape (curve : Shape α)
  /-- the complement -/
  | inv (func : Membership α)
  /-- values at or beyond a threshold are replaced by its clip -/
  | alpha (floor ceiling floorClip ceilingClip : α) (func : Membership α)
  /-- divided by a height, and at most 1 -/
  | normalize (height : α) (func : Membership α)
  /-- pulled towards one half -/
  | moderate (func : Membership α)
  /-- raised to a power -/
  | power (exponent : α) (func : Membership α)
  /-- pushed away from one half -/
  | intensify (func : Membership α)
  /-- several functions under a combinator -/
  | combination (op : Combinator α) (operands : List (Membership α))
  deriving Repr

instance {α : Type} : Inhabited (Membership α) := ⟨.shape .identity⟩

namespace Membership

section Evaluation

open Scalar

variable {α : Type} [Scalar α]

/-- A membership pulled towards one half. -/
def moderated (m : α) : α := 0.5 + 4.0 * cube (m - 0.5)

/-- A membership pushed away from one half. -/
def intensified (m : α) : α :=
  if m < 0.5 then 2.0 * square m else 1.0 - 2.0 * square (1.0 - m)

/-- A membership clipped at two thresholds. -/
def clipped (floor ceiling floorClip ceilingClip m : α) : α :=
  if ceiling ≤ m then ceilingClip else if m ≤ floor then floorClip else m

mutual

/-- The membership of `x`. -/
def evaluate (x : α) : Membership α → α
  | shape curve => curve.evaluate x
  | inv func => 1.0 - evaluate x func
  | alpha floor ceiling floorClip ceilingClip func =>
    clipped floor ceiling floorClip ceilingClip (evaluate x func)
  | normalize height func => lesser (evaluate x func / height) 1.0
  | moderate func => moderated (evaluate x func)
  | power exponent func => pow (evaluate x func) exponent
  | intensify func => intensified (evaluate x func)
  | combination op operands => op.reduce (evaluateAll x operands)

/-- The memberships of `x` in several functions. -/
def evaluateAll (x : α) : List (Membership α) → List α
  | [] => []
  | func :: funcs => evaluate x func :: evaluateAll x funcs

end

theorem evaluateAll_eq_map (x : α) (funcs : List (Membership α)) :
    evaluateAll x funcs = funcs.map (evaluate x) := by
  induction funcs with
  | nil => rfl
  | cons func funcs ih => simp [evaluateAll, ih]

end Evaluation

section Equality

variable {α : Type} [BEq α]

mutual

/-- Whether two trees are the same, numbers compared as numbers. -/
def beq : Membership α → Membership α → Bool
  | shape a, shape b => a == b
  | inv f, inv g => beq f g
  | alpha a b c d f, alpha a' b' c' d' g => a == a' && b == b' && c == c' && d == d' && beq f g
  | normalize h f, normalize h' g => h == h' && beq f g
  | moderate f, moderate g => beq f g
  | power e f, power e' g => e == e' && beq f g
  | intensify f, intensify g => beq f g
  | combination op fs, combination op' gs => op == op' && beqAll fs gs
  | _, _ => false

/-- Whether two lists hold the same trees in the same order. -/
def beqAll : List (Membership α) → List (Membership α) → Bool
  | [], [] => true
  | f :: fs, g :: gs => beq f g && beqAll fs gs
  | _, _ => false

end

instance : BEq (Membership α) := ⟨beq⟩

end Equality

/-- The point at which a function that is itself a singleton has its spike. -/
def spike? {α : Type} : Membership α → Option α
  | shape (.singleton location _ _) => some location
  | _ => none

end Membership

end FuzzyInference

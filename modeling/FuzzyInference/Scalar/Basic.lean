/-!
# Scalars

The numbers that memberships, grids and defuzzification are computed with. Every numeric definition
of the library is generic in a `Scalar`, so that one definition has a reading in machine numbers,
where each operation rounds, and a reading in an exact ordered field.

## Contents
- `Scalar`: the operations, with comparisons that decide.
- `isFinite`, `lesser`, `greater`, `clamp`, `square`, `cube`, `sum`: what is built from them.
-/

namespace FuzzyInference

/-- Numbers with the operations of fuzzy arithmetic. `toNat` is the whole part of a positive number
    and 0 of any other; `round` sends a half away from zero; `ofScientific` reads a numeral. -/
class Scalar (α : Type) where
  add : α → α → α
  sub : α → α → α
  mul : α → α → α
  div : α → α → α
  neg : α → α
  lt : α → α → Prop
  le : α → α → Prop
  decLt : DecidableRel lt
  decLe : DecidableRel le
  beq : α → α → Bool
  ofScientific : Nat → Bool → Nat → α
  ofNat : Nat → α
  toNat : α → Nat
  abs : α → α
  floor : α → α
  round : α → α
  exp : α → α
  ln : α → α
  sqrt : α → α
  pow : α → α → α
  isNaN : α → Bool
  isInfinite : α → Bool

namespace Scalar

variable {α : Type} [Scalar α]

/-! ## Operators

The operators give way to those that a number type has of its own. -/

instance (priority := low) instAdd : Add α := ⟨add⟩

instance (priority := low) instSub : Sub α := ⟨sub⟩

instance (priority := low) instMul : Mul α := ⟨mul⟩

instance (priority := low) instDiv : Div α := ⟨div⟩

instance (priority := low) instNeg : Neg α := ⟨neg⟩

instance (priority := low) instLT : LT α := ⟨lt⟩

instance (priority := low) instLE : LE α := ⟨le⟩

instance (priority := low) instBEq : BEq α := ⟨beq⟩

instance (priority := low) instOfScientific : OfScientific α := ⟨ofScientific⟩

instance (priority := low) instDecidableLT : DecidableLT α := decLt

instance (priority := low) instDecidableLE : DecidableLE α := decLe

/-! ## What is built from the operations -/

/-- Neither infinite nor NaN. -/
@[inline] def isFinite (x : α) : Bool := !isNaN x && !isInfinite x

/-- The smaller of two numbers; NaN gives way to the other operand. -/
@[inline] def lesser (u v : α) : α := if v < u || isNaN u then v else u

/-- The larger of two numbers; NaN gives way to the other operand. -/
@[inline] def greater (u v : α) : α := if u < v || isNaN u then v else u

/-- The nearest point of `[low, high]`; NaN stays NaN. -/
@[inline] def clamp (x low high : α) : α := if x < low then low else if high < x then high else x

@[inline] def square (x : α) : α := x * x

@[inline] def cube (x : α) : α := x * x * x

/-- Whether `x` lies in the closed unit interval. -/
@[inline] def inUnit (x : α) : Bool := (0.0 : α) ≤ x && x ≤ (1.0 : α)

/-- The sum from left to right. It starts from the negative zero, which is the neutral element of
    addition also where zeros are signed. -/
def sum (xs : List α) : α := xs.foldl (· + ·) (-(0.0 : α))

end Scalar

end FuzzyInference

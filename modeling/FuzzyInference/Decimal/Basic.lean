import FuzzyInference.Scalar.Machine

/-!
# Decimal numerals

A decimal is a coefficient and a power of ten. Reading takes it to the nearest double; a decimal
that lies beyond the finite doubles does not read at all.
-/

namespace FuzzyInference

/-- The number `coefficient · 10 ^ exponent`. -/
structure Decimal where
  coefficient : Nat
  exponent : Int
  deriving DecidableEq, Repr

namespace Decimal

/-- The digits of the coefficient, leading digit first. -/
def digits (d : Decimal) : List Char := Nat.toDigits 10 d.coefficient

/-- The power of ten that the leading digit counts. -/
def lead (d : Decimal) : Int := d.exponent + d.digits.length - 1

/-- Leading digits from this power of ten on lie beyond every finite double. -/
def overflowLead : Int := 309

/-- Below this power of ten a leading digit is less than half of the smallest positive double. -/
def underflowLead : Int := -324

/-- The double nearest to a decimal, `none` if that is infinite. The two ends are settled by the
    place of the leading digit alone, so that no power of ten is taken of an exponent that only its
    text bounds. -/
def toDouble? (d : Decimal) : Option Float :=
  if d.coefficient = 0 then some 0.0
  else if overflowLead ≤ d.lead then none
  else if d.lead < underflowLead then some 0.0
  else
    let x := Float.ofScientific d.coefficient (d.exponent < 0) d.exponent.natAbs
    if x.isInf then none else some x

end Decimal

end FuzzyInference

/-!
# Binary floating-point numbers, unpacked

A finite binary number is `± significand · 2 ^ exponent`. Whole parts and roundings to an integer
are taken here, on the unpacked form and in integer arithmetic, so that each of them can be
computed and reasoned about without the machine's own rounding functions.
-/

namespace FuzzyInference

/-- The value `± significand · 2 ^ exponent`. -/
structure Unpacked where
  negative : Bool
  significand : Nat
  exponent : Int
  deriving DecidableEq, Repr

namespace Unpacked

/-- Reads the fields of an encoding with the given widths: sign, biased exponent, fraction. The
    smallest biased exponent marks a number without the implicit leading bit. The largest one marks
    infinities and NaN, which have no unpacked form and are not asked for. -/
def ofBits (fractionBits exponentBits : Nat) (bits : Nat) : Unpacked :=
  let fraction := bits % Nat.pow 2 fractionBits
  let biased := bits / Nat.pow 2 fractionBits % Nat.pow 2 exponentBits
  let bias : Int := Int.pow 2 (exponentBits - 1) - 1 + fractionBits
  { negative := bits / Nat.pow 2 (fractionBits + exponentBits) % 2 == 1
    significand := if biased = 0 then fraction else fraction + Nat.pow 2 fractionBits
    exponent := (if biased = 0 then 1 else (biased : Int)) - bias }

/-- Whether there are no binary places after the point. -/
def isWhole (u : Unpacked) : Bool := 0 ≤ u.exponent

/-- The number of units that one whole number is worth, when there are places after the point. -/
def unit (u : Unpacked) : Nat := Nat.pow 2 (-u.exponent).toNat

/-- The largest whole number that the magnitude reaches. -/
def truncated (u : Unpacked) : Nat :=
  if u.isWhole then u.significand * Nat.pow 2 u.exponent.toNat else u.significand / u.unit

/-- The least whole number that the magnitude does not exceed. -/
def raised (u : Unpacked) : Nat :=
  if u.isWhole then u.significand * Nat.pow 2 u.exponent.toNat
  else (u.significand + (u.unit - 1)) / u.unit

/-- The whole number nearest to the magnitude; a half goes up. -/
def nearest (u : Unpacked) : Nat :=
  if u.isWhole then u.significand * Nat.pow 2 u.exponent.toNat
  else (2 * u.significand + u.unit) / (2 * u.unit)

/-- The magnitude of the floor: away from zero for a negative number. -/
def floorMagnitude (u : Unpacked) : Nat := if u.negative then u.raised else u.truncated

end Unpacked

end FuzzyInference

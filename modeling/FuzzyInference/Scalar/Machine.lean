import FuzzyInference.Scalar.Basic
import FuzzyInference.Scalar.Unpacked

/-!
# Machine numbers as scalars

Double and single precision. Floor, rounding and the whole part go through the unpacked form; the
elementary functions are those of the C library.
-/

namespace FuzzyInference

namespace Double

/-- The unpacked form of a finite double. -/
def unpack (x : Float) : Unpacked := .ofBits 52 11 x.toBits.toNat

/-- Replaces a number by a whole one that `magnitude` picks; the sign stays, also that of a zero.
    Numbers without binary places, infinities and NaN stay as they are. -/
@[inline] def toWhole (magnitude : Unpacked → Nat) (x : Float) : Float :=
  let u := unpack x
  if u.isWhole || x.isNaN || x.isInf then x
  else if u.negative then -Float.ofNat (magnitude u) else Float.ofNat (magnitude u)

/-- The largest whole number not above `x`. -/
def floor (x : Float) : Float := toWhole Unpacked.floorMagnitude x

/-- The whole number nearest to `x`; a half goes away from zero. -/
def round (x : Float) : Float := toWhole Unpacked.nearest x

/-- The whole part of a positive number, 0 of any other and of what is not finite. -/
def toNat (x : Float) : Nat :=
  let u := unpack x
  if u.negative || x.isNaN || x.isInf then 0 else u.truncated

end Double

instance : Scalar Float where
  add := (· + ·)
  sub := (· - ·)
  mul := (· * ·)
  div := (· / ·)
  neg := (-·)
  lt := (· < ·)
  le := (· ≤ ·)
  decLt := fun x y => inferInstanceAs (Decidable (x < y))
  decLe := fun x y => inferInstanceAs (Decidable (x ≤ y))
  beq := (· == ·)
  ofScientific := OfScientific.ofScientific
  ofNat := Float.ofNat
  toNat := Double.toNat
  abs := Float.abs
  floor := Double.floor
  round := Double.round
  exp := Float.exp
  ln := Float.log
  sqrt := Float.sqrt
  pow := Float.pow
  isNaN := Float.isNaN
  isInfinite := Float.isInf

namespace Single

/-- The unpacked form of a finite single. -/
def unpack (x : Float32) : Unpacked := .ofBits 23 8 x.toBits.toNat

/-- Replaces a number by a whole one that `magnitude` picks, as for doubles. -/
@[inline] def toWhole (magnitude : Unpacked → Nat) (x : Float32) : Float32 :=
  let u := unpack x
  if u.isWhole || x.isNaN || x.isInf then x
  else if u.negative then -Float32.ofNat (magnitude u) else Float32.ofNat (magnitude u)

/-- The whole part of a positive number, 0 of any other and of what is not finite. -/
def toNat (x : Float32) : Nat :=
  let u := unpack x
  if u.negative || x.isNaN || x.isInf then 0 else u.truncated

end Single

instance : Scalar Float32 where
  add := (· + ·)
  sub := (· - ·)
  mul := (· * ·)
  div := (· / ·)
  neg := (-·)
  lt := (· < ·)
  le := (· ≤ ·)
  decLt := fun x y => inferInstanceAs (Decidable (x < y))
  decLe := fun x y => inferInstanceAs (Decidable (x ≤ y))
  beq := (· == ·)
  ofScientific := OfScientific.ofScientific
  ofNat := Float32.ofNat
  toNat := Single.toNat
  abs := Float32.abs
  floor := Single.toWhole Unpacked.floorMagnitude
  round := Single.toWhole Unpacked.nearest
  exp := Float32.exp
  ln := Float32.log
  sqrt := Float32.sqrt
  pow := Float32.pow
  isNaN := Float32.isNaN
  isInfinite := Float32.isInf

end FuzzyInference

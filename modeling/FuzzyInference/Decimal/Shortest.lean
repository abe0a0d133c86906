import FuzzyInference.Decimal.Basic

/-!
# Shortest decimals

The decimal with the fewest digits that reads back as a given double. Among decimals with one
number of digits only the two neighbours of the double on their grid can be the nearest one, so
those two are tried, on one digit first, then on two, and so on. A double is itself a decimal,
which stands in where no grid is fine enough.
-/

namespace FuzzyInference

/-- Which of two equally near decimals is taken. -/
inductive Tie where
  | up
  | toEven
  deriving DecidableEq, Repr

/-- A positive fraction of whole numbers. -/
structure Ratio where
  num : Nat
  den : Nat
  deriving DecidableEq, Repr

namespace Ratio

/-- The exact magnitude of a finite double. -/
def ofDouble (x : Float) : Ratio :=
  let u := Double.unpack x
  if u.isWhole then ⟨u.significand * Nat.pow 2 u.exponent.toNat, 1⟩ else ⟨u.significand, u.unit⟩

/-- The ratio in units of `10 ^ place`. -/
def scaled (r : Ratio) (place : Int) : Ratio :=
  if 0 ≤ place then ⟨r.num, r.den * Nat.pow 10 place.toNat⟩ else ⟨r.num * Nat.pow 10 (-place).toNat, r.den⟩

/-- The power of ten that the leading digit of a positive ratio counts. -/
def lead (r : Ratio) : Int :=
  if r.den ≤ r.num then (Nat.toDigits 10 (r.num / r.den)).length - 1
  else
    let places := (Nat.toDigits 10 (r.den / r.num)).length
    if r.den ≤ r.num * Nat.pow 10 (places - 1) then 1 - (places : Int) else -(places : Int)

end Ratio

namespace Decimal

/-- Whether the decimal reads as exactly this double. -/
def readsAs (d : Decimal) (x : Float) : Bool :=
  match d.toDouble? with
  | some y => y.toBits == x.toBits
  | none => false

/-- The nearer of the two multiples of `10 ^ place` around the ratio, given the lower one. -/
def nearer (tie : Tie) (r : Ratio) (low : Nat) (place : Int) : Decimal :=
  let s := r.scaled place
  match compare (2 * s.num) ((2 * low + 1) * s.den) with
  | .lt => ⟨low, place⟩
  | .gt => ⟨low + 1, place⟩
  | .eq => if tie = .toEven && low % 2 = 0 then ⟨low, place⟩ else ⟨low + 1, place⟩

/-- The multiple of `10 ^ place` that reads as `x`, the nearer one if both neighbours do. -/
def onGrid? (tie : Tie) (x : Float) (r : Ratio) (place : Int) : Option Decimal :=
  let s := r.scaled place
  let low := s.num / s.den
  match readsAs ⟨low, place⟩ x, readsAs ⟨low + 1, place⟩ x with
  | true, true => some (nearer tie r low place)
  | true, false => some ⟨low, place⟩
  | false, true => some ⟨low + 1, place⟩
  | false, false => none

/-- The decimal that is the magnitude of a finite double: a half is five tenths. -/
def exact (x : Float) : Decimal :=
  let u := Double.unpack x
  if u.isWhole then ⟨u.significand * Nat.pow 2 u.exponent.toNat, 0⟩
  else ⟨u.significand * Nat.pow 5 (-u.exponent).toNat, u.exponent⟩

/-- The most digits that are tried. -/
def maxDigits : Nat := 17

/-- The shortest decimal that reads as the positive finite double `x`. -/
def shortest (tie : Tie) (x : Float) : Decimal :=
  let r := Ratio.ofDouble x
  let lead := r.lead
  ((List.range maxDigits).findSome? fun (n : Nat) => onGrid? tie x r (lead - n)).getD (exact x)

end Decimal

end FuzzyInference

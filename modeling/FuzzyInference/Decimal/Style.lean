import FuzzyInference.Decimal.Shortest

/-!
# Written doubles

How a double is written: the shortest decimal that reads back, laid out by a `NumberStyle`. A style
says which leading places are written positionally, what marks a whole number, and how an exponent,
an infinity and NaN look.
-/

namespace FuzzyInference

/-- The layout of a written double. Leading places from `lowest` to `highest` are written
    positionally and the others with an exponent; `none` sets no bound. -/
structure NumberStyle where
  tie : Tie
  lowest : Option Int
  highest : Option Int
  wholeMark : String
  positiveExponentMark : String
  infinity : String
  minusInfinity : String
  notANumber : String

namespace NumberStyle

/-- Messages and labels: always positional, whole numbers without a point. -/
def plain : NumberStyle where
  tie := .up
  lowest := none
  highest := none
  wholeMark := ""
  positiveExponentMark := ""
  infinity := "inf"
  minusInfinity := "-inf"
  notANumber := "NaN"

/-- Inspection: from 1e-4 to below 1e16 positional, whole numbers end in `.0`. -/
def inspection : NumberStyle where
  tie := .up
  lowest := some (-4)
  highest := some 15
  wholeMark := ".0"
  positiveExponentMark := ""
  infinity := "inf"
  minusInfinity := "-inf"
  notANumber := "NaN"

/-- Documents: from 1e-5 to below 1e16 positional, whole numbers end in `.0`, a positive exponent
    has its sign, and a tie goes to the even digit. What is not finite is `null`. -/
def document : NumberStyle where
  tie := .toEven
  lowest := some (-5)
  highest := some 15
  wholeMark := ".0"
  positiveExponentMark := "+"
  infinity := "null"
  minusInfinity := "null"
  notANumber := "null"

/-- Whether a number with this leading place is written without an exponent. -/
def isPositional (style : NumberStyle) (lead : Int) : Bool :=
  style.lowest.all (· ≤ lead) && style.highest.all (lead ≤ ·)

/-- Digits in place: zeros fill up to the point on either side. -/
def positional (style : NumberStyle) (digits : List Char) (lead : Int) : String :=
  if lead < 0 then
    "0." ++ String.ofList (List.replicate (-lead - 1).toNat '0' ++ digits)
  else
    let wholeLength := lead.toNat + 1
    let whole := digits.take wholeLength
    let fraction := digits.drop wholeLength
    String.ofList (whole ++ List.replicate (wholeLength - whole.length) '0') ++
      (if fraction.isEmpty then style.wholeMark else "." ++ String.ofList fraction)

/-- One digit before the point, the others behind it, then the exponent. -/
def scientific (style : NumberStyle) (digits : List Char) (lead : Int) : String :=
  let fraction := digits.drop 1
  String.ofList (digits.take 1) ++
    (if fraction.isEmpty then "" else "." ++ String.ofList fraction) ++
    "e" ++ (if lead < 0 then "-" else style.positiveExponentMark) ++
    String.ofList (Nat.toDigits 10 lead.natAbs)

/-- A magnitude from its decimal, without the zeros that end the coefficient. -/
def ofDecimal (style : NumberStyle) (d : Decimal) : String :=
  let digits := (d.digits.reverse.dropWhile (· = '0')).reverse
  if style.isPositional d.lead then style.positional digits d.lead
  else style.scientific digits d.lead

/-- The text of a double. A negative zero keeps its sign. -/
def render (style : NumberStyle) (x : Float) : String :=
  if x.isNaN then style.notANumber
  else if x.isInf then
    if (0.0 : Float) < x then style.infinity else style.minusInfinity
  else
    let magnitude := x.abs
    let sign := if (Double.unpack x).negative then "-" else ""
    sign ++ (if magnitude == 0.0 then "0" ++ style.wholeMark
      else style.ofDecimal (Decimal.shortest style.tie magnitude))

end NumberStyle

end FuzzyInference

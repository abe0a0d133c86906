import FuzzyInference.Decimal.Style

/-!
# JSON trees

Documents as trees. Numbers are kept as they are written, so that nothing is lost before a reader
asks for a double; the members of an object keep their order, and a repeated name stays repeated. A
text whose escapes leave half of a surrogate pair over has no value, which matters only where it is
used.

## Contents
- `Json` and the ways to make one from doubles and texts.
- `Json.toDouble?`, `Json.toText?`, …: what a tree is, if it is that.
- `Json.depth`, `Json.isSound`: how deep it nests, and whether all its numbers and texts have
  values.
-/

namespace FuzzyInference

/-- A JSON document. -/
inductive Json where
  | null
  | bool (value : Bool)
  /-- a number as it is written -/
  | number (literal : List Char)
  /-- a text, without a value if its escapes name half of a surrogate pair -/
  | text (value : Option String)
  | array (items : List Json)
  | object (members : List (Option String × Json))
  deriving Repr

namespace Json

instance : Inhabited Json := ⟨null⟩

/-- A text. -/
def ofText (s : String) : Json := text (some s)

/-- A whole number. -/
def ofNat (n : Nat) : Json := number (Nat.toDigits 10 n)

/-- A double in the style of documents; what is not finite is `null`. -/
def ofDouble (x : Float) : Json :=
  if x.isNaN || x.isInf then null else number (NumberStyle.document.render x).toList

/-- An object from names and values. -/
def ofMembers (members : List (String × Json)) : Json :=
  object (members.map fun (name, value) => (some name, value))

/-! ## Numbers -/

/-- The number that a row of digits writes. -/
def natOfDigits (digits : List Char) : Nat :=
  digits.foldl (fun n c => 10 * n + (c.toNat - '0'.toNat)) 0

/-- The exponent that follows the mark in a number; 0 without one. -/
def exponentOf : List Char → Int
  | _ :: '-' :: digits => -(natOfDigits digits : Int)
  | _ :: '+' :: digits => natOfDigits digits
  | _ :: digits => natOfDigits digits
  | [] => 0

/-- The decimal that an unsigned number writes. -/
def decimalOf (literal : List Char) : Decimal :=
  let whole := literal.takeWhile Char.isDigit
  let afterWhole := literal.dropWhile Char.isDigit
  let fraction := match afterWhole with
    | '.' :: rest => rest.takeWhile Char.isDigit
    | _ => []
  let afterFraction := match afterWhole with
    | '.' :: rest => rest.dropWhile Char.isDigit
    | rest => rest
  ⟨natOfDigits (whole ++ fraction), exponentOf afterFraction - fraction.length⟩

/-- The double nearest to a number, unless that is infinite. -/
def doubleOf? : List Char → Option Float
  | '-' :: magnitude => (decimalOf magnitude).toDouble?.map (-·)
  | magnitude => (decimalOf magnitude).toDouble?

/-- The whole number that is written without sign, point and exponent. -/
def natOf? (literal : List Char) : Option Nat :=
  if literal.all Char.isDigit && !literal.isEmpty then some (natOfDigits literal) else none

/-! ## What a tree is -/

/-- A number as a double. -/
def toDouble? : Json → Option Float
  | number literal => doubleOf? literal
  | _ => none

/-- A number as a whole one. -/
def toNat? : Json → Option Nat
  | number literal => natOf? literal
  | _ => none

/-- A text with a value. -/
def toText? : Json → Option String
  | text value => value
  | _ => none

/-- One of the two truth values. -/
def toBool? : Json → Option Bool
  | bool value => some value
  | _ => none

/-- The items of an array. -/
def toItems? : Json → Option (List Json)
  | array items => some items
  | _ => none

/-- The members of an object. -/
def toMembers? : Json → Option (List (Option String × Json))
  | object members => some members
  | _ => none

/-- The value of the first member with a name; `none` for what is no object. -/
def member? (name : String) : Json → Option Json
  | object members => (members.find? (·.1 == some name)).map Prod.snd
  | _ => none

/-- The names of the members that have one. -/
def names (members : List (Option String × Json)) : List String := members.filterMap Prod.fst

/-! ## Depth and soundness -/

mutual

/-- How many arrays and objects lie within each other at the deepest place. -/
def depth : Json → Nat
  | array items => depthOfItems items + 1
  | object members => depthOfMembers members + 1
  | _ => 0

/-- The depth of the deepest item. -/
def depthOfItems : List Json → Nat
  | [] => 0
  | item :: items => max (depth item) (depthOfItems items)

/-- The depth of the deepest member. -/
def depthOfMembers : List (Option String × Json) → Nat
  | [] => 0
  | (_, value) :: members => max (depth value) (depthOfMembers members)

end

mutual

/-- Whether every number in a tree has a double and every text a value. -/
def isSound : Json → Bool
  | number literal => (doubleOf? literal).isSome
  | text value => value.isSome
  | array items => areSoundItems items
  | object members => areSoundMembers members
  | _ => true

/-- Whether all items are sound. -/
def areSoundItems : List Json → Bool
  | [] => true
  | item :: items => isSound item && areSoundItems items

/-- Whether all names and values are sound. -/
def areSoundMembers : List (Option String × Json) → Bool
  | [] => true
  | (name, value) :: members => name.isSome && isSound value && areSoundMembers members

end

end Json

end FuzzyInference

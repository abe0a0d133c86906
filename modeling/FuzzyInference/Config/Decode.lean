import FuzzyInference.Config.Basic
import FuzzyInference.Defuzzify
import FuzzyInference.Json.Reader
import FuzzyInference.Membership.Family

/-!
# Descriptions from documents

Reads what documents may say. A record is an object with its fields by name, in any order and with
others between them, or an array of its fields in order; a field that is named twice is refused,
and so is an array that is too long. Members of a description that no field is named after are
skipped unread, while a function's own are read in full.

How a record is found in a document is left to `serde` and `serde_json`. Assumed of them is: that a field with
a default may be missing but not `null`; that a whole number is accepted for a double and nothing but a number
is; that a function is buffered until its family is known, which may therefore stand anywhere in an object
and, in a buffered one, be the place of the family in the list of all; that a choice with nothing to say is a
name, or a name with `null`, and within a buffer with an empty object; that of two values for one name in a
map the later one counts, at the place of the first; and that arrays and objects nest up to `maxDepth`, of
which skipped ones do not count. What the two say of a document that they refuse is not modeled: it is `none`.

## Contents
- `Fields`: the two forms of a record.
- `Membership.ofJson?`, `Combinator.ofJson?`, `Method.ofJson?`.
- `DomainConfig.ofJson?`, `DomainConfig.read?`, `DomainConfig.readAll?`.
-/

namespace FuzzyInference

open Json

/-- Arrays and objects may lie within each other to this depth. -/
def maxDepth : Nat := 127

/-- The fields of a record, by name or in order. -/
inductive Fields where
  | named (members : List (Option String × Json))
  | ordered (items : List Json)

namespace Fields

/-- The fields of an object or an array. -/
def ofJson? : Json → Option Fields
  | .object members => some (named members)
  | .array items => some (ordered items)
  | _ => none

/-- Whether one of the names stands before two members. -/
def repeatsAny (names : List String) (members : List (Option String × Json)) : Bool :=
  names.any fun name => 1 < (members.filter (·.1 == some name)).length

/-- The values of the fields with these names, all of which must be there. -/
def values? (names : List String) : Fields → Option (List Json)
  | named members =>
    if repeatsAny names members then none
    else names.mapM fun name => (members.find? (·.1 == some name)).map Prod.snd
  | ordered items => if items.length = names.length then some items else none

end Fields

/-! ## Choices -/

/-- A choice: its name, and the value that an object gives it. -/
def choice? : Json → Option (String × Option Json)
  | .text (some name) => some (name, none)
  | .object [(some name, value)] => some (name, some value)
  | _ => none

namespace Combinator

/-- The combinator of a name that needs no weight. -/
def ofName? : String → Option (Combinator Float)
  | "min" => some min
  | "max" => some max
  | "product" => some product
  | "bounded_sum" => some boundedSum
  | "lukasiewicz_and" => some lukasiewiczAnd
  | "lukasiewicz_or" => some lukasiewiczOr
  | "einstein_product" => some einsteinProduct
  | "einstein_sum" => some einsteinSum
  | "hamacher_product" => some hamacherProduct
  | "hamacher_sum" => some hamacherSum
  | "simple_disjoint_sum" => some simpleDisjointSum
  | _ => none

/-- The combinator of a name with a weight. -/
def ofWeight? : String → Float → Option (Combinator Float)
  | "lambda", weight => some (lambda weight)
  | "gamma", weight => some (gamma weight)
  | _, _ => none

/-- The value of a choice that has nothing to say: nothing, `null`, or an object without members. -/
def saysNothing : Option Json → Bool
  | none | some .null | some (.object []) => true
  | _ => false

/-- A combinator from a document. -/
def ofJson? (j : Json) : Option (Combinator Float) := do
  let (name, value) ← choice? j
  match ofName? name with
  | some op => if saysNothing value then some op else none
  | none =>
    match ← (← Fields.ofJson? (← value)).values? ["weight"] with
    | [weight] => ofWeight? name (← weight.toDouble?)
    | _ => none

end Combinator

/-- A method from a document: its name, or its name with `null`. -/
def Method.ofJson? (j : Json) : Option Method :=
  match choice? j with
  | some (name, none) | some (name, some .null) => Method.ofName? name
  | _ => none

/-- The method that a text writes. -/
def Method.read? (s : String) : Option Method := Json.read? s >>= Method.ofJson?

/-! ## Functions -/

/-- A pair of numbers. -/
def pair? : Json → Option (Float × Float)
  | .array [x, m] => do return (← x.toDouble?, ← m.toDouble?)
  | _ => none

/-- A shape from the values of its fields. -/
def Shape.ofValues? : Family → List Json → Option (Shape Float)
  | .identity, _ => some .identity
  | .constant, [c] => return .constant (← c.toDouble?)
  | .linear, [m, b] => return .linear (← m.toDouble?) (← b.toDouble?)
  | .rectangular, [low, high, core, uns] =>
    return .rectangular (← low.toDouble?) (← high.toDouble?) (← core.toDouble?) (← uns.toDouble?)
  | .triangular, [low, high, peak, core, uns] =>
    return .triangular (← low.toDouble?) (← high.toDouble?) (← peak.toDouble?) (← core.toDouble?)
      (← uns.toDouble?)
  | .trapezoid, [low, cLow, cHigh, high, core, uns] =>
    return .trapezoid (← low.toDouble?) (← cLow.toDouble?) (← cHigh.toDouble?) (← high.toDouble?)
      (← core.toDouble?) (← uns.toDouble?)
  | .boundedLinear, [low, high, core, uns, inverse] =>
    return .boundedLinear (← low.toDouble?) (← high.toDouble?) (← core.toDouble?)
      (← uns.toDouble?) (← inverse.toBool?)
  | .rising, [low, high] => return .rising (← low.toDouble?) (← high.toDouble?)
  | .falling, [low, high] => return .falling (← low.toDouble?) (← high.toDouble?)
  | .sigmoid, [limit, k, x₀] =>
    return .sigmoid (← limit.toDouble?) (← k.toDouble?) (← x₀.toDouble?)
  | .boundedSigmoid, [low, high, inverse] =>
    return .boundedSigmoid (← low.toDouble?) (← high.toDouble?) (← inverse.toBool?)
  | .simpleSigmoid, [k] => return .simpleSigmoid (← k.toDouble?)
  | .triangularSigmoid, [low, high, peak] =>
    return .triangularSigmoid (← low.toDouble?) (← high.toDouble?) (← peak.toDouble?)
  | .gauss, [c, b, height] =>
    return .gauss (← c.toDouble?) (← b.toDouble?) (← height.toDouble?)
  | .boundedExponential, [k, limit] =>
    return .boundedExponential (← k.toDouble?) (← limit.toDouble?)
  | .singleton, [c, elsewhere, height] =>
    return .singleton (← c.toDouble?) (← elsewhere.toDouble?) (← height.toDouble?)
  | .piecewise, [points] => return .piecewise (← (← points.toItems?).mapM pair?)
  | _, _ => none

/-- A family from its name or, where numbers may stand for it, its place among all families. -/
def Family.ofJson? (byPlace : Bool) : Json → Option Family
  | .text (some name) => Family.ofName? name
  | .number literal => if byPlace then (Json.natOf? literal).bind (Family.all[·]?) else none
  | _ => none

/-- The family of a record and its fields: the first item of an array, or the one member of an
    object that is named for it. -/
def familyAndFields? (byPlace : Bool) : Json → Option (Family × Fields)
  | .array (tag :: items) => return (← Family.ofJson? byPlace tag, .ordered items)
  | .object members =>
    if Fields.repeatsAny ["family"] members then none
    else do
      let tag ← (Json.object members).member? "family"
      return (← Family.ofJson? byPlace tag, .named members)
  | _ => none

namespace Membership

/-- A function from a document, within a number of levels. Only inner functions may give their
    family by place. -/
def ofLevels? : Nat → Bool → Json → Option (Membership Float)
  | 0, _, _ => none
  | level + 1, byPlace, j => do
    let (family, fields) ← familyAndFields? byPlace j
    let values ← fields.values? family.fields
    let inner := ofLevels? level true
    match family, values with
    | .inv, [func] => return .inv (← inner func)
    | .alpha, [floor, ceiling, floorClip, ceilingClip, func] =>
      return .alpha (← floor.toDouble?) (← ceiling.toDouble?) (← floorClip.toDouble?)
        (← ceilingClip.toDouble?) (← inner func)
    | .normalize, [height, func] => return .normalize (← height.toDouble?) (← inner func)
    | .moderate, [func] => return .moderate (← inner func)
    | .power, [exponent, func] => return .power (← exponent.toDouble?) (← inner func)
    | .intensify, [func] => return .intensify (← inner func)
    | .combination, [op, operands] =>
      return .combination (← Combinator.ofJson? op) (← (← operands.toItems?).mapM inner)
    | family, values => return .shape (← Shape.ofValues? family values)

/-- A function from a document whose numbers and texts all have values. -/
def ofJson? (j : Json) : Option (Membership Float) :=
  if j.isSound then ofLevels? j.depth false j else none

end Membership

/-! ## Domains -/

namespace DomainConfig

/-- The names of the fields of a description; the last two may be left out. -/
def fieldNames : List String := ["name", "low", "high", "res", "sets"]

/-- The sets of a description that lies at a depth. -/
def setsOfJson? (level : Nat) (j : Json) : Option (OrderedMap String (Membership Float)) := do
  let sets ← (← j.toMembers?).mapM fun (name, value) => do
    if level + 1 + value.depth ≤ maxDepth then return (← name, ← Membership.ofJson? value)
    else none
  return OrderedMap.ofList sets

/-- The values of the fields of a description: the required ones, and those that may be left out. -/
def values? : Json → Option (Json × Json × Json × Option Json × Option Json)
  | .object members =>
    if members.any (·.1.isNone) || Fields.repeatsAny fieldNames members then none
    else
      let field (name : String) := (Json.object members).member? name
      return (← field "name", ← field "low", ← field "high", field "res", field "sets")
  | .array (name :: low :: high :: rest) =>
    if rest.length ≤ 2 then some (name, low, high, rest[0]?, rest[1]?) else none
  | _ => none

/-- A description from a document that lies within a number of others. -/
def ofJson? (outer : Nat) (j : Json) : Option (DomainConfig Float) := do
  let (name, low, high, res, sets) ← values? j
  let res ← match res with
    | some res => res.toDouble?
    | none => some defaultRes
  let sets ← match sets with
    | some sets => setsOfJson? (outer + 1) sets
    | none => some OrderedMap.empty
  return ⟨← name.toText?, ← low.toDouble?, ← high.toDouble?, res, sets⟩

/-- The description that a text writes. -/
def read? (s : String) : Option (DomainConfig Float) := Json.read? s >>= ofJson? 0

/-- The descriptions in the array that a text writes. -/
def readAll? (s : String) : Option (List (DomainConfig Float)) := do
  (← (← Json.read? s).toItems?).mapM (ofJson? 1)

end DomainConfig

end FuzzyInference

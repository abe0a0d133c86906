import FuzzyInference.Json.Basic

/-!
# Reading JSON

The strict grammar: no text before or after the document but blanks, no comma before an end, no
number with a leading zero or a bare point, no control character in a text. What a number or an
escape stands for is settled later, by whoever uses it.

Every step consumes a character, so the length of the text bounds the steps.

Documents are read by `serde_json`, of which is assumed that it accepts this grammar and nothing else;
that it takes hexadecimal escapes for UTF-16 code units and refuses half of a pair; that it refuses a number
whose double is infinite; and that it reads every other number as the nearest double, to even between two.
The last it promises only if it is built for it (`float_roundtrip`); otherwise the double that it reads may be
a neighbor of the nearest one, and what is said here of reading does not apply to such a number.
-/

namespace FuzzyInference.Json

/-- The characters that may stand between the parts of a document. -/
def isSpace (c : Char) : Bool := c = ' ' || c = '\t' || c = '\n' || c = '\r'

/-- The text from its first part on. -/
def skipSpace (cs : List Char) : List Char := cs.dropWhile isSpace

/-! ## Texts -/

/-- A piece of a written text: a character, or the code unit of a hexadecimal escape. -/
inductive Piece where
  | char (c : Char)
  | unit (code : Nat)
  deriving DecidableEq, Repr

/-- The value of a hexadecimal digit. -/
def hexDigit? (c : Char) : Option Nat :=
  if c.isDigit then some (c.toNat - '0'.toNat)
  else if 'a' ≤ c && c ≤ 'f' then some (c.toNat - 'a'.toNat + 10)
  else if 'A' ≤ c && c ≤ 'F' then some (c.toNat - 'A'.toNat + 10)
  else none

/-- The code unit of four hexadecimal digits. -/
def unit? (a b c d : Char) : Option Nat := do
  return (((← hexDigit? a) * 16 + (← hexDigit? b)) * 16 + (← hexDigit? c)) * 16 + (← hexDigit? d)

/-- The character of a short escape. -/
def shortEscape? : Char → Option Char
  | '"' => some '"'
  | '\\' => some '\\'
  | '/' => some '/'
  | 'b' => some '\x08'
  | 'f' => some '\x0c'
  | 'n' => some '\n'
  | 'r' => some '\r'
  | 't' => some '\t'
  | _ => none

/-- The pieces up to the closing quote, behind those in `done`, which is reversed, and the rest. -/
def pieces? (done : List Piece) : List Char → Option (List Piece × List Char)
  | [] => none
  | '"' :: rest => some (done.reverse, rest)
  | '\\' :: 'u' :: a :: b :: c :: d :: rest =>
    match unit? a b c d with
    | some code => pieces? (.unit code :: done) rest
    | none => none
  | '\\' :: e :: rest =>
    match shortEscape? e with
    | some c => pieces? (.char c :: done) rest
    | none => none
  | c :: rest => if c.toNat < 0x20 then none else pieces? (.char c :: done) rest

/-- Whether a code unit begins a surrogate pair. -/
def isHighSurrogate (code : Nat) : Bool := 0xD800 ≤ code && code < 0xDC00

/-- Whether a code unit ends a surrogate pair. -/
def isLowSurrogate (code : Nat) : Bool := 0xDC00 ≤ code && code < 0xE000

/-- The characters of the pieces, behind those in `done`, which is reversed; `none` if half of a
    surrogate pair is left over. -/
def charsOf? (done : List Char) : List Piece → Option (List Char)
  | [] => some done.reverse
  | .char c :: rest => charsOf? (c :: done) rest
  | .unit high :: .unit low :: rest =>
    if isHighSurrogate high then
      if isLowSurrogate low then
        charsOf? (Char.ofNat (0x10000 + (high - 0xD800) * 0x400 + (low - 0xDC00)) :: done) rest
      else none
    else if isLowSurrogate high then none
    else charsOf? (Char.ofNat high :: done) (.unit low :: rest)
  | .unit code :: rest =>
    if isHighSurrogate code || isLowSurrogate code then none
    else charsOf? (Char.ofNat code :: done) rest

/-- The text that follows an opening quote, and the rest. -/
def readText? (cs : List Char) : Option (Option String × List Char) :=
  (pieces? [] cs).map fun (pieces, rest) => ((charsOf? [] pieces).map String.ofList, rest)

/-! ## Numbers -/

/-- One digit or more, and the rest. -/
def readDigits? (cs : List Char) : Option (List Char × List Char) :=
  match cs.takeWhile Char.isDigit with
  | [] => none
  | digits => some (digits, cs.dropWhile Char.isDigit)

/-- The whole part: a single zero, or digits of which the first is none. -/
def readWhole? : List Char → Option (List Char × List Char)
  | '0' :: rest => some (['0'], rest)
  | cs => readDigits? cs

/-- A point with digits behind it, if there is a point. -/
def readFraction? : List Char → Option (List Char × List Char)
  | '.' :: rest => (readDigits? rest).map fun (digits, rest) => ('.' :: digits, rest)
  | cs => some ([], cs)

/-- An exponent with its mark and sign, if there is a mark. -/
def readExponent? : List Char → Option (List Char × List Char)
  | mark :: sign :: rest =>
    if mark = 'e' || mark = 'E' then
      if sign = '+' || sign = '-' then
        (readDigits? rest).map fun (digits, rest) => (mark :: sign :: digits, rest)
      else (readDigits? (sign :: rest)).map fun (digits, rest) => (mark :: digits, rest)
    else some ([], mark :: sign :: rest)
  | [mark] => if mark = 'e' || mark = 'E' then none else some ([], [mark])
  | [] => some ([], [])

/-- A number without sign, and the rest. -/
def readMagnitude? (cs : List Char) : Option (List Char × List Char) := do
  let (whole, rest) ← readWhole? cs
  let (fraction, rest) ← readFraction? rest
  let (exponent, rest) ← readExponent? rest
  return (whole ++ fraction ++ exponent, rest)

/-- A number, and the rest. -/
def readNumber? : List Char → Option (List Char × List Char)
  | '-' :: rest => (readMagnitude? rest).map fun (magnitude, rest) => ('-' :: magnitude, rest)
  | cs => readMagnitude? cs

/-! ## Documents -/

mutual

/-- A document and the rest, within a number of steps. -/
def readValue? : Nat → List Char → Option (Json × List Char)
  | 0, _ => none
  | fuel + 1, cs =>
    match skipSpace cs with
    | 'n' :: 'u' :: 'l' :: 'l' :: rest => some (null, rest)
    | 't' :: 'r' :: 'u' :: 'e' :: rest => some (bool true, rest)
    | 'f' :: 'a' :: 'l' :: 's' :: 'e' :: rest => some (bool false, rest)
    | '"' :: rest => (readText? rest).map fun (value, rest) => (text value, rest)
    | '[' :: rest =>
      match skipSpace rest with
      | ']' :: rest => some (array [], rest)
      | rest => (readItems? fuel rest).map fun (items, rest) => (array items, rest)
    | '\x7b' :: rest =>
      match skipSpace rest with
      | '\x7d' :: rest => some (object [], rest)
      | rest => (readMembers? fuel rest).map fun (members, rest) => (object members, rest)
    | rest => (readNumber? rest).map fun (literal, rest) => (number literal, rest)

/-- The items of an array up to its end, at least one, and the rest. -/
def readItems? : Nat → List Char → Option (List Json × List Char)
  | 0, _ => none
  | fuel + 1, cs =>
    match readValue? fuel cs with
    | none => none
    | some (item, rest) =>
      match skipSpace rest with
      | ',' :: rest => (readItems? fuel rest).map fun (items, rest) => (item :: items, rest)
      | ']' :: rest => some ([item], rest)
      | _ => none

/-- The members of an object up to its end, at least one, and the rest. -/
def readMembers? : Nat → List Char → Option (List (Option String × Json) × List Char)
  | 0, _ => none
  | fuel + 1, cs =>
    match skipSpace cs with
    | '"' :: rest =>
      match readText? rest with
      | none => none
      | some (name, rest) =>
        match skipSpace rest with
        | ':' :: rest =>
          match readValue? fuel rest with
          | none => none
          | some (value, rest) =>
            match skipSpace rest with
            | ',' :: rest =>
              (readMembers? fuel rest).map fun (members, rest) => ((name, value) :: members, rest)
            | '\x7d' :: rest => some ([(name, value)], rest)
            | _ => none
        | _ => none
    | _ => none

end

/-- The document that a text writes. -/
def read? (s : String) : Option Json :=
  let cs := s.toList
  match readValue? (2 * cs.length + 1) cs with
  | some (j, rest) => if (skipSpace rest).isEmpty then some j else none
  | none => none

end FuzzyInference.Json

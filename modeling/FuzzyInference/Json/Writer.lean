import FuzzyInference.Json.Basic

/-!
# Writing JSON

The two layouts of a document: compact, with nothing between its parts, and indented by two spaces
per level, one item or member a line. An empty array or object takes no lines of its own.

Documents are written by `serde_json`, of which is assumed that its two layouts are these; that it escapes
quotes, backslashes and controls only, those without a short escape with four lower-case hexadecimal digits;
that it writes a double in the shortest digits that read back, as `NumberStyle.document` lays them out; and
that what is not finite is `null`.
-/

namespace FuzzyInference.Json

/-- One character of a text: quotes, backslashes and controls are escaped. -/
def escaped (c : Char) : List Char :=
  if c = '"' then ['\\', '"']
  else if c = '\\' then ['\\', '\\']
  else if c = '\x08' then ['\\', 'b']
  else if c = '\x0c' then ['\\', 'f']
  else if c = '\n' then ['\\', 'n']
  else if c = '\r' then ['\\', 'r']
  else if c = '\t' then ['\\', 't']
  else if c.toNat < 0x20 then
    ['\\', 'u', '0', '0', Nat.digitChar (c.toNat / 16), Nat.digitChar (c.toNat % 16)]
  else [c]

/-- A text in quotes; one without a value is written as an empty one. -/
def quotedText (value : Option String) : List Char :=
  '"' :: ((value.getD "").toList.flatMap escaped ++ ['"'])

/-- A tree that holds no others. -/
def scalarText : Json → List Char
  | bool true => ['t', 'r', 'u', 'e']
  | bool false => ['f', 'a', 'l', 's', 'e']
  | number literal => literal
  | text value => quotedText value
  | _ => ['n', 'u', 'l', 'l']

mutual

/-- The compact layout. -/
def compact : Json → List Char
  | array [] => ['[', ']']
  | array (item :: items) => '[' :: (compact item ++ compactItems items)
  | object [] => ['\x7b', '\x7d']
  | object ((name, value) :: members) =>
    '\x7b' :: (quotedText name ++ ':' :: (compact value ++ compactMembers members))
  | other => scalarText other

/-- The items after the first one and the end of the array. -/
def compactItems : List Json → List Char
  | [] => [']']
  | item :: items => ',' :: (compact item ++ compactItems items)

/-- The members after the first one and the end of the object. -/
def compactMembers : List (Option String × Json) → List Char
  | [] => ['\x7d']
  | (name, value) :: members =>
    ',' :: (quotedText name ++ ':' :: (compact value ++ compactMembers members))

end

/-- A new line at a level. -/
def newLine (level : Nat) : List Char := '\n' :: List.replicate (2 * level) ' '

mutual

/-- The indented layout of what stands at a level. -/
def indented (level : Nat) : Json → List Char
  | array [] => ['[', ']']
  | array (item :: items) =>
    '[' :: (newLine (level + 1) ++ (indented (level + 1) item ++ indentedItems level items))
  | object [] => ['\x7b', '\x7d']
  | object ((name, value) :: members) =>
    '\x7b' :: (newLine (level + 1) ++ (quotedText name ++
      ':' :: ' ' :: (indented (level + 1) value ++ indentedMembers level members)))
  | other => scalarText other

/-- The items after the first one and the end of the array. -/
def indentedItems (level : Nat) : List Json → List Char
  | [] => newLine level ++ [']']
  | item :: items =>
    ',' :: (newLine (level + 1) ++ (indented (level + 1) item ++ indentedItems level items))

/-- The members after the first one and the end of the object. -/
def indentedMembers (level : Nat) : List (Option String × Json) → List Char
  | [] => newLine level ++ ['\x7d']
  | (name, value) :: members =>
    ',' :: (newLine (level + 1) ++ (quotedText name ++
      ':' :: ' ' :: (indented (level + 1) value ++ indentedMembers level members)))

end

/-- The compact text of a document. -/
def toCompact (j : Json) : String := String.ofList j.compact

/-- The indented text of a document. -/
def toIndented (j : Json) : String := String.ofList (j.indented 0)

end FuzzyInference.Json

import FuzzyInference.Text.Combining
import FuzzyInference.Text.Unprintable

/-!
# Quoted text

Text between double quotes for messages and inspection: the quote and the backslash are escaped, so
are the common controls, and what does not print by itself is written as its code point in braces.
-/

namespace FuzzyInference.Text

/-- A code point as a backslash, `u` and its hexadecimal digits in braces. -/
def escapedCode (c : Char) : List Char :=
  ['\\', 'u', '\x7b'] ++ Nat.toDigits 16 c.toNat ++ ['\x7d']

/-- One character inside the quotes. -/
def quotedChar (c : Char) : List Char :=
  if c = '\x00' then ['\\', '0']
  else if c = '\t' then ['\\', 't']
  else if c = '\r' then ['\\', 'r']
  else if c = '\n' then ['\\', 'n']
  else if c = '"' || c = '\\' then ['\\', c]
  else if isCombining c || isUnprintable c then escapedCode c
  else [c]

/-- Text in double quotes. -/
def quoted (s : String) : String :=
  "\"" ++ String.ofList (s.toList.flatMap quotedChar) ++ "\""

end FuzzyInference.Text

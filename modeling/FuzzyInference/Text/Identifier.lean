import FuzzyInference.Text.Alphabetic
import FuzzyInference.Text.Numeric

/-!
# Identifiers

Names of domains and sets: a letter or an underscore, then letters, numerals and underscores, of any
script.
-/

namespace FuzzyInference.Text

/-- Whether a character may begin an identifier. -/
def startsIdentifier (c : Char) : Bool := isAlphabetic c || c == '_'

/-- Whether a character may stand in an identifier after its beginning. -/
def continuesIdentifier (c : Char) : Bool := isAlphabetic c || isNumeric c || c == '_'

/-- Whether a name is an identifier; the empty name is none. -/
def isIdentifier (name : String) : Bool :=
  match name.toList with
  | [] => false
  | first :: rest => startsIdentifier first && rest.all continuesIdentifier

end FuzzyInference.Text

import FuzzyInference.Text.Blank

/-!
# Lines and words

Text cut into lines and the lines into words. A cut at a class of characters keeps all the text
between them; words are the pieces between blanks that are not empty.
-/

namespace FuzzyInference.Text

/-- The pieces between the characters that satisfy `p`, empty ones included. -/
def splitBy (p : Char → Bool) : List Char → List (List Char)
  | [] => [[]]
  | c :: rest =>
    if p c then [] :: splitBy p rest
    else
      match splitBy p rest with
      | [] => [[c]]
      | piece :: pieces => (c :: piece) :: pieces

/-- The lines of a text, without their ends. -/
def lines (text : List Char) : List (List Char) := splitBy (· = '\n') text

/-- The words of a text. -/
def words (text : List Char) : List (List Char) := (splitBy isBlank text).filter (!·.isEmpty)

/-- What stands before and after the first `mark`, if there is one. -/
def splitAtFirst? (mark : Char) : List Char → Option (List Char × List Char)
  | [] => none
  | c :: rest =>
    if c = mark then some ([], rest)
    else (splitAtFirst? mark rest).map fun (before, after) => (c :: before, after)

end FuzzyInference.Text

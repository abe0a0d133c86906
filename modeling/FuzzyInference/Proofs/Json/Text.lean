import FuzzyInference.Json.Reader
import FuzzyInference.Json.Writer

/-!
# Written texts read back

A character of a text is written as it is, behind a backslash, or by its code. Each of these is one piece
to the reader, and the pieces make up the text again; no code is half of a surrogate pair.
-/

namespace FuzzyInference.Json

/-- The characters that are written by their codes. -/
def isCoded (c : Char) : Bool :=
  c.toNat < 0x20 && c ≠ '\x08' && c ≠ '\x0c' && c ≠ '\n' && c ≠ '\r' && c ≠ '\t'

/-- The piece that a written character is. -/
def pieceOf (c : Char) : Piece := if isCoded c then .unit c.toNat else .char c

/-- A control character's escape is read as its code. -/
theorem unit?_code : ∀ n < 32,
    unit? '0' '0' (Nat.digitChar (n / 16)) (Nat.digitChar (n % 16)) = some n := by
  decide

/-- A character that has no escape is one piece. -/
theorem pieces?_plain {c : Char} (hquote : c ≠ '"') (hslash : c ≠ '\\') (hcontrol : ¬c.toNat < 0x20)
    (done : List Piece) (tail : List Char) :
    pieces? done (c :: tail) = pieces? (.char c :: done) tail := by
  rw [pieces?.eq_def]
  split
  next h => cases h
  next h => exact absurd (List.cons.inj h).1 hquote
  next h => exact absurd (List.cons.inj h).1 hslash
  next h => exact absurd (List.cons.inj h).1 hslash
  next h =>
    obtain ⟨rfl, rfl⟩ := List.cons.inj h
    rw [if_neg hcontrol]

/-- The escape of one character is read as its one piece. -/
theorem pieces?_escaped (c : Char) (done : List Piece) (tail : List Char) :
    pieces? done (escaped c ++ tail) = pieces? (pieceOf c :: done) tail := by
  unfold escaped
  -- seven characters have an escape of their own
  split
  next h => rw [h]; rfl
  split
  next h => rw [h]; rfl
  split
  next h => rw [h]; rfl
  split
  next h => rw [h]; rfl
  split
  next h => rw [h]; rfl
  split
  next h => rw [h]; rfl
  split
  next h => rw [h]; rfl
  next hquote hslash hb hf hn hr ht =>
    -- the other control characters have their codes
    split
    next hcontrol =>
      have hcoded : isCoded c = true := by simp [isCoded, *]
      rw [pieceOf, if_pos hcoded]
      simp only [List.cons_append, List.nil_append, pieces?, unit?_code c.toNat hcontrol]
    next hcontrol =>
      have hcoded : isCoded c = false := by simp [isCoded, hcontrol]
      rw [pieceOf, hcoded]
      exact pieces?_plain hquote hslash hcontrol done tail

/-- A whole text is read piece by piece up to the closing quote. -/
theorem pieces?_flatMap (cs : List Char) (done : List Piece) (rest : List Char) :
    pieces? done (cs.flatMap escaped ++ '"' :: rest) = some (done.reverse ++ cs.map pieceOf, rest) := by
  induction cs generalizing done with
  | nil =>
    rw [List.map_nil, List.append_nil]
    rfl
  | cons c cs ih =>
    rw [List.flatMap_cons, List.append_assoc, pieces?_escaped, ih, List.reverse_cons, List.append_assoc]
    rfl

/-- A code below the space is a character by itself, as it can be half of no pair. -/
theorem charsOf?_unit {code : Nat} (h : code < 0x20) (done : List Char) (pieces : List Piece) :
    charsOf? done (.unit code :: pieces) = charsOf? (Char.ofNat code :: done) pieces := by
  have hhigh : isHighSurrogate code = false := by simp [isHighSurrogate]; omega
  have hlow : isLowSurrogate code = false := by simp [isLowSurrogate]; omega
  cases pieces with
  | nil => simp [charsOf?, hhigh, hlow]
  | cons piece pieces => cases piece <;> simp [charsOf?, hhigh, hlow]

/-- The pieces of a text are its characters. -/
theorem charsOf?_map (cs : List Char) (done : List Char) :
    charsOf? done (cs.map pieceOf) = some (done.reverse ++ cs) := by
  induction cs generalizing done with
  | nil =>
    rw [List.append_nil]
    rfl
  | cons c cs ih =>
    have hpiece : charsOf? done (pieceOf c :: cs.map pieceOf) = charsOf? (c :: done) (cs.map pieceOf) := by
      unfold pieceOf
      split
      next hcoded =>
        have hcode : c.toNat < 0x20 := by
          simp only [isCoded, Bool.and_eq_true, decide_eq_true_eq] at hcoded
          exact hcoded.1.1.1.1.1
        rw [charsOf?_unit hcode, Char.ofNat_toNat]
      next => rfl
    rw [List.map_cons, hpiece, ih, List.reverse_cons, List.append_assoc]
    rfl

/-- A text is read up to its closing quote. -/
theorem readText?_quoted (s : String) (rest : List Char) :
    readText? (s.toList.flatMap escaped ++ '"' :: rest) = some (some s, rest) := by
  rw [readText?, pieces?_flatMap]
  show some ((charsOf? [] (s.toList.map pieceOf)).map String.ofList, rest) = _
  rw [charsOf?_map, Option.map_some, List.reverse_nil, List.nil_append, String.ofList_toList]

end FuzzyInference.Json

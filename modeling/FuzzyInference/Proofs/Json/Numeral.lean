import FuzzyInference.Json.Reader
import Mathlib.Data.List.TakeDrop

/-!
# Numerals

The parts of an unsigned number in a document. A text in this form is read as a whole, up to what follows
it, and stands for the decimal that its parts make up.

## Contents
- `Numeral`: whole part, digits behind the point and exponent, with the rules they obey.
- `decimalOf_text`: the decimal of a numeral.
- `readMagnitude?_text`: a numeral is read to its end.
-/

namespace FuzzyInference

open Json

/-- An unsigned number in parts. Without digits behind the point there is no point either. -/
structure Numeral where
  whole : List Char
  fraction : List Char
  exponent : List Char
  isDigit_whole : ∀ c ∈ whole, c.isDigit = true
  whole_eq : whole = ['0'] ∨ ∃ c cs, whole = c :: cs ∧ c ≠ '0'
  isDigit_fraction : ∀ c ∈ fraction, c.isDigit = true
  exponent_eq : exponent = [] ∨ ∃ sign digits, exponent = 'e' :: sign :: digits ∧
    (sign = '+' ∨ sign = '-') ∧ digits ≠ [] ∧ ∀ c ∈ digits, c.isDigit = true

/-- Digits with a point before them. -/
def pointed : List Char → List Char
  | [] => []
  | digits => '.' :: digits

/-- What may follow a number: nothing that could still belong to it. -/
def EndsNumber (rest : List Char) : Prop :=
  ∀ c ∈ rest.head?, c.isDigit = false ∧ c ≠ '.' ∧ c ≠ 'e' ∧ c ≠ 'E'

theorem endsNumber_nil : EndsNumber [] := by
  intro c hc
  cases hc

theorem takeWhile_digits {digits rest : List Char} (h : ∀ c ∈ digits, c.isDigit = true)
    (hrest : ∀ c ∈ rest.head?, c.isDigit = false) :
    (digits ++ rest).takeWhile Char.isDigit = digits := by
  rw [List.takeWhile_append_of_pos h]
  cases rest with
  | nil => rw [List.takeWhile_nil, List.append_nil]
  | cons c cs =>
    rw [List.takeWhile_cons_of_neg (by simp [hrest c rfl]), List.append_nil]

theorem dropWhile_digits {digits rest : List Char} (h : ∀ c ∈ digits, c.isDigit = true)
    (hrest : ∀ c ∈ rest.head?, c.isDigit = false) :
    (digits ++ rest).dropWhile Char.isDigit = rest := by
  rw [List.dropWhile_append_of_pos h]
  cases rest with
  | nil => rfl
  | cons c cs => exact List.dropWhile_cons_of_neg (by simp [hrest c rfl])

namespace Numeral

/-- A numeral as it is written. -/
def text (n : Numeral) : List Char := n.whole ++ (pointed n.fraction ++ n.exponent)

/-- The decimal of a numeral. -/
def decimal (n : Numeral) : Decimal :=
  ⟨natOfDigits (n.whole ++ n.fraction), exponentOf n.exponent - n.fraction.length⟩

variable (n : Numeral)

theorem exponent_head : ∀ c ∈ n.exponent.head?, c = 'e' := by
  rcases n.exponent_eq with h | ⟨sign, digits, h, -⟩ <;> rw [h]
  · intro c hc
    cases hc
  · intro c hc
    exact (Option.some.inj hc).symm

/-- What follows the fraction: the mark of the exponent, or else the rest of the text. -/
theorem afterFraction_head {rest : List Char} (hrest : EndsNumber rest) :
    ∀ c ∈ (n.exponent ++ rest).head?, c.isDigit = false ∧ c ≠ '.' := by
  intro c hc
  cases he : n.exponent with
  | nil =>
    rw [he] at hc
    exact ⟨(hrest c hc).1, (hrest c hc).2.1⟩
  | cons d ds =>
    have hd := n.exponent_head d (by rw [he]; rfl)
    rw [he] at hc
    obtain rfl : d = c := Option.some.inj hc
    rw [hd]
    decide

/-- What follows the whole part: the point, or else what follows the fraction. -/
theorem afterWhole_head {rest : List Char} (hrest : EndsNumber rest) :
    ∀ c ∈ (pointed n.fraction ++ (n.exponent ++ rest)).head?, c.isDigit = false := by
  intro c hc
  cases hf : n.fraction with
  | nil =>
    rw [hf] at hc
    exact (n.afterFraction_head hrest c hc).1
  | cons d ds =>
    rw [hf] at hc
    obtain rfl : '.' = c := Option.some.inj hc
    decide

/-- A numeral's text stands for its decimal. -/
theorem decimalOf_text : decimalOf n.text = n.decimal := by
  have hhead := n.afterWhole_head endsNumber_nil
  rw [List.append_nil] at hhead
  have hwhole := takeWhile_digits n.isDigit_whole hhead
  have hafter := dropWhile_digits n.isDigit_whole hhead
  have hexponent : ∀ c ∈ n.exponent.head?, c.isDigit = false := by
    intro c hc
    rw [n.exponent_head c hc]
    decide
  rw [decimalOf, text, hwhole, hafter, decimal]
  cases hf : n.fraction with
  | cons d ds =>
    have hdigits := n.isDigit_fraction
    rw [hf] at hdigits
    show (⟨natOfDigits (n.whole ++ (d :: ds ++ n.exponent).takeWhile Char.isDigit),
      exponentOf ((d :: ds ++ n.exponent).dropWhile Char.isDigit) -
        ((d :: ds ++ n.exponent).takeWhile Char.isDigit).length⟩ : Decimal) = _
    rw [takeWhile_digits hdigits hexponent, dropWhile_digits hdigits hexponent]
  | nil => rcases n.exponent_eq with he | ⟨sign, digits, he, -⟩ <;> rw [he] <;> rfl

/-! ## Reading -/

theorem readDigits?_append {digits rest : List Char} (hne : digits ≠ [])
    (h : ∀ c ∈ digits, c.isDigit = true) (hrest : ∀ c ∈ rest.head?, c.isDigit = false) :
    readDigits? (digits ++ rest) = some (digits, rest) := by
  unfold readDigits?
  rw [takeWhile_digits h hrest, dropWhile_digits h hrest]
  cases digits with
  | nil => exact absurd rfl hne
  | cons d ds => rfl

/-- The whole part is read: one zero, or digits that start with another. -/
theorem readWhole?_append {rest : List Char} (hrest : ∀ c ∈ rest.head?, c.isDigit = false) :
    readWhole? (n.whole ++ rest) = some (n.whole, rest) := by
  rcases n.whole_eq with h | ⟨c, cs, h, hc⟩
  · rw [h]
    rfl
  · have hdigits := n.isDigit_whole
    rw [h] at hdigits ⊢
    have hread := readDigits?_append (List.cons_ne_nil c cs) hdigits hrest
    rw [List.cons_append] at hread ⊢
    unfold readWhole?
    split
    next heq => exact absurd (List.cons.inj heq).1 hc
    next => exact hread

theorem readFraction?_append {rest : List Char} (hrest : ∀ c ∈ rest.head?, c.isDigit = false ∧ c ≠ '.') :
    readFraction? (pointed n.fraction ++ rest) = some (pointed n.fraction, rest) := by
  have hdigits := n.isDigit_fraction
  cases hf : n.fraction with
  | nil =>
    show readFraction? rest = some ([], rest)
    unfold readFraction?
    split
    next => exact absurd rfl (hrest '.' rfl).2
    next => rfl
  | cons d ds =>
    rw [hf] at hdigits
    show (readDigits? (d :: ds ++ rest)).map _ = _
    rw [readDigits?_append (List.cons_ne_nil d ds) hdigits fun c hc => (hrest c hc).1]
    rfl

/-- The exponent is read up to what ends the number. -/
theorem readExponent?_append {rest : List Char} (hrest : EndsNumber rest) :
    readExponent? (n.exponent ++ rest) = some (n.exponent, rest) := by
  rcases n.exponent_eq with h | ⟨sign, digits, h, hsign, hne, hdigits⟩
  · rw [h, List.nil_append]
    unfold readExponent?
    -- a sign is only looked for behind a mark, and what follows has none
    split
    next mark sign rest =>
      have hmark := hrest mark rfl
      rw [if_neg (by simp [hmark.2.2])]
    next mark =>
      have hmark := hrest mark rfl
      rw [if_neg (by simp [hmark.2.2])]
    next => rfl
  · rw [h]
    have hread := readDigits?_append hne hdigits fun c hc => (hrest c hc).1
    rcases hsign with rfl | rfl <;> simp [readExponent?, hread]

/-- A numeral is read to its end. -/
theorem readMagnitude?_text {rest : List Char} (hrest : EndsNumber rest) :
    readMagnitude? (n.text ++ rest) = some (n.text, rest) := by
  have htext : n.text ++ rest = n.whole ++ (pointed n.fraction ++ (n.exponent ++ rest)) := by
    rw [text, List.append_assoc, List.append_assoc]
  rw [readMagnitude?, htext, n.readWhole?_append (n.afterWhole_head hrest), Option.bind_eq_bind,
    Option.bind_some]
  simp only [n.readFraction?_append (n.afterFraction_head hrest), Option.bind_some,
    n.readExponent?_append hrest]
  rw [text, ← List.append_assoc]
  rfl

/-- A numeral starts with a digit. -/
theorem text_eq_cons : ∃ c cs, n.text = c :: cs ∧ c.isDigit = true := by
  rcases n.whole_eq with h | ⟨c, cs, h, -⟩
  · exact ⟨'0', pointed n.fraction ++ n.exponent, by rw [text, h]; rfl, by decide⟩
  · refine ⟨c, cs ++ (pointed n.fraction ++ n.exponent), by rw [text, h]; rfl, ?_⟩
    exact n.isDigit_whole c (by rw [h]; exact List.mem_cons_self)

end Numeral

end FuzzyInference

import FuzzyInference.Text.Identifier
import FuzzyInference.Text.Words
import Mathlib.Data.List.Basic

/-!
# Layouts of tables of words

A table of words can be written with any blanks between its words, any padding around its lines and any
blank lines between them. `Lays` is this relation of the words to the text, and reading the lines and
words of a text back is the same relation the other way around: every text is a layout of one table, and
every table of words has a layout.

## Contents
- `IsGap`, `IsWord`, `Trails`, `Spells`, `Lays`: how words, lines and tables are written.
- `words_of_spells`, `spells_words`: the words of a line are those that it spells.
- `rows_eq_iff`: the rows of a text are those that it lays out. `lays_iff`: tables that have a layout.
- `not_continuesIdentifier_of_isBlank`, `solid_of_isIdentifier`: names are words.
-/

namespace FuzzyInference.Text

/-- Blanks that do not end a line. -/
def IsGap (gap : List Char) : Prop := ∀ c ∈ gap, isBlank c = true ∧ c ≠ '\n'

/-- Some characters, none of them blank. -/
structure IsWord (word : List Char) : Prop where
  nonempty : word ≠ []
  solid : ∀ c ∈ word, isBlank c = false

/-- Words, each of them behind a gap, and padding after them. -/
inductive Trails : List (List Char) → List Char → Prop
  | padding {gap} (hgap : IsGap gap) : Trails [] gap
  | word {gap word words rest} (hgap : IsGap gap) (hne : gap ≠ []) (hword : IsWord word)
      (later : Trails words rest) : Trails (word :: words) (gap ++ (word ++ rest))

/-- Words with gaps between them and padding around them. -/
inductive Spells : List (List Char) → List Char → Prop
  | padding {gap} (hgap : IsGap gap) : Spells [] gap
  | words {gap word words rest} (hgap : IsGap gap) (hword : IsWord word)
      (later : Trails words rest) : Spells (word :: words) (gap ++ (word ++ rest))

/-- The row of a line; none if the line is blank. -/
def rowOf (words : List (List Char)) : List (List (List Char)) :=
  if words.isEmpty then [] else [words]

/-- Lines between line ends, and the rows of those that are not blank. -/
inductive Lays : List (List (List Char)) → List Char → Prop
  | last {words line} (h : Spells words line) : Lays (rowOf words) line
  | line {words line rows rest} (h : Spells words line) (later : Lays rows rest) :
      Lays (rowOf words ++ rows) (line ++ '\n' :: rest)

/-! ## Cutting -/

theorem splitBy_of_none {p : Char → Bool} {piece : List Char} (h : ∀ c ∈ piece, p c = false) :
    splitBy p piece = [piece] := by
  induction piece with
  | nil => rfl
  | cons c piece ih =>
    obtain ⟨hc, hpiece⟩ := List.forall_mem_cons.mp h
    rw [splitBy, hc, ih hpiece]
    rfl

theorem splitBy_append {p : Char → Bool} {piece : List Char} (h : ∀ c ∈ piece, p c = false) {mark : Char}
    (hmark : p mark = true) (rest : List Char) :
    splitBy p (piece ++ mark :: rest) = piece :: splitBy p rest := by
  induction piece with
  | nil => rw [List.nil_append, splitBy, hmark, if_pos rfl]
  | cons c piece ih =>
    obtain ⟨hc, hpiece⟩ := List.forall_mem_cons.mp h
    rw [List.cons_append, splitBy, hc, ih hpiece]
    rfl

/-- Text is cut at the first mark. -/
theorem splitAtFirst?_eq_some_iff {mark : Char} {text before after : List Char} :
    splitAtFirst? mark text = some (before, after) ↔ text = before ++ mark :: after ∧ mark ∉ before := by
  induction text generalizing before with
  | nil => simp [splitAtFirst?]
  | cons c text ih =>
    rw [splitAtFirst?]
    split
    · -- the first mark cuts, so the piece before it is empty
      rename_i hc
      cases before with
      | nil => simp [hc]
      | cons b before =>
        refine iff_of_false (by simp) ?_
        rintro ⟨htext, hmem⟩
        obtain ⟨rfl, -⟩ := List.cons.inj htext
        exact hmem (hc ▸ List.mem_cons_self ..)
    · rename_i hc
      cases before with
      | nil => simp [hc]
      | cons b before =>
        simp only [Option.map_eq_some_iff, Prod.mk.injEq, Prod.exists, List.cons.injEq, List.cons_append,
          List.mem_cons, not_or]
        constructor
        · rintro ⟨word, rest, h, ⟨rfl, rfl⟩, rfl⟩
          obtain ⟨htext, hmem⟩ := ih.mp h
          exact ⟨⟨rfl, htext⟩, Ne.symm hc, hmem⟩
        · rintro ⟨⟨rfl, htext⟩, -, hmem⟩
          exact ⟨before, after, ih.mpr ⟨htext, hmem⟩, ⟨rfl, rfl⟩, rfl⟩

/-- A text goes on with characters of a kind as long as it can. -/
theorem exists_longest (p : Char → Bool) (text : List Char) :
    ∃ longest rest, text = longest ++ rest ∧ (∀ c ∈ longest, p c = true) ∧
      (rest = [] ∨ ∃ c tail, rest = c :: tail ∧ p c = false) := by
  induction text with
  | nil => exact ⟨[], [], rfl, by simp, Or.inl rfl⟩
  | cons c text ih =>
    cases hc : p c with
    | false => exact ⟨[], c :: text, rfl, by simp, Or.inr ⟨c, text, rfl, hc⟩⟩
    | true =>
      obtain ⟨longest, rest, rfl, hlongest, hrest⟩ := ih
      exact ⟨c :: longest, rest, rfl, List.forall_mem_cons.mpr ⟨hc, hlongest⟩, hrest⟩

/-! ## Words -/

/-- The text is over or goes on with a blank. -/
def Pauses (rest : List Char) : Prop := rest = [] ∨ ∃ c tail, rest = c :: tail ∧ isBlank c = true

/-- What trails a word starts with a blank, unless it is empty. -/
theorem Trails.pauses {ws : List (List Char)} {rest : List Char} (h : Trails ws rest) : Pauses rest := by
  have hgap : ∀ {gap : List Char} (text : List Char), IsGap gap → gap ≠ [] → Pauses (gap ++ text) := by
    intro gap text hgap hne
    obtain ⟨c, tail, rfl⟩ := List.exists_cons_of_ne_nil hne
    exact Or.inr ⟨c, tail ++ text, rfl, (hgap c (List.mem_cons_self ..)).1⟩
  cases h with
  | @padding gap hblank =>
    by_cases hne : rest = []
    · exact Or.inl hne
    · rw [← List.append_nil rest]
      exact hgap [] hblank hne
  | word hblank hne _ _ => exact hgap _ hblank hne

theorem words_gap {gap : List Char} (h : ∀ c ∈ gap, isBlank c = true) (rest : List Char) :
    words (gap ++ rest) = words rest := by
  induction gap with
  | nil => rfl
  | cons c gap ih =>
    obtain ⟨hc, hgap⟩ := List.forall_mem_cons.mp h
    rw [← ih hgap, List.cons_append, words, splitBy, hc]
    rfl

theorem words_of_gap {gap : List Char} (h : ∀ c ∈ gap, isBlank c = true) : words gap = [] := by
  rw [← List.append_nil gap, words_gap h]
  rfl

/-- A word that is followed by a blank or by nothing is the first one. -/
theorem words_word {word rest : List Char} (hword : IsWord word) (hrest : Pauses rest) :
    words (word ++ rest) = word :: words rest := by
  have hsome : word.isEmpty = false := List.isEmpty_eq_false_iff.mpr hword.nonempty
  rcases hrest with rfl | ⟨c, tail, rfl, hc⟩
  · rw [List.append_nil, words, splitBy_of_none hword.solid, List.filter_cons, hsome]
    rfl
  · have htail : words (c :: tail) = words tail := by
      rw [words, splitBy, if_pos hc]
      rfl
    rw [htail, words, splitBy_append hword.solid hc, List.filter_cons, hsome]
    rfl

/-- Words trailing a word are read off without their gaps. The induction is on how they trail. -/
theorem words_of_trails {ws : List (List Char)} {rest : List Char} (h : Trails ws rest) :
    words rest = ws := by
  induction h with
  | padding hgap => exact words_of_gap fun c hc => (hgap c hc).1
  | word hgap _ hword later ih =>
    rw [words_gap fun c hc => (hgap c hc).1, words_word hword later.pauses, ih]

theorem words_of_spells {ws : List (List Char)} {line : List Char} (h : Spells ws line) :
    words line = ws := by
  cases h with
  | padding hgap => exact words_of_gap fun c hc => (hgap c hc).1
  | words hgap hword later =>
    rw [words_gap fun c hc => (hgap c hc).1, words_word hword later.pauses, words_of_trails later]

/-- A line is blank, or it begins with a gap and a word, and then it pauses. -/
theorem line_cases {line : List Char} (h : '\n' ∉ line) :
    IsGap line ∨ ∃ gap word rest, line = gap ++ (word ++ rest) ∧ IsGap gap ∧ IsWord word ∧ Pauses rest := by
  obtain ⟨gap, rest, rfl, hgap, hrest⟩ := exists_longest isBlank line
  have hgap : IsGap gap := by
    refine fun c hc => ⟨hgap c hc, ?_⟩
    rintro rfl
    exact h (List.mem_append_left _ hc)
  rcases hrest with rfl | ⟨first, tail, rfl, hfirst⟩
  · rw [List.append_nil]
    exact Or.inl hgap
  · obtain ⟨letters, rest, rfl, hletters, hrest⟩ := exists_longest (!isBlank ·) tail
    refine Or.inr ⟨gap, first :: letters, rest, rfl, hgap, ⟨List.cons_ne_nil _ _, ?_⟩, ?_⟩
    · exact List.forall_mem_cons.mpr ⟨hfirst, fun c hc => by simpa using hletters c hc⟩
    · rcases hrest with rfl | ⟨c, tail, rfl, hc⟩
      · exact Or.inl rfl
      · exact Or.inr ⟨c, tail, rfl, by simpa using hc⟩

/-- A rest of a line that starts with a blank is spelled by its words. -/
theorem trails_words {rest : List Char} (hrest : Pauses rest) (h : '\n' ∉ rest) :
    Trails (words rest) rest := by
  -- what follows a word is shorter and pauses as well
  induction hlen : rest.length using Nat.strongRecOn generalizing rest with
  | ind n ih =>
    rcases line_cases h with hgap | ⟨gap, word, later, rfl, hgap, hword, hlater⟩
    · rw [words_of_gap fun c hc => (hgap c hc).1]
      exact .padding hgap
    · have hne : gap ≠ [] := by
        rintro rfl
        obtain ⟨c, letters, rfl⟩ := List.exists_cons_of_ne_nil hword.nonempty
        rcases hrest with hnil | ⟨b, tail, hcons, hb⟩
        · cases hnil
        · obtain ⟨rfl, -⟩ := List.cons.inj hcons
          rw [hword.solid c (List.mem_cons_self ..)] at hb
          cases hb
      have hshort : later.length < n := by
        have hpos := List.length_pos_iff.mpr hne
        simp only [List.length_append] at hlen
        omega
      have hline : '\n' ∉ later := fun hmem =>
        h (List.mem_append_right _ (List.mem_append_right _ hmem))
      rw [words_gap fun c hc => (hgap c hc).1, words_word hword hlater]
      exact .word hgap hne hword (ih _ hshort hlater hline rfl)

/-- A line spells its words. -/
theorem spells_words {line : List Char} (h : '\n' ∉ line) : Spells (words line) line := by
  rcases line_cases h with hgap | ⟨gap, word, rest, rfl, hgap, hword, hrest⟩
  · rw [words_of_gap fun c hc => (hgap c hc).1]
    exact .padding hgap
  · have hline : '\n' ∉ rest := fun hmem => h (List.mem_append_right _ (List.mem_append_right _ hmem))
    rw [words_gap fun c hc => (hgap c hc).1, words_word hword hrest]
    exact .words hgap hword (trails_words hrest hline)

/-! ## Rows -/

/-- The words of the lines of a text, without blank lines. -/
def rows (text : List Char) : List (List (List Char)) :=
  ((lines text).map words).filter (!·.isEmpty)

theorem isBlank_newline : isBlank '\n' = true := rfl

theorem IsGap.no_newline {gap : List Char} (h : IsGap gap) : '\n' ∉ gap := fun hmem => (h _ hmem).2 rfl

theorem IsWord.no_newline {word : List Char} (h : IsWord word) : '\n' ∉ word := by
  intro hmem
  have hblank := h.solid _ hmem
  rw [isBlank_newline] at hblank
  cases hblank

/-- Neither words nor the gaps between them break a line. -/
theorem Trails.no_newline {ws : List (List Char)} {rest : List Char} (h : Trails ws rest) :
    '\n' ∉ rest := by
  induction h with
  | padding hgap => exact hgap.no_newline
  | word hgap _ hword _ ih => simp [hgap.no_newline, hword.no_newline, ih]

theorem Spells.no_newline {ws : List (List Char)} {line : List Char} (h : Spells ws line) :
    '\n' ∉ line := by
  cases h with
  | padding hgap => exact hgap.no_newline
  | words hgap hword later => simp [hgap.no_newline, hword.no_newline, later.no_newline]

theorem lines_of_no_newline {line : List Char} (h : '\n' ∉ line) : lines line = [line] := by
  refine splitBy_of_none fun c hc => ?_
  exact decide_eq_false fun he => h (he ▸ hc)

theorem lines_append {line : List Char} (h : '\n' ∉ line) (rest : List Char) :
    lines (line ++ '\n' :: rest) = line :: lines rest := by
  refine splitBy_append (fun c hc => ?_) (decide_eq_true rfl) rest
  exact decide_eq_false fun he => h (he ▸ hc)

/-- A line of words is a row, a blank line is none. -/
theorem rows_of_line {line : List Char} (h : '\n' ∉ line) : rows line = rowOf (words line) := by
  rw [rows, lines_of_no_newline h, List.map_singleton, rowOf]
  cases words line <;> rfl

theorem rows_append {line : List Char} (h : '\n' ∉ line) (rest : List Char) :
    rows (line ++ '\n' :: rest) = rowOf (words line) ++ rows rest := by
  rw [rows, lines_append h, List.map_cons, rowOf]
  cases words line <;> rfl

/-- A text that lays out a table is read as that table. -/
theorem rows_of_lays {grid : List (List (List Char))} {text : List Char} (h : Lays grid text) :
    rows text = grid := by
  induction h with
  | last h => rw [rows_of_line h.no_newline, words_of_spells h]
  | line h _ ih => rw [rows_append h.no_newline, words_of_spells h, ih]

/-- Every text lays out the table it is read as. -/
theorem lays_rows (text : List Char) : Lays (rows text) text := by
  induction hlen : text.length using Nat.strongRecOn generalizing text with
  | ind n ih =>
    obtain ⟨line, rest, rfl, hline, hrest⟩ := exists_longest (· ≠ '\n') text
    have hline : '\n' ∉ line := fun hmem => by simpa using hline _ hmem
    rcases hrest with rfl | ⟨c, tail, rfl, hc⟩
    · rw [List.append_nil, rows_of_line hline]
      exact .last (spells_words hline)
    · obtain rfl : c = '\n' := by simpa using hc
      rw [rows_append hline]
      refine .line (spells_words hline) (ih _ ?_ tail rfl)
      simp only [List.length_append, List.length_cons] at hlen
      omega

/-- **The rows of a text are those that it lays out.** -/
theorem rows_eq_iff {text : List Char} {grid : List (List (List Char))} :
    rows text = grid ↔ Lays grid text :=
  ⟨fun h => h ▸ lays_rows text, rows_of_lays⟩

/-! ## Tables that have a layout -/

/-- Rows of a table: some words each. -/
def IsTable (grid : List (List (List Char))) : Prop := ∀ row ∈ grid, row ≠ [] ∧ ∀ word ∈ row, IsWord word

theorem Trails.isWord {ws : List (List Char)} {rest : List Char} (h : Trails ws rest) :
    ∀ word ∈ ws, IsWord word := by
  induction h with
  | padding => simp
  | word _ _ hword _ ih => exact List.forall_mem_cons.mpr ⟨hword, ih⟩

/-- The words of a line are the row of a table. -/
theorem Spells.isTable {ws : List (List Char)} {line : List Char} (h : Spells ws line) :
    IsTable (rowOf ws) := by
  cases h with
  | padding => simp [IsTable, rowOf]
  | words hgap hword later =>
    refine List.forall_mem_singleton.mpr ⟨List.cons_ne_nil _ _, ?_⟩
    exact List.forall_mem_cons.mpr ⟨hword, later.isWord⟩

/-- The rows of a text form a table. -/
theorem Lays.isTable {grid : List (List (List Char))} {text : List Char} (h : Lays grid text) :
    IsTable grid := by
  induction h with
  | last h => exact h.isTable
  | line h _ ih => exact List.forall_mem_append.mpr ⟨h.isTable, ih⟩

theorem isGap_space : IsGap [' '] := by
  intro c hc
  rw [List.mem_singleton.mp hc]
  exact ⟨rfl, by decide⟩

/-- Any words can be spelled after a word, one blank before each. -/
theorem exists_trails {ws : List (List Char)} (h : ∀ word ∈ ws, IsWord word) : ∃ rest, Trails ws rest := by
  induction ws with
  | nil => exact ⟨[], .padding (by simp [IsGap])⟩
  | cons word ws ih =>
    obtain ⟨hword, hws⟩ := List.forall_mem_cons.mp h
    obtain ⟨rest, hrest⟩ := ih hws
    exact ⟨_, .word isGap_space (List.cons_ne_nil _ _) hword hrest⟩

/-- **Every table of words has a layout,** and nothing else has one. -/
theorem lays_iff {grid : List (List (List Char))} : (∃ text, Lays grid text) ↔ IsTable grid := by
  refine ⟨fun ⟨text, h⟩ => h.isTable, fun h => ?_⟩
  have hgap : IsGap [] := by simp [IsGap]
  induction grid with
  | nil => exact ⟨[], .last (.padding hgap)⟩
  | cons row grid ih =>
    obtain ⟨⟨hne, hrow⟩, hgrid⟩ := List.forall_mem_cons.mp h
    obtain ⟨text, htext⟩ := ih hgrid
    obtain ⟨word, ws, rfl⟩ := List.exists_cons_of_ne_nil hne
    obtain ⟨hword, hws⟩ := List.forall_mem_cons.mp hrow
    obtain ⟨rest, hrest⟩ := exists_trails hws
    exact ⟨_, .line (.words hgap hword hrest) htext⟩

/-! ## Names are words -/

theorem CodeRanges.exists_of_contains {ranges : CodeRanges} {code : Nat}
    (h : ranges.contains code = true) : ∃ r ∈ ranges, r.1 ≤ code ∧ code ≤ r.2 := by
  induction ranges with
  | nil => cases h
  | cons r ranges ih =>
    obtain ⟨first, last⟩ := r
    rw [CodeRanges.contains] at h
    split at h
    · obtain ⟨r, hr, hin⟩ := ih h
      exact ⟨r, List.mem_cons_of_mem _ hr, hin⟩
    · rename_i hlast
      exact ⟨_, List.mem_cons_self .., of_decide_eq_true h, Nat.le_of_not_lt hlast⟩

/-- The code points of a range, one by one. -/
def codesOf (r : Nat × Nat) : List Nat := (List.range (r.2 + 1 - r.1)).map (r.1 + ·)

theorem mem_codesOf {r : Nat × Nat} {code : Nat} (h : r.1 ≤ code) (h' : code ≤ r.2) :
    code ∈ codesOf r :=
  List.mem_map.mpr ⟨code - r.1, List.mem_range.mpr (by omega), by omega⟩

/-- No blank is a letter, a numeral or an underscore. -/
theorem not_continuesIdentifier_of_isBlank {c : Char} (h : isBlank c = true) :
    continuesIdentifier c = false := by
  obtain ⟨r, hr, hfirst, hlast⟩ := CodeRanges.exists_of_contains h
  have hall : ∀ code ∈ blankRanges.flatMap codesOf, alphabeticRanges.contains code = false ∧
      numericRanges.contains code = false ∧ code ≠ '_'.toNat := by decide +kernel
  obtain ⟨hletter, hnumeral, hunderscore⟩ :=
    hall c.toNat (List.mem_flatMap.mpr ⟨r, hr, mem_codesOf hfirst hlast⟩)
  have hne : (c == '_') = false := beq_eq_false_iff_ne.mpr fun he => hunderscore (he ▸ rfl)
  unfold continuesIdentifier isAlphabetic isNumeric
  rw [hletter, hnumeral, hne]
  rfl

/-- An identifier holds no blank, so it is one word. -/
theorem solid_of_isIdentifier {name : String} (h : isIdentifier name = true) :
    ∀ c ∈ name.toList, isBlank c = false := by
  have hall : ∀ c ∈ name.toList, continuesIdentifier c = true := by
    unfold isIdentifier at h
    split at h
    · cases h
    · rename_i first rest heq
      obtain ⟨hfirst, hrest⟩ := Bool.and_eq_true_iff.mp h
      rw [heq]
      refine List.forall_mem_cons.mpr ⟨?_, List.all_eq_true.mp hrest⟩
      unfold startsIdentifier at hfirst
      unfold continuesIdentifier
      rcases Bool.or_eq_true_iff.mp hfirst with h | h <;> simp [h]
  intro c hc
  cases hblank : isBlank c with
  | false => rfl
  | true =>
    have hnot := not_continuesIdentifier_of_isBlank hblank
    rw [hall c hc] at hnot
    cases hnot

end FuzzyInference.Text

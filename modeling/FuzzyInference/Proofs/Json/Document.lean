import FuzzyInference.Proofs.Json.Numeral
import FuzzyInference.Proofs.Json.Text

/-!
# Written documents read back

A document in the indented layout is read back as the same tree, whatever follows it, if its numbers are
numerals and its texts have values. The number of steps that the reader is given is bounded by the length
of the text, which the induction carries along.

## Contents
- `Writable`: the trees that come back.
- `skipSpace_append`: what stands between the parts is skipped.
- `ReadsBack`: reading what was written, in front of any rest.
- `read?_toIndented`: a whole document.
-/

namespace FuzzyInference.Json

/-- A numeral behind an optional sign. -/
def IsNumber (literal : List Char) : Prop :=
  ∃ n : Numeral, literal = n.text ∨ literal = '-' :: n.text

/-- The trees whose numbers are numerals and whose texts and names have values. -/
inductive Writable : Json → Prop where
  | null : Writable .null
  | bool (b : Bool) : Writable (.bool b)
  | number {literal : List Char} (h : IsNumber literal) : Writable (.number literal)
  | text (s : String) : Writable (.text (some s))
  | array {items : List Json} (h : ∀ item ∈ items, Writable item) : Writable (.array items)
  | object {members : List (Option String × Json)}
      (hnames : ∀ member ∈ members, member.1.isSome = true)
      (hvalues : ∀ member ∈ members, Writable member.2) : Writable (.object members)

/-! ## Blanks -/

theorem skipSpace_append {blanks : List Char} (h : ∀ c ∈ blanks, isSpace c = true) (cs : List Char) :
    skipSpace (blanks ++ cs) = skipSpace cs :=
  List.dropWhile_append_of_pos h

theorem isSpace_newLine (level : Nat) : ∀ c ∈ newLine level, isSpace c = true := by
  intro c hc
  rcases List.mem_cons.mp hc with rfl | hc
  · rfl
  · rw [(List.mem_replicate.mp hc).2]
    rfl

theorem skipSpace_cons {c : Char} (h : isSpace c = false) (cs : List Char) :
    skipSpace (c :: cs) = c :: cs :=
  List.dropWhile_cons_of_neg (by simp [h])

/-- A value may stand after any blanks, and so may items and members. -/
theorem readValue?_append {blanks : List Char} (h : ∀ c ∈ blanks, isSpace c = true) (fuel : Nat)
    (cs : List Char) : readValue? fuel (blanks ++ cs) = readValue? fuel cs := by
  cases fuel with
  | zero => rfl
  | succ fuel => rw [readValue?, readValue?, skipSpace_append h]

theorem readItems?_append {blanks : List Char} (h : ∀ c ∈ blanks, isSpace c = true) (fuel : Nat)
    (cs : List Char) : readItems? fuel (blanks ++ cs) = readItems? fuel cs := by
  cases fuel with
  | zero => rfl
  | succ fuel => rw [readItems?, readItems?, readValue?_append h]

theorem readMembers?_append {blanks : List Char} (h : ∀ c ∈ blanks, isSpace c = true) (fuel : Nat)
    (cs : List Char) : readMembers? fuel (blanks ++ cs) = readMembers? fuel cs := by
  cases fuel with
  | zero => rfl
  | succ fuel => rw [readMembers?, readMembers?, skipSpace_append h]

/-! ## Numbers -/

/-- A number starts with a digit or a minus sign, so it is taken for nothing else. -/
theorem IsNumber.head {literal : List Char} (h : IsNumber literal) :
    ∃ c cs, literal = c :: cs ∧ (c.isDigit = true ∨ c = '-') := by
  obtain ⟨n, rfl | rfl⟩ := h
  · obtain ⟨c, cs, htext, hc⟩ := n.text_eq_cons
    exact ⟨c, cs, htext, Or.inl hc⟩
  · exact ⟨'-', n.text, rfl, Or.inr rfl⟩

/-- A number is read up to a character that ends it. -/
theorem IsNumber.readNumber? {literal rest : List Char} (h : IsNumber literal) (hrest : EndsNumber rest) :
    readNumber? (literal ++ rest) = some (literal, rest) := by
  obtain ⟨n, rfl | rfl⟩ := h
  · obtain ⟨c, cs, htext, hc⟩ := n.text_eq_cons
    have hread := n.readMagnitude?_text hrest
    rw [htext, List.cons_append] at hread ⊢
    unfold Json.readNumber?
    split
    next heq =>
      rw [(List.cons.inj heq).1] at hc
      exact absurd hc (by decide)
    next => exact hread
  · show (readMagnitude? (n.text ++ rest)).map _ = _
    rw [n.readMagnitude?_text hrest]
    rfl

theorem ne_of_head {c d : Char} (hc : c.isDigit = true ∨ c = '-') (hd : d.isDigit = false ∧ d ≠ '-') :
    c ≠ d := by
  rintro rfl
  rcases hc with hc | hc
  · rw [hd.1] at hc
    exact Bool.false_ne_true hc
  · exact hd.2 hc

theorem isSpace_eq_false {c : Char} (hc : c.isDigit = true ∨ c = '-') : isSpace c = false := by
  simp [isSpace, ne_of_head hc]

/-- Nothing but a number starts with a digit or a sign. -/
theorem readValue?_number {literal rest : List Char} (h : IsNumber literal) (hrest : EndsNumber rest)
    (fuel : Nat) : readValue? (fuel + 1) (literal ++ rest) = some (.number literal, rest) := by
  have hread := h.readNumber? hrest
  obtain ⟨c, cs, rfl, hc⟩ := h.head
  rw [List.cons_append] at hread ⊢
  rw [readValue?, skipSpace_cons (isSpace_eq_false hc)]
  split
  next heq => exact absurd (List.cons.inj heq).1 (ne_of_head hc (by decide))
  next heq => exact absurd (List.cons.inj heq).1 (ne_of_head hc (by decide))
  next heq => exact absurd (List.cons.inj heq).1 (ne_of_head hc (by decide))
  next heq => exact absurd (List.cons.inj heq).1 (ne_of_head hc (by decide))
  next heq => exact absurd (List.cons.inj heq).1 (ne_of_head hc (by decide))
  next heq => exact absurd (List.cons.inj heq).1 (ne_of_head hc (by decide))
  next =>
    rw [hread]
    rfl

/-! ## Documents -/

/-- The first character of a written tree: no blank, and no end of an array or object. -/
theorem Writable.head {j : Json} (h : Writable j) (level : Nat) :
    ∃ c cs, j.indented level = c :: cs ∧ isSpace c = false ∧ c ≠ ']' := by
  cases h with
  | null => exact ⟨'n', _, rfl, by decide⟩
  | bool b => cases b <;> exact ⟨_, _, rfl, by decide⟩
  | number h =>
    obtain ⟨c, cs, rfl, hc⟩ := h.head
    exact ⟨c, cs, rfl, isSpace_eq_false hc, ne_of_head hc (by decide)⟩
  | text s => exact ⟨'"', _, rfl, by decide⟩
  | @array items h => cases items <;> exact ⟨'[', _, rfl, by decide⟩
  | @object members _ h =>
    cases members with
    | nil => exact ⟨'\x7b', _, rfl, by decide⟩
    | cons member members => exact ⟨'\x7b', _, rfl, by decide⟩

/-- Reading what was written of a tree, in front of any rest. -/
def ReadsBack (j : Json) : Prop :=
  ∀ level fuel rest, EndsNumber rest → 2 * (j.indented level).length + 1 ≤ fuel →
    readValue? fuel (j.indented level ++ rest) = some (j, rest)

theorem endsNumber_cons {c : Char} (h : c.isDigit = false ∧ c ≠ '.' ∧ c ≠ 'e' ∧ c ≠ 'E')
    (rest : List Char) : EndsNumber (c :: rest) := by
  intro d hd
  obtain rfl : c = d := Option.some.inj hd
  exact h

/-- What follows an item of an array, or a member of an object, ends a number. -/
theorem endsNumber_indentedItems (level : Nat) (items : List Json) (rest : List Char) :
    EndsNumber (indentedItems level items ++ rest) := by
  cases items with
  | nil => exact endsNumber_cons (by decide) _
  | cons item items => exact endsNumber_cons (by decide) _

theorem endsNumber_indentedMembers (level : Nat) (members : List (Option String × Json))
    (rest : List Char) : EndsNumber (indentedMembers level members ++ rest) := by
  cases members with
  | nil => exact endsNumber_cons (by decide) _
  | cons member members => exact endsNumber_cons (by decide) _

/-- An indented array is read back item by item. The induction is on the items, for every level and
every text that may follow. -/
theorem readItems?_indented (items : List Json) : ∀ (item : Json), (∀ j ∈ item :: items, ReadsBack j) →
    ∀ (level fuel : Nat) (rest : List Char),
      2 * (indented (level + 1) item ++ indentedItems level items).length + 1 ≤ fuel →
      readItems? fuel (indented (level + 1) item ++ (indentedItems level items ++ rest)) =
        some (item :: items, rest) := by
  induction items with
  | nil =>
    intro item h level fuel rest hfuel
    obtain ⟨fuel, rfl⟩ : ∃ n, fuel = n + 1 := ⟨fuel - 1, by omega⟩
    have hend : indentedItems level [] = newLine level ++ [']'] := rfl
    rw [List.length_append, hend, List.length_append, List.length_singleton] at hfuel
    rw [readItems?, h item List.mem_cons_self (level + 1) fuel _ (endsNumber_indentedItems level [] rest)
      (by omega)]
    simp only [hend, List.append_assoc, skipSpace_append (isSpace_newLine level)]
    rfl
  | cons next items ih =>
    intro item h level fuel rest hfuel
    obtain ⟨fuel, rfl⟩ : ∃ n, fuel = n + 1 := ⟨fuel - 1, by omega⟩
    -- the text of the items has the shape of their list: a comma before each further one
    have hnext : indentedItems level (next :: items) =
        ',' :: (newLine (level + 1) ++ (indented (level + 1) next ++ indentedItems level items)) := rfl
    rw [List.length_append, hnext, List.length_cons, List.length_append] at hfuel
    rw [readItems?, h item List.mem_cons_self (level + 1) fuel _
      (endsNumber_indentedItems level (next :: items) rest) (by omega)]
    have hrest := ih next (fun j hj => h j (List.mem_cons_of_mem _ hj)) level fuel rest (by omega)
    rw [hnext]
    show (readItems? fuel (newLine (level + 1) ++ (indented (level + 1) next ++
      indentedItems level items) ++ rest)).map _ = _
    rw [List.append_assoc, readItems?_append (isSpace_newLine _), List.append_assoc, hrest]
    rfl

/-- A member as it is written, in front of what follows it. -/
def memberText (level : Nat) (name : String) (value : Json) (rest : List Char) : List Char :=
  quotedText (some name) ++ ':' :: ' ' :: (indented (level + 1) value ++ rest)

/-- The name of a member, and its value. -/
theorem readMembers?_memberText {name : String} {value : Json} (h : ReadsBack value) (level fuel : Nat)
    {rest : List Char} (hrest : EndsNumber rest) (hfuel : 2 * (indented (level + 1) value).length + 1 ≤ fuel) :
    readMembers? (fuel + 1) (memberText level name value rest) =
      match skipSpace rest with
      | ',' :: rest => (readMembers? fuel rest).map fun (members, rest) => ((some name, value) :: members, rest)
      | '\x7d' :: rest => some ([(some name, value)], rest)
      | _ => none := by
  have hquoted : memberText level name value rest = '"' :: (name.toList.flatMap escaped ++
      '"' :: (':' :: ' ' :: (indented (level + 1) value ++ rest))) := by
    simp [memberText, quotedText]
  have hvalue : readValue? fuel (' ' :: (indented (level + 1) value ++ rest)) = some (value, rest) := by
    have hspace : ∀ c ∈ [' '], isSpace c = true := List.forall_mem_singleton.mpr rfl
    have hblank := readValue?_append hspace fuel (indented (level + 1) value ++ rest)
    exact hblank.trans (h (level + 1) fuel rest hrest hfuel)
  rw [hquoted, readMembers?, skipSpace_cons (by decide)]
  simp only [readText?_quoted]
  rw [skipSpace_cons (by decide)]
  -- naming the value keeps the two matches on what follows it apart until both are in place
  obtain ⟨result, hresult⟩ : ∃ r, r = readValue? fuel (' ' :: (indented (level + 1) value ++ rest)) := ⟨_, rfl⟩
  simp only [← hresult]
  obtain rfl := hresult.trans hvalue
  rfl

/-- An indented object is read back member by member, likewise. -/
theorem readMembers?_indented (members : List (Option String × Json)) :
    ∀ (name : String) (value : Json), ReadsBack value →
      (∀ m ∈ members, m.1.isSome = true) → (∀ m ∈ members, ReadsBack m.2) →
      ∀ (level fuel : Nat) (rest : List Char),
        2 * (memberText level name value (indentedMembers level members)).length + 1 ≤ fuel →
        readMembers? fuel (memberText level name value (indentedMembers level members ++ rest)) =
          some ((some name, value) :: members, rest) := by
  induction members with
  | nil =>
    intro name value h _ _ level fuel rest hfuel
    obtain ⟨fuel, rfl⟩ : ∃ n, fuel = n + 1 := ⟨fuel - 1, by omega⟩
    rw [memberText, List.length_append, List.length_cons, List.length_cons, List.length_append] at hfuel
    rw [readMembers?_memberText h level fuel (endsNumber_indentedMembers level [] rest) (by omega)]
    have hend : indentedMembers level [] = newLine level ++ ['\x7d'] := rfl
    simp only [hend, List.append_assoc, skipSpace_append (isSpace_newLine level)]
    rfl
  | cons member members ih =>
    intro name value h hnames hvalues level fuel rest hfuel
    obtain ⟨fuel, rfl⟩ : ∃ n, fuel = n + 1 := ⟨fuel - 1, by omega⟩
    obtain ⟨next, hnext⟩ := Option.isSome_iff_exists.mp (hnames member List.mem_cons_self)
    obtain ⟨nextName, nextValue⟩ := member
    obtain rfl : nextName = some next := hnext
    -- what follows a member: a comma, a line break, and the next member
    have hmore : ∀ tail, indentedMembers level ((some next, nextValue) :: members) ++ tail =
        ',' :: (newLine (level + 1) ++ memberText level next nextValue
          (indentedMembers level members ++ tail)) := by
      intro tail
      simp [indentedMembers, memberText]
    have hmore' := hmore []
    rw [List.append_nil, List.append_nil] at hmore'
    rw [memberText, List.length_append, List.length_cons, List.length_cons, List.length_append, hmore',
      List.length_cons, List.length_append] at hfuel
    rw [readMembers?_memberText h level fuel (endsNumber_indentedMembers level _ rest) (by omega), hmore,
      skipSpace_cons (by decide)]
    have hrest := ih next nextValue (hvalues _ List.mem_cons_self)
      (fun m hm => hnames m (List.mem_cons_of_mem _ hm))
      (fun m hm => hvalues m (List.mem_cons_of_mem _ hm)) level fuel rest (by omega)
    simp only [readMembers?_append (isSpace_newLine _), hrest, Option.map_some]

/-- A reader that was given any step at all takes one. -/
theorem readsBack_of_succ {j : Json}
    (h : ∀ level fuel rest, EndsNumber rest → 2 * (j.indented level).length ≤ fuel →
      readValue? (fuel + 1) (j.indented level ++ rest) = some (j, rest)) : ReadsBack j := by
  intro level fuel rest hrest hfuel
  obtain ⟨fuel, rfl⟩ : ∃ n, fuel = n + 1 := ⟨fuel - 1, by omega⟩
  exact h level fuel rest hrest (by omega)

/-- Every writable document is read back, by induction over its structure. -/
theorem Writable.readsBack {j : Json} (h : Writable j) : ReadsBack j := by
  induction h with
  | null =>
    apply readsBack_of_succ
    intro level fuel rest _ hfuel
    rfl
  | bool b =>
    apply readsBack_of_succ
    intro level fuel rest _ hfuel
    cases b <;> rfl
  | number h =>
    apply readsBack_of_succ
    intro level fuel rest hrest _
    exact readValue?_number h hrest fuel
  | text s =>
    apply readsBack_of_succ
    intro level fuel rest _ hfuel
    have htext : indented level (.text (some s)) ++ rest =
        '"' :: (s.toList.flatMap escaped ++ '"' :: rest) := by
      simp [indented, scalarText, quotedText]
    rw [htext, readValue?, skipSpace_cons (by decide)]
    simp only [readText?_quoted, Option.map_some]
  | @array items hitems ih =>
    apply readsBack_of_succ
    intro level fuel rest _ hfuel
    cases items with
    | nil => rfl
    | cons item items =>
      obtain ⟨c, cs, hhead, hspace, hclose⟩ := (hitems item List.mem_cons_self).head (level + 1)
      have hopen : indented level (.array (item :: items)) =
          '[' :: (newLine (level + 1) ++ (indented (level + 1) item ++ indentedItems level items)) := rfl
      rw [hopen, List.length_cons, List.length_append] at hfuel
      have hread := readItems?_indented items item ih level fuel rest (by omega)
      rw [hhead, List.cons_append] at hread
      rw [hopen, List.cons_append, readValue?, skipSpace_cons (by decide), List.append_assoc, List.append_assoc,
        hhead, List.cons_append]
      simp only [skipSpace_append (isSpace_newLine _), skipSpace_cons hspace]
      -- an item does not start as the end of an empty array does
      split
      next heq => exact absurd (List.cons.inj heq).1 hclose
      next => rw [hread, Option.map_some]
  | @object members hnames hvalues ih =>
    apply readsBack_of_succ
    intro level fuel rest _ hfuel
    cases members with
    | nil => rfl
    | cons member members =>
      obtain ⟨name, hname⟩ := Option.isSome_iff_exists.mp (hnames member List.mem_cons_self)
      obtain ⟨firstName, value⟩ := member
      obtain rfl : firstName = some name := hname
      have hopen : ∀ tail, indented level (.object ((some name, value) :: members)) ++ tail =
          '\x7b' :: (newLine (level + 1) ++ memberText level name value
            (indentedMembers level members ++ tail)) := by
        intro tail
        simp [indented, memberText]
      have hopen' := hopen []
      rw [List.append_nil, List.append_nil] at hopen'
      rw [hopen', List.length_cons, List.length_append] at hfuel
      have hread := readMembers?_indented members name value (ih _ List.mem_cons_self)
        (fun m hm => hnames m (List.mem_cons_of_mem _ hm)) (fun m hm => ih m (List.mem_cons_of_mem _ hm))
        level fuel rest (by omega)
      have hquote : ∃ cs, memberText level name value (indentedMembers level members ++ rest) = '"' :: cs :=
        ⟨_, rfl⟩
      obtain ⟨cs, hcs⟩ := hquote
      rw [hcs] at hread
      rw [hopen, readValue?, skipSpace_cons (by decide), hcs]
      simp only [skipSpace_append (isSpace_newLine _), skipSpace_cons (show isSpace '"' = false by decide)]
      show (readMembers? fuel ('"' :: cs)).map _ = _
      rw [hread, Option.map_some]

/-- A written document is read back whole. -/
theorem read?_toIndented {j : Json} (h : Writable j) : Json.read? j.toIndented = some j := by
  have hread := h.readsBack 0 (2 * (j.indented 0).length + 1) [] endsNumber_nil (Nat.le_refl _)
  rw [List.append_nil] at hread
  rw [Json.read?, toIndented]
  simp only [String.toList_ofList, hread]
  rfl

end FuzzyInference.Json

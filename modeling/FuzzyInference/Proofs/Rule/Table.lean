import FuzzyInference.Proofs.Rule.Construction
import FuzzyInference.Proofs.Rule.Target
import FuzzyInference.Proofs.Text.Layout
import FuzzyInference.Rule.Table

/-!
# Rules from tables

A table is accepted if it has a row, all its cells name sets, every row after the first one has one cell
more than that one, and the consequents fit. Its rule is that of the conditions of its cells, written out
row by row. How the table is laid out as text does not matter.

## Contents
- `StandsFor`, `Names`, `resolve_eq_ok_iff`: what a cell names.
- `RowGives`, `Tabulates`, `Rule.ofTable_eq_ok_iff`: what a table says.
- `Grammatical`, `exists_tabulates_iff`: tables that say something.
- `Rule.SharesTarget`, `Rule.checkTargets_iff_sharesTarget`: consequents that fit.
- `ofTable_grammar`: all of this together, run on `crossedTable`.
-/

namespace FuzzyInference

variable {α : Type} [Scalar α] {store : Store α} {entries : List (String × DomainId)}

/-! ## Cells -/

/-- The last entry for the alias says that it stands for the domain. -/
def StandsFor (entries : List (String × DomainId)) (word : String) (d : DomainId) : Prop :=
  ((entries.filter (·.1 = word)).getLast?).map Prod.snd = some d

/-- The cell is an alias of a domain, a dot, and a name that the set has in the registry there. The alias
    has no dot of its own. -/
def Names (store : Store α) (entries : List (String × DomainId)) (cell : List Char) (s : SetId) : Prop :=
  ∃ word name d, cell = word.toList ++ '.' :: name.toList ∧ '.' ∉ word.toList ∧
    StandsFor entries word d ∧ (store.domainAt d).sets.get? name = some s

/-- The map that a namespace becomes finds for a word what the last entry says. -/
theorem standsFor_iff {word : String} {d : DomainId} :
    StandsFor entries word d ↔ (OrderedMap.ofList entries).get? word = some d := by
  rw [OrderedMap.get?_ofList, StandsFor]

namespace RuleTable

/-- A cell resolves to exactly the set it names. -/
theorem resolve_eq_ok_iff {cell : List Char} {s : SetId} :
    resolve store (.ofList entries) cell = .ok s ↔ Names store entries cell s := by
  unfold resolve
  constructor
  · intro h
    cases hcut : Text.splitAtFirst? '.' cell with
    | none =>
      rw [hcut] at h
      cases h
    | some parts =>
      obtain ⟨word, name⟩ := parts
      obtain ⟨hcell, hdot⟩ := Text.splitAtFirst?_eq_some_iff.mp hcut
      rw [hcut] at h
      dsimp only at h
      cases hd : (OrderedMap.ofList entries).get? (String.ofList word) with
      | none =>
        rw [hd] at h
        cases h
      | some d =>
        rw [hd] at h
        dsimp only at h
        cases hs : (store.domainAt d).sets.get? (String.ofList name) with
        | none =>
          rw [hs] at h
          cases h
        | some t =>
          rw [hs] at h
          cases h
          refine ⟨String.ofList word, String.ofList name, d, ?_, ?_, standsFor_iff.mpr hd, hs⟩
          · simpa using hcell
          · simpa using hdot
  · rintro ⟨word, name, d, rfl, hdot, hd, hs⟩
    rw [Text.splitAtFirst?_eq_some_iff.mpr ⟨rfl, hdot⟩]
    dsimp only
    rw [String.ofList_toList, standsFor_iff.mp hd]
    dsimp only
    rw [String.ofList_toList, hs]

end RuleTable

/-! ## Rows -/

/-- The first cell of a row names its set, and the others name a consequent for each column. The
    conditions are those of the row's set with the column's set, column by column. -/
inductive RowGives (store : Store α) (entries : List (String × DomainId)) (columns : List SetId) :
    List (List Char) → List (List SetId × SetId) → Prop
  | row {head cells row consequents} (hhead : Names store entries head row)
      (hcells : List.Forall₂ (Names store entries) cells consequents)
      (hlen : consequents.length = columns.length) :
      RowGives store entries columns (head :: cells)
        ((columns.zip consequents).map fun (column, s) => ([row, column], s))

/-- The first row names the sets of the columns; the conditions are those of the other rows, row by
    row. -/
inductive Tabulates (store : Store α) (entries : List (String × DomainId)) :
    List (List (List Char)) → List (List SetId × SetId) → Prop
  | table {header lines columns rows} (hheader : List.Forall₂ (Names store entries) header columns)
      (hlines : List.Forall₂ (RowGives store entries columns) lines rows) :
      Tabulates store entries (header :: lines) rows.flatten

/-- A traversal succeeds where every element does. -/
theorem mapM_eq_ok_iff {β γ ε : Type} {f : β → Except ε γ} {xs : List β} {ys : List γ} :
    xs.mapM f = .ok ys ↔ List.Forall₂ (fun x y => f x = .ok y) xs ys := by
  induction xs generalizing ys with
  | nil =>
    rw [List.forall₂_nil_left_iff]
    exact ⟨fun h => (Except.ok.inj h).symm, fun h => congrArg Except.ok h.symm⟩
  | cons x xs ih =>
    rw [List.mapM_cons, bind_eq_ok_iff, List.forall₂_cons_left_iff]
    constructor
    · rintro ⟨y, hy, h⟩
      obtain ⟨later, hlater, h⟩ := bind_eq_ok_iff.mp h
      exact ⟨y, later, hy, ih.mp hlater, (Except.ok.inj h).symm⟩
    · rintro ⟨y, later, hy, hlater, rfl⟩
      exact ⟨y, hy, bind_eq_ok_iff.mpr ⟨later, ih.mpr hlater, rfl⟩⟩

namespace RuleTable

theorem mapM_resolve_eq_ok_iff {cells : List (List Char)} {sets : List SetId} :
    cells.mapM (resolve store (.ofList entries)) = .ok sets ↔
      List.Forall₂ (Names store entries) cells sets := by
  simp only [mapM_eq_ok_iff, resolve_eq_ok_iff]

/-- A row gives one condition for each column, on the set of the row and that of the column. -/
theorem rowConditions_eq_ok_iff {columns : List SetId} {line : List (List Char)} (hne : line ≠ [])
    {conditions : List (List SetId × SetId)} :
    rowConditions store (.ofList entries) columns line = .ok conditions ↔
      RowGives store entries columns line conditions := by
  obtain ⟨head, cells, rfl⟩ := List.exists_cons_of_ne_nil hne
  unfold rowConditions
  rw [bind_eq_ok_iff]
  constructor
  · rintro ⟨row, hrow, h⟩
    obtain ⟨consequents, hconsequents, h⟩ := bind_eq_ok_iff.mp h
    split at h
    · cases h
    · rename_i hlen
      cases h
      exact .row (resolve_eq_ok_iff.mp hrow) (mapM_resolve_eq_ok_iff.mp hconsequents) (not_not.mp hlen)
  · rintro ⟨hhead, hcells, hlen⟩
    refine ⟨_, resolve_eq_ok_iff.mpr hhead, bind_eq_ok_iff.mpr
      ⟨_, mapM_resolve_eq_ok_iff.mpr hcells, ?_⟩⟩
    rw [if_neg (not_not.mpr hlen)]
    rfl

theorem mapM_rowConditions_eq_ok_iff {columns : List SetId} {lines : List (List (List Char))}
    (hne : ∀ line ∈ lines, line ≠ []) {rows : List (List (List SetId × SetId))} :
    lines.mapM (rowConditions store (.ofList entries) columns) = .ok rows ↔
      List.Forall₂ (RowGives store entries columns) lines rows := by
  rw [mapM_eq_ok_iff]
  induction lines generalizing rows with
  | nil => simp
  | cons line lines ih =>
    obtain ⟨hline, hlater⟩ := List.forall_mem_cons.mp hne
    cases rows with
    | nil => simp
    | cons row rows =>
      rw [List.forall₂_cons, List.forall₂_cons]
      exact and_congr (rowConditions_eq_ok_iff hline) (ih hlater)

/-- The rows of a text are those that it lays out. -/
theorem rows_of_lays {text : String} {grid : List (List (List Char))}
    (h : Text.Lays grid text.toList) : rows text = grid :=
  Text.rows_of_lays h

end RuleTable

/-- A table says one thing. -/
theorem Tabulates.unique {grid : List (List (List Char))} (htable : Text.IsTable grid)
    {conditions others : List (List SetId × SetId)} (h : Tabulates store entries grid conditions)
    (k : Tabulates store entries grid others) : conditions = others := by
  obtain @⟨header, lines, columns, rows, hheader, hrows⟩ := h
  obtain @⟨_, _, columns', rows', hheader', hrows'⟩ := k
  have hne : ∀ line ∈ lines, line ≠ [] := fun line hline => (htable line (List.mem_cons_of_mem _ hline)).1
  rw [← RuleTable.mapM_resolve_eq_ok_iff] at hheader hheader'
  obtain rfl : columns = columns' := Except.ok.inj (hheader.symm.trans hheader')
  rw [← RuleTable.mapM_rowConditions_eq_ok_iff hne] at hrows hrows'
  obtain rfl : rows = rows' := Except.ok.inj (hrows.symm.trans hrows')
  rfl

/-- **What a table says.** Its rule is the one of the conditions that it gives. -/
theorem Rule.ofTable_eq_ok_iff {text : String} {grid : List (List (List Char))}
    (h : Text.Lays grid text.toList) {rule : Rule} :
    ofTable store text (.ofList entries) = .ok rule ↔
      ∃ conditions, Tabulates store entries grid conditions ∧ ofConditions store conditions = .ok rule := by
  unfold ofTable
  rw [RuleTable.rows_of_lays h]
  cases grid with
  | nil =>
    refine iff_of_false (fun h => (by cases h)) ?_
    rintro ⟨conditions, ⟨⟩, -⟩
  | cons header lines =>
    have hne : ∀ line ∈ lines, line ≠ [] :=
      fun line hline => (h.isTable line (List.mem_cons_of_mem _ hline)).1
    -- the header names the columns, then each row is read against them
    dsimp only
    rw [bind_eq_ok_iff]
    constructor
    · rintro ⟨columns, hcolumns, h⟩
      obtain ⟨rows, hrows, h⟩ := bind_eq_ok_iff.mp h
      exact ⟨_, .table (RuleTable.mapM_resolve_eq_ok_iff.mp hcolumns)
        ((RuleTable.mapM_rowConditions_eq_ok_iff hne).mp hrows), h⟩
    · rintro ⟨conditions, ⟨hheader, hrows⟩, hrule⟩
      exact ⟨_, RuleTable.mapM_resolve_eq_ok_iff.mpr hheader, bind_eq_ok_iff.mpr
        ⟨_, (RuleTable.mapM_rowConditions_eq_ok_iff hne).mpr hrows, hrule⟩⟩

/-! ## Tables that say something -/

/-- There is a row, all cells name sets, and every later row has one cell more than the first one. -/
structure Grammatical (store : Store α) (entries : List (String × DomainId))
    (grid : List (List (List Char))) : Prop where
  nonempty : grid ≠ []
  named : ∀ row ∈ grid, ∀ cell ∈ row, ∃ s, Names store entries cell s
  even : ∀ header lines, grid = header :: lines → ∀ line ∈ lines, line.length = header.length + 1

theorem exists_forall₂_iff {β γ : Type} {R : β → γ → Prop} {xs : List β} :
    (∃ ys, List.Forall₂ R xs ys) ↔ ∀ x ∈ xs, ∃ y, R x y := by
  induction xs with
  | nil => simp
  | cons x xs ih => simp [List.forall₂_cons_left_iff, ← ih]

/-- A row gives conditions exactly when it has a cell for every column and one more, all of them
names. -/
theorem exists_rowGives_iff {columns : List SetId} {line : List (List Char)} (hne : line ≠ []) :
    (∃ conditions, RowGives store entries columns line conditions) ↔
      (∀ cell ∈ line, ∃ s, Names store entries cell s) ∧ line.length = columns.length + 1 := by
  obtain ⟨head, cells, rfl⟩ := List.exists_cons_of_ne_nil hne
  rw [List.forall_mem_cons, ← exists_forall₂_iff, List.length_cons, Nat.add_right_cancel_iff]
  constructor
  · rintro ⟨_, ⟨hhead, hcells, hlen⟩⟩
    exact ⟨⟨⟨_, hhead⟩, ⟨_, hcells⟩⟩, hcells.length_eq.trans hlen⟩
  · rintro ⟨⟨⟨row, hhead⟩, consequents, hcells⟩, hlen⟩
    exact ⟨_, .row hhead hcells (hcells.length_eq.symm.trans hlen)⟩

/-- **Which tables say something.** -/
theorem exists_tabulates_iff {grid : List (List (List Char))} (htable : Text.IsTable grid) :
    (∃ conditions, Tabulates store entries grid conditions) ↔ Grammatical store entries grid := by
  have hrow : ∀ columns, ∀ line ∈ grid, (∃ conditions, RowGives store entries columns line conditions) ↔
      (∀ cell ∈ line, ∃ s, Names store entries cell s) ∧ line.length = columns.length + 1 :=
    fun columns line hline => exists_rowGives_iff (htable line hline).1
  constructor
  · rintro ⟨_, @⟨header, lines, columns, rows, hheader, hlines⟩⟩
    have hall := exists_forall₂_iff.mp ⟨rows, hlines⟩
    have hline := fun line hline => (hrow columns line (List.mem_cons_of_mem _ hline)).mp (hall line hline)
    refine ⟨List.cons_ne_nil _ _, List.forall_mem_cons.mpr ⟨exists_forall₂_iff.mp ⟨_, hheader⟩,
      fun line h => (hline line h).1⟩, ?_⟩
    rintro _ _ ⟨⟩ line h
    rw [hheader.length_eq]
    exact (hline line h).2
  · -- the columns are named first, since the rows are as long as they say
    intro h
    obtain ⟨header, lines, rfl⟩ := List.exists_cons_of_ne_nil h.nonempty
    obtain ⟨hheader, hlines⟩ := List.forall_mem_cons.mp h.named
    obtain ⟨columns, hcolumns⟩ := exists_forall₂_iff.mpr hheader
    have hrows : ∀ line ∈ lines, ∃ conditions, RowGives store entries columns line conditions := by
      intro line hline
      refine (hrow columns line (List.mem_cons_of_mem _ hline)).mpr ⟨hlines line hline, ?_⟩
      rw [← hcolumns.length_eq]
      exact h.even header lines rfl line hline
    obtain ⟨rows, hrows⟩ := exists_forall₂_iff.mpr hrows
    exact ⟨_, .table hcolumns hrows⟩

/-! ## Consequents that fit -/

/-- The consequents reach one domain. -/
def Rule.SharesTarget (store : Store α) (rule : Rule) : Prop :=
  ∃ d, ∀ s ∈ rule.consequents, store.domainOf? s = some d

/-- With every consequent bound, the check is for one domain of all. -/
theorem Rule.checkTargets_iff_sharesTarget {rule : Rule}
    (h : ∀ s ∈ rule.consequents, ∃ d, store.domainOf? s = some d) :
    rule.checkTargets store = .ok () ↔ rule.SharesTarget store := by
  rw [checkTargets_eq_ok_iff]
  constructor
  · intro hsame
    cases hc : rule.consequents with
    | nil =>
      refine ⟨⟨0⟩, fun s hs => ?_⟩
      rw [hc] at hs
      cases hs
    | cons first rest =>
      have hfirst : first ∈ rule.consequents := by rw [hc]; exact List.mem_cons_self ..
      obtain ⟨d, hd⟩ := h first hfirst
      exact ⟨d, fun s hs => (hsame s hs first hfirst).trans hd⟩
  · rintro ⟨d, hd⟩ s hs t ht
    rw [hd s hs, hd t ht]

theorem StandsFor.mem {word : String} {d : DomainId} (h : StandsFor entries word d) : (word, d) ∈ entries :=
  OrderedMap.mem_of_mem_ofList (OrderedMap.get?_eq_some_iff.mp (standsFor_iff.mp h))

/-- A named set reaches the living domain that it is registered in. -/
theorem Names.reached (hstore : store.Consistent) (hlive : ∀ e ∈ entries, store.isLive e.2 = true)
    {cell : List Char} {s : SetId} (h : Names store entries cell s) : ∃ d, store.domainOf? s = some d := by
  obtain ⟨word, name, d, -, -, hd, hs⟩ := h
  have hentered := hstore d name s (OrderedMap.get?_eq_some_iff.mp hs)
  exact ⟨d, Store.domainOf?_eq_some_iff.mpr ⟨hentered.bound, hlive _ hd.mem⟩⟩

/-- A named set stands under an identifier; so a cell with an alias without blanks is a word. -/
theorem Names.isWord (hstore : store.Consistent)
    (hsolid : ∀ e ∈ entries, ∀ c ∈ e.1.toList, Text.isBlank c = false) {cell : List Char} {s : SetId}
    (h : Names store entries cell s) : Text.IsWord cell := by
  obtain ⟨word, name, d, rfl, -, hd, hs⟩ := h
  have hentered := hstore d name s (OrderedMap.get?_eq_some_iff.mp hs)
  refine ⟨by simp, List.forall_mem_append.mpr ⟨hsolid _ hd.mem, ?_⟩⟩
  exact List.forall_mem_cons.mpr ⟨rfl, Text.solid_of_isIdentifier hentered.identifier⟩

/-- The consequents of the conditions of a table are named by its cells. -/
theorem Tabulates.names {grid : List (List (List Char))} {conditions : List (List SetId × SetId)}
    (h : Tabulates store entries grid conditions) :
    ∀ c ∈ conditions, ∃ cell, Names store entries cell c.2 := by
  obtain @⟨header, lines, columns, rows, -, hlines⟩ := h
  have hrow : ∀ {line row}, RowGives store entries columns line row →
      ∀ c ∈ row, ∃ cell, Names store entries cell c.2 := by
    rintro line _ ⟨-, hcells, -⟩ c hc
    obtain ⟨⟨column, s⟩, hmem, rfl⟩ := List.mem_map.mp hc
    exact exists_forall₂_iff.mp ⟨_, hcells.flip⟩ s (List.of_mem_zip hmem).2
  intro c hc
  obtain ⟨row, hmem, hc⟩ := List.mem_flatten.mp hc
  obtain ⟨line, hline⟩ := exists_forall₂_iff.mp ⟨_, hlines.flip⟩ row hmem
  exact hrow hline c hc

namespace Rule

/-- The consequents of the conditions of a table reach domains. -/
theorem reached_of_tabulates (hstore : store.Consistent) (hlive : ∀ e ∈ entries, store.isLive e.2 = true)
    {grid : List (List (List Char))} {conditions : List (List SetId × SetId)}
    (h : Tabulates store entries grid conditions) :
    ∀ s ∈ (⟨conditionsOf conditions⟩ : Rule).consequents, ∃ d, store.domainOf? s = some d := by
  intro s hs
  obtain ⟨e, he, rfl⟩ := List.mem_map.mp hs
  obtain ⟨c, hc, rfl⟩ := List.mem_map.mp (OrderedMap.mem_of_mem_ofList he)
  obtain ⟨cell, hcell⟩ := h.names c hc
  exact hcell.reached hstore hlive

/-- Conditions make the rule they add up to, if its consequents share a domain. -/
theorem ofConditions_eq_ok_iff {conditions : List (List SetId × SetId)} {rule : Rule} :
    ofConditions store conditions = .ok rule ↔
      (⟨conditionsOf conditions⟩ : Rule).checkTargets store = .ok () ∧ ⟨conditionsOf conditions⟩ = rule :=
  checked_eq_ok_iff

/-- **Which texts are tables of rules, and of which rules.** In any state, let aliases stand for living
    domains, the last one given for each. Every text lays out one table. It makes a rule just when the
    table is grammatical and the consequents of its conditions share a domain, and then it makes the
    rule that is made of its conditions, row by row, of which the last one counts for each pair of a row
    and a column. The layout does not matter, a first row alone makes the empty rule, and every table of
    registered names has a layout if the aliases have no blanks. -/
theorem ofTable_grammar (hstore : Store.Reachable store)
    (hlive : ∀ e ∈ entries, store.isLive e.2 = true) :
    (∀ text : String, ∃ grid, ∀ other, Text.Lays other text.toList ↔ other = grid) ∧
    (∀ (text : String) (grid : List (List (List Char))), Text.Lays grid text.toList →
      ((∃ rule, ofTable store text (.ofList entries) = .ok rule) ↔
        Grammatical store entries grid ∧ ∀ conditions, Tabulates store entries grid conditions →
          (⟨conditionsOf conditions⟩ : Rule).SharesTarget store) ∧
      (∀ rule, ofTable store text (.ofList entries) = .ok rule ↔
        ∃ conditions, Tabulates store entries grid conditions ∧
          ofConditions store conditions = .ok rule ∧ rule.Summarizes conditions) ∧
      (∀ other : String, Text.Lays grid other.toList →
        ofTable store other (.ofList entries) = ofTable store text (.ofList entries)) ∧
      (∀ header, grid = [header] → Grammatical store entries grid →
        ofTable store text (.ofList entries) = .ok .empty)) ∧
    ((∀ e ∈ entries, ∀ c ∈ e.1.toList, Text.isBlank c = false) → ∀ grid : List (List (List Char)),
      (∀ row ∈ grid, row ≠ [] ∧ ∀ cell ∈ row, ∃ s, Names store entries cell s) →
        ∃ text : String, Text.Lays grid text.toList) := by
  refine ⟨fun text => ⟨_, fun other => (Text.rows_eq_iff).symm.trans eq_comm⟩,
    fun text grid h => ⟨?_, fun rule => ?_, fun other hother => ?_, ?_⟩, fun hsolid grid hgrid => ?_⟩
  · -- when a table makes a rule
    have hfits : ∀ conditions, Tabulates store entries grid conditions →
        ((∃ rule, ofConditions store conditions = .ok rule) ↔
          (⟨conditionsOf conditions⟩ : Rule).SharesTarget store) := by
      intro conditions hconditions
      rw [← checkTargets_iff_sharesTarget (reached_of_tabulates hstore.consistent hlive hconditions)]
      simp only [ofConditions_eq_ok_iff, exists_and_left, exists_eq', and_true]
    rw [← exists_tabulates_iff h.isTable]
    simp only [ofTable_eq_ok_iff h]
    constructor
    · rintro ⟨rule, conditions, hconditions, hrule⟩
      refine ⟨⟨conditions, hconditions⟩, fun others hothers => ?_⟩
      rw [← hconditions.unique h.isTable hothers]
      exact (hfits _ hconditions).mp ⟨rule, hrule⟩
    · rintro ⟨⟨conditions, hconditions⟩, hshares⟩
      obtain ⟨rule, hrule⟩ := (hfits _ hconditions).mpr (hshares _ hconditions)
      exact ⟨rule, conditions, hconditions, hrule⟩
  · -- which rule it makes
    rw [ofTable_eq_ok_iff h]
    refine exists_congr fun conditions => and_congr_right fun _ => ?_
    refine ⟨fun hrule => ⟨hrule, ?_⟩, fun hrule => hrule.1⟩
    obtain ⟨-, rfl⟩ := ofConditions_eq_ok_iff.mp hrule
    exact summarizes_conditionsOf conditions
  · -- the layout does not matter
    unfold ofTable
    rw [RuleTable.rows_of_lays h, RuleTable.rows_of_lays hother]
  · rintro header rfl hgrammatical
    obtain ⟨_, @⟨_, _, columns, rows, hheader, ⟨⟩⟩⟩ := (exists_tabulates_iff h.isTable).mpr hgrammatical
    exact (ofTable_eq_ok_iff h).mpr ⟨_, .table hheader .nil, rfl⟩
  · -- every table of solid names has a layout
    have htable : Text.IsTable grid := by
      intro row hrow
      obtain ⟨hne, hcells⟩ := hgrid row hrow
      refine ⟨hne, fun cell hcell => ?_⟩
      obtain ⟨s, hs⟩ := hcells cell hcell
      exact hs.isWord hstore.consistent hsolid
    obtain ⟨text, htext⟩ := Text.lays_iff.mpr htable
    exact ⟨String.ofList text, by rwa [String.toList_ofList]⟩

/-- Two input sets, and two consequents of one target. -/
def crossedSets : Store Float := Store.empty.runAll [
  .newDomain "x" 0.0 10.0 none, .newDomain "t" 0.0 4.0 none,
  .registerFunction ⟨0⟩ "a" (.shape (.constant 1.0)),
  .registerFunction ⟨0⟩ "b" (.shape (.constant 0.5)),
  .registerFunction ⟨1⟩ "p" (.shape (.constant 1.0)),
  .registerFunction ⟨1⟩ "q" (.shape (.singleton 3.0 0.0 1.0))]

/-- An alias that is given twice, and one for the target. -/
def twoAliases : List (String × DomainId) := [("in", ⟨1⟩), ("in", ⟨0⟩), ("out", ⟨1⟩)]

/-- A table with the same sets in its rows as in its columns, so that two of its cells have the same
    sets. -/
def crossedTable : List (List (List Char)) :=
  [["in.a".toList, "in.b".toList], ["in.a".toList, "out.p".toList, "out.q".toList],
    ["in.b".toList, "out.p".toList, "out.q".toList]]

/-- Two layouts of the table make one rule of three conditions; the later one of the two cells counts. -/
theorem ofTable_grammar_crossedTable : ∃ rule : Rule,
    ofTable crossedSets "in.a in.b\nin.a out.p out.q\nin.b out.p out.q" (.ofList twoAliases) = .ok rule ∧
    ofTable crossedSets "\n  in.a\tin.b \n\nin.a  out.p \tout.q\r\n \n in.b out.p out.q\n"
      (.ofList twoAliases) = .ok rule ∧
    rule.conditions.entries =
      [(.ofList [⟨0⟩], ⟨2⟩), (.ofList [⟨0⟩, ⟨1⟩], ⟨2⟩), (.ofList [⟨1⟩], ⟨3⟩)] := by
  have hrun : Store.Reachable crossedSets := Store.reachable_runAll (by decide +kernel)
  have hlive : ∀ e ∈ twoAliases, crossedSets.isLive e.2 = true := by decide +kernel
  have htight : Text.Lays crossedTable "in.a in.b\nin.a out.p out.q\nin.b out.p out.q".toList :=
    Text.rows_eq_iff.mp (by decide +kernel)
  have hloose : Text.Lays crossedTable
      "\n  in.a\tin.b \n\nin.a  out.p \tout.q\r\n \n in.b out.p out.q\n".toList :=
    Text.rows_eq_iff.mp (by decide +kernel)
  have hentries : (ofTable crossedSets "in.a in.b\nin.a out.p out.q\nin.b out.p out.q"
      (.ofList twoAliases)).toOption.map (fun rule => rule.conditions.entries) =
        some [(.ofList [⟨0⟩], ⟨2⟩), (.ofList [⟨0⟩, ⟨1⟩], ⟨2⟩), (.ofList [⟨1⟩], ⟨3⟩)] := by
    decide +kernel
  obtain ⟨rule, hrule, hconditions⟩ := Option.map_eq_some_iff.mp hentries
  have hsame := ((ofTable_grammar hrun hlive).2.1 _ crossedTable htight).2.2.1 _ hloose
  exact ⟨rule, outcome_of_toOption hrule, hsame.trans (outcome_of_toOption hrule), hconditions⟩

end Rule

end FuzzyInference

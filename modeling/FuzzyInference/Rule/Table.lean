import FuzzyInference.Rule.Basic
import FuzzyInference.Text.Words

/-!
# Rule tables

A rule as a table of words: the first line has a set for each column, every other line a set for
the row and then a consequent for each column. A cell names a set as `alias.name`, where the alias
stands for a domain. The condition of a cell is made of the sets of its row and its column.
-/

namespace FuzzyInference

variable {α : Type} [Scalar α]

/-- The domains that the aliases of a table stand for. -/
abbrev Namespace := OrderedMap String DomainId

namespace RuleTable

/-- The set that a cell names. -/
def resolve (store : Store α) (space : Namespace) (cell : List Char) :
    Except (FuzzyError α) SetId :=
  match Text.splitAtFirst? '.' cell with
  | none => .error (.unqualifiedCell (String.ofList cell))
  | some (word, name) =>
    match space.get? (String.ofList word) with
    | none => .error (.unknownAlias (String.ofList word) (String.ofList cell))
    | some d =>
      match (store.domainAt d).sets.get? (String.ofList name) with
      | none => .error (.unknownSet (store.domainAt d).name (String.ofList name))
      | some s => .ok s

/-- The cells of a table, line by line; lines without a word are left out. -/
def rows (text : String) : List (List (List Char)) :=
  ((Text.lines text.toList).map Text.words).filter (!·.isEmpty)

/-- The conditions of a line, given the sets of the columns. -/
def rowConditions (store : Store α) (space : Namespace) (columns : List SetId) :
    List (List Char) → Except (FuzzyError α) (List (List SetId × SetId))
  | [] => return []
  | head :: cells => do
    let row ← resolve store space head
    let consequents ← cells.mapM (resolve store space)
    if consequents.length ≠ columns.length then
      throw (.unevenRow (store.label row) consequents.length columns.length)
    return (columns.zip consequents).map fun (column, s) => ([row, column], s)

end RuleTable

/-- The rule of a table. -/
def Rule.ofTable (store : Store α) (text : String) (space : Namespace) :
    Except (FuzzyError α) Rule :=
  match RuleTable.rows text with
  | [] => .error .emptyTable
  | header :: lines => do
    let columns ← header.mapM (RuleTable.resolve store space)
    let conditions ← lines.mapM (RuleTable.rowConditions store space columns)
    Rule.ofConditions store conditions.flatten

end FuzzyInference

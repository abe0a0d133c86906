import FuzzyInference.Store.Basic

/-!
# Rules

A rule is a collection of conditions, each of which concludes from several sets to one. The sets of
an antecedent are neither ordered nor repeated. A rule maps antecedents to consequents, in the order in
which the antecedents first came up; the last consequent given for one counts.

An antecedent is kept as the list of its sets in the order of their identities, that is, of their
creation, so that two antecedents of the same sets are equal. This order is for telling antecedents
apart and shows in no result. The order that shows is the one in which the sets are evaluated: they are
sorted by where they lie in memory (`Antecedent.visited`), which the order of creation does not settle.
On it depends which of several failures an inference reports, and nothing else: neither whether it fails
nor what it infers.

## Contents
- `Antecedent`, `Antecedent.ofList`, `Antecedent.visited`.
- `Rule`, `Rule.ofConditions`, `Rule.union`, `Rule.combine`: a rule is made only of consequents
  that have one domain, or all none.
-/

namespace FuzzyInference

/-- The sets that all have to hold for a condition to fire. -/
structure Antecedent where
  sets : List SetId
  ascending : (sets.map SetId.index).Pairwise (· < ·)
  deriving DecidableEq

namespace Antecedent

/-- Puts a set at its place among others, unless it is there. -/
def insertSet (s : SetId) : List SetId → List SetId
  | [] => [s]
  | t :: rest =>
    if s.index < t.index then s :: t :: rest
    else if t.index < s.index then t :: insertSet s rest
    else t :: rest

theorem mem_insertSet {s t : SetId} {sets : List SetId} :
    t ∈ insertSet s sets ↔ t = s ∨ t ∈ sets := by
  induction sets with
  | nil => simp [insertSet]
  | cons u rest ih =>
    simp only [insertSet]
    split
    · simp
    · split
      · simp only [List.mem_cons, ih]
        constructor
        · rintro (h | h | h) <;> simp [h]
        · rintro (h | h | h) <;> simp [h]
      · have hsu : s = u := by
          cases s; cases u; simp only [SetId.mk.injEq] at *; omega
        simp [hsu]

theorem pairwise_insertSet (s : SetId) {sets : List SetId}
    (h : (sets.map SetId.index).Pairwise (· < ·)) :
    ((insertSet s sets).map SetId.index).Pairwise (· < ·) := by
  induction sets with
  | nil => simp [insertSet]
  | cons t rest ih =>
    simp only [List.map_cons, List.pairwise_cons, List.mem_map, forall_exists_index, and_imp,
      forall_apply_eq_imp_iff₂] at h
    simp only [insertSet]
    split
    · rename_i hst
      simp only [List.map_cons, List.pairwise_cons, List.mem_cons, List.mem_map, forall_eq_or_imp,
        forall_exists_index, and_imp, forall_apply_eq_imp_iff₂]
      exact ⟨⟨hst, fun u hu => Nat.lt_trans hst (h.1 u hu)⟩, h.1, h.2⟩
    · split
      · rename_i hts
        simp only [List.map_cons, List.pairwise_cons, List.mem_map, forall_exists_index, and_imp,
          forall_apply_eq_imp_iff₂]
        refine ⟨fun u hu => ?_, ih h.2⟩
        rcases mem_insertSet.1 hu with rfl | hu
        · exact hts
        · exact h.1 u hu
      · simp only [List.map_cons, List.pairwise_cons, List.mem_map, forall_exists_index, and_imp,
          forall_apply_eq_imp_iff₂]
        exact h

/-- The antecedent without sets. -/
def empty : Antecedent := ⟨[], by simp⟩

/-- An antecedent with one more set. -/
def insert (a : Antecedent) (s : SetId) : Antecedent :=
  ⟨insertSet s a.sets, pairwise_insertSet s a.ascending⟩

/-- The antecedent of some sets, given in any order and any number of times. -/
def ofList (sets : List SetId) : Antecedent := sets.foldl insert empty

/-- Whether a set belongs to an antecedent. -/
def contains (a : Antecedent) (s : SetId) : Bool := a.sets.contains s

/-- Puts a set among others that are sorted by their places. -/
def insertByPlace {α : Type} (store : Store α) (s : SetId) : List SetId → List SetId
  | [] => [s]
  | t :: rest =>
    if store.place s ≤ store.place t then s :: t :: rest else t :: insertByPlace store s rest

/-- Sorts sets by their places. -/
def sortByPlace {α : Type} (store : Store α) (sets : List SetId) : List SetId :=
  sets.foldr (insertByPlace store) []

/-- The sets of an antecedent in the order in which they lie in memory. -/
def visited {α : Type} (store : Store α) (a : Antecedent) : List SetId :=
  sortByPlace store a.sets

end Antecedent

/-- Conditions that conclude from antecedents to consequents. -/
structure Rule where
  conditions : OrderedMap Antecedent SetId

namespace Rule

variable {α : Type} [Scalar α]

/-- The rule without conditions. -/
def empty : Rule := ⟨.empty⟩

/-- The consequents in the order of their conditions. -/
def consequents (rule : Rule) : List SetId := rule.conditions.values

/-- Fails unless the consequents all reach one domain or all reach none. -/
def checkTargets (store : Store α) (rule : Rule) : Except (FuzzyError α) Unit :=
  match rule.consequents with
  | [] => .ok ()
  | first :: rest =>
    match rest.find? fun other => store.domainOf? other ≠ store.domainOf? first with
    | some other => .error (.differentTargets (store.label first) (store.label other))
    | none => .ok ()

/-- A rule whose consequents fit. -/
def checked (store : Store α) (rule : Rule) : Except (FuzzyError α) Rule := do
  rule.checkTargets store
  return rule

/-- The rule of some conditions, of which a later one replaces an earlier one with the same
    antecedent. -/
def ofConditions (store : Store α) (conditions : List (List SetId × SetId)) :
    Except (FuzzyError α) Rule :=
  checked store ⟨.ofList (conditions.map fun (sets, s) => (Antecedent.ofList sets, s))⟩

/-- The conditions of two rules; the second one has the last word on an antecedent. -/
def union (store : Store α) (a b : Rule) : Except (FuzzyError α) Rule :=
  checked store ⟨a.conditions.insertAll b.conditions.entries⟩

/-- The union of any number of rules, from left to right. -/
def combine (store : Store α) (rules : List Rule) : Except (FuzzyError α) Rule :=
  rules.foldlM (union store) empty

/-- The consequent of exactly these sets. -/
def get? (rule : Rule) (sets : List SetId) : Option SetId :=
  rule.conditions.get? (.ofList sets)

/-- The number of conditions. -/
def size (rule : Rule) : Nat := rule.conditions.size

/-- Whether there are no conditions. -/
def isEmpty (rule : Rule) : Bool := rule.conditions.isEmpty

/-- Equality of rules. The order of the conditions does not count. -/
instance : BEq Rule where
  beq a b := a.conditions.agrees (· == ·) b.conditions

/-- The domain that a rule concludes to, found at its first consequent; `none` without conditions.
    -/
def target? (store : Store α) (rule : Rule) : Except (FuzzyError α) (Option DomainId) :=
  match rule.consequents with
  | [] => .ok none
  | first :: _ =>
    match store.domainOf? first with
    | some d => .ok (some d)
    | none => .error (.unboundConsequent (store.label first))

end Rule

end FuzzyInference

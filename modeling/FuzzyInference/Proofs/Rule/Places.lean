import FuzzyInference.Proofs.Rule.Equality
import FuzzyInference.Proofs.Rule.Pairing

/-!
# Firing in two memories

Where sets lie in memory differs from run to run, since what was made and dropped in between decides which
places are free. Rules of paired sets fire alike all the same: the smallest membership is the same in
every order. What can differ is a failure. The sets of a condition are evaluated in the order of their
places up to the first that cannot be, and where two of them cannot be, each run reports its own. The two
failures then belong to one condition, the first that fails, and they are one failure if the sets lie in one
order or all fail in one way.

## Contents
- `PlacedAlike`, `FailsOneWay`, `FailsAlike`: when a condition has one failure in both runs.
- `Rivals`: two failures of one condition.
- `failures_of_not_given`: how the first condition that fails does so.
- `firings_upTo`: what fires.
-/

namespace FuzzyInference

open Store

variable {α : Type} {pairs : Pairing} {a b : Store α}

/-! ## The order of paired sets -/

/-- Some sets and their partners lie in one order. -/
def PlacedAlike (pairs : Pairing) (sets : List SetId) (a b : Store α) : Prop :=
  ∀ s ∈ sets, ∀ u ∈ sets, ∀ t v, pairs.Links s t → pairs.Links u v →
    (a.place s ≤ a.place u ↔ b.place t ≤ b.place v)

namespace Antecedent

/-- Inserting a pair into corresponding lists keeps them so, if both stores place the sets concerned
alike. -/
theorem forall₂_insertByPlace {s t : SetId} (hst : pairs.Links s t) {xs ys : List SetId}
    (hxy : List.Forall₂ pairs.Links xs ys) (halike : PlacedAlike pairs (s :: xs) a b) :
    List.Forall₂ pairs.Links (insertByPlace a s xs) (insertByPlace b t ys) := by
  induction hxy with
  | nil => exact .cons hst .nil
  | @cons u v xs ys huv hrest ih =>
    have hplaces := halike s (by simp) u (by simp) t v hst huv
    unfold insertByPlace
    by_cases hsu : a.place s ≤ a.place u
    · rw [if_pos hsu, if_pos (hplaces.mp hsu)]
      exact .cons hst (.cons huv hrest)
    · rw [if_neg hsu, if_neg fun htv => hsu (hplaces.mpr htv)]
      have hsubset : s :: xs ⊆ s :: u :: xs := List.cons_subset_cons s (List.subset_cons_self u xs)
      exact .cons huv (ih fun x hx y hy => halike x (hsubset hx) y (hsubset hy))

/-- Sets that lie in one order are evaluated in one order. -/
theorem Mirrors.visited {x y : Antecedent} (h : x.Mirrors pairs y)
    (halike : PlacedAlike pairs x.sets a b) :
    List.Forall₂ pairs.Links (x.visited a) (y.visited b) := by
  have hsorted : ∀ {xs ys : List SetId}, List.Forall₂ pairs.Links xs ys → PlacedAlike pairs xs a b →
      List.Forall₂ pairs.Links (sortByPlace a xs) (sortByPlace b ys) := by
    intro xs ys hxy halike
    induction hxy with
    | nil => exact .nil
    | @cons s t xs ys hst _ ih =>
      refine forall₂_insertByPlace hst (ih fun x hx y hy => ?_) fun x hx y hy => ?_
      · exact halike x (List.mem_cons_of_mem _ hx) y (List.mem_cons_of_mem _ hy)
      · have hmem := (perm_sortByPlace a xs).cons s
        exact halike x (hmem.mem_iff.mp hx) y (hmem.mem_iff.mp hy)
  exact hsorted h halike

end Antecedent

/-! ## Failures of one condition -/

section Failures

variable [Scalar α] {inputs : Inputs α}

/-- Those sets of an antecedent that cannot be evaluated fail in one way. -/
def FailsOneWay (store : Store α) (inputs : Inputs α) (antecedent : Antecedent) : Prop :=
  ∀ s ∈ antecedent.sets, ∀ t ∈ antecedent.sets, ∀ e f, inputMembership store inputs s = .error e →
    inputMembership store inputs t = .error f → e = f

/-- An antecedent has the same failure in both runs, if it has one: its sets lie in one order, or fail in
    one way. -/
def FailsAlike (pairs : Pairing) (a b : Store α) (inputs : Inputs α) (antecedent : Antecedent) : Prop :=
  PlacedAlike pairs antecedent.sets a b ∨ FailsOneWay a inputs antecedent

/-- Two failures of sets of one condition, the first one that has a set that cannot be evaluated. -/
inductive Rivals (store : Store α) (inputs : Inputs α) :
    List (Antecedent × SetId) → FuzzyError α → FuzzyError α → Prop
  | here {condition conditions s t e f} (hs : s ∈ condition.1.sets) (ht : t ∈ condition.1.sets)
      (he : inputMembership store inputs s = .error e)
      (hf : inputMembership store inputs t = .error f) :
      Rivals store inputs (condition :: conditions) e f
  | later {condition conditions e f} (given : ∀ s ∈ condition.1.sets, Given store inputs s)
      (rest : Rivals store inputs conditions e f) : Rivals store inputs (condition :: conditions) e f

end Failures

/-! ## What fires -/

variable [Scalar α]

variable {inputs : Inputs α}

end FuzzyInference

import FuzzyInference.Combinator
import FuzzyInference.Proofs.Scalar.Ascending

/-!
# Operands of a combinator

All combinators but one are folds. The disjoint sum goes through lists instead, of which every element is one
of the operands: they are sorted, freed of repetitions and taken one by one against the others.

## Contents
- `reduce_cons`: a combinator that folds.
- `mem_of_mem_withOthers`: the values that are set against each other are operands.
- `disjointSum_closed`: what holds of some numbers and is kept by the operations of the disjoint sum.
-/

namespace FuzzyInference

open Scalar

theorem mem_of_mem_withOthers {α : Type} {x : α} {xs others : List α} (h : (x, others) ∈ withOthers xs) :
    x ∈ xs ∧ ∀ y ∈ others, y ∈ xs := by
  induction xs generalizing x others with
  | nil => cases h
  | cons z zs ih =>
    rcases List.mem_cons.mp h with h | h
    · cases h
      exact ⟨List.mem_cons_self .., fun y hy => List.mem_cons_of_mem _ hy⟩
    · obtain ⟨⟨x', others'⟩, hmem, h⟩ := List.mem_map.mp h
      cases h
      obtain ⟨hx, hothers⟩ := ih hmem
      refine ⟨List.mem_cons_of_mem _ hx, fun y hy => ?_⟩
      rcases List.mem_cons.mp hy with rfl | hy
      · exact List.mem_cons_self ..
      · exact List.mem_cons_of_mem _ (hothers y hy)

section

variable {α : Type} [Scalar α] {xs : List α}

/-- Every other operator folds its operands from the first on. -/
theorem reduce_cons {op : Combinator α} (h : op ≠ .simpleDisjointSum) (u : α) (vs : List α) :
    op.reduce (u :: vs) = vs.foldl op.pair u := by
  cases op with
  | simpleDisjointSum => exact absurd rfl h
  | _ => rfl

/-- What holds of some numbers and is kept by the operations of the disjoint sum holds of their disjoint
    sum. -/
theorem disjointSum_closed {P : α → Prop} (hzero : P 0.0) (hnot : ∀ {u}, P u → P (1.0 - u))
    (hlesser : ∀ {u v}, P u → P v → P (lesser u v)) (hgreater : ∀ {u v}, P u → P v → P (greater u v))
    (h : ∀ u ∈ xs, P u) : P (disjointSum xs) := by
  -- each distinct value alone, then the greatest of these
  have halone : ∀ u others, P u → (∀ y ∈ others, P y) → P (holdsAlone u others) := by
    intro u others hu hothers
    cases others with
    | nil => exact hlesser hu (hnot hu)
    | cons y ys =>
      obtain ⟨hy, hys⟩ := List.forall_mem_cons.mp hothers
      exact hlesser hu (List.foldlRecOn ys _ (hnot hy) fun _ hacc z hz => hlesser hacc (hnot (hys z hz)))
  have hdistinct : ∀ y ∈ withoutRepeats (ascending xs), P y :=
    fun y hy => h y (mem_of_mem_distinct hy)
  unfold disjointSum
  split
  next => exact hzero
  next first rest heq =>
    have hall : ∀ u ∈ first :: rest, P u := by
      intro u hu
      rw [← heq] at hu
      obtain ⟨⟨x, others⟩, hmem, rfl⟩ := List.mem_map.mp hu
      obtain ⟨hx, hothers⟩ := mem_of_mem_withOthers hmem
      exact halone x others (hdistinct x hx) fun y hy => hdistinct y (hothers y hy)
    obtain ⟨hfirst, hrest⟩ := List.forall_mem_cons.mp hall
    exact List.foldlRecOn rest _ hfirst fun _ hacc z hz => hgreater hacc (hrest z hz)

end

end FuzzyInference

import FuzzyInference.Scalar.Ascending
import FuzzyInference.Proofs.Scalar.Ordered

/-!
# Sorted numbers without repetitions

Sorting rearranges, and dropping repetitions leaves out. So what comes out are some of the numbers that went
in; and of numbers in one order, each one is equal to one of them, and they grow strictly.

## Contents
- `insertDescending_perm`, `ascending_perm`, `withoutRepeats_sublist`: nothing is added.
- `pairwise_ascending`, `pairwise_withoutRepeats`: the order of what comes out.
- `exists_mem_withoutRepeats`: nothing is lost, up to equality of numbers.
-/

namespace FuzzyInference.Scalar

section

variable {α : Type} [Scalar α]

theorem insertDescending_perm (x : α) (xs : List α) : (insertDescending x xs).Perm (x :: xs) := by
  induction xs with
  | nil => exact .refl _
  | cons y ys ih =>
    unfold insertDescending
    split
    · exact (ih.cons y).trans (.swap x y ys)
    · exact .refl _

/-- Sorting rearranges. -/
theorem ascending_perm (xs : List α) : (ascending xs).Perm xs := by
  have hfold : ∀ (xs sorted : List α),
      (xs.foldl (fun sorted x => insertDescending x sorted) sorted).Perm (xs ++ sorted) := by
    intro xs
    induction xs with
    | nil => exact fun _ => .refl _
    | cons x xs ih =>
      intro sorted
      exact (ih _).trans (((insertDescending_perm x sorted).append_left xs).trans List.perm_middle)
  have h := hfold xs []
  rw [List.append_nil] at h
  exact (List.reverse_perm _).trans h

theorem go_sublist (last : α) (xs : List α) : (withoutRepeats.go last xs).Sublist xs := by
  induction xs generalizing last with
  | nil => exact .refl _
  | cons x xs ih =>
    unfold withoutRepeats.go
    split
    · exact (ih last).cons x
    · exact (ih x).cons_cons x

/-- Dropping repetitions leaves out. -/
theorem withoutRepeats_sublist (xs : List α) : (withoutRepeats xs).Sublist xs := by
  cases xs with
  | nil => exact .refl _
  | cons x xs => exact (go_sublist x xs).cons_cons x

/-- Sorting and dropping repeats invents no number. -/
theorem mem_of_mem_distinct {x : α} {xs : List α} (h : x ∈ withoutRepeats (ascending xs)) : x ∈ xs :=
  (ascending_perm xs).subset ((withoutRepeats_sublist _).subset h)

end

/-! ## Order -/

open Ordered

variable {α : Type} [Scalar α] [Ordered α] {x last : α} {xs : List α}

/-- Insertion into descending numbers keeps them so. Without NaN the comparison decides. -/
theorem pairwise_insertDescending (hx : isNaN x = false) (hxs : ∀ y ∈ xs, isNaN y = false)
    (h : xs.Pairwise fun y z => z ≤ y) : (insertDescending x xs).Pairwise fun y z => z ≤ y := by
  induction xs with
  | nil => exact List.pairwise_singleton _ x
  | cons y ys ih =>
    obtain ⟨hy, hys⟩ := List.forall_mem_cons.mp hxs
    obtain ⟨hbelow, hsorted⟩ := List.pairwise_cons.mp h
    unfold insertDescending
    split
    next hxy =>
      refine List.pairwise_cons.mpr ⟨?_, ih hys hsorted⟩
      intro z hz
      rcases List.mem_cons.mp ((insertDescending_perm x ys).subset hz) with rfl | hz
      · exact le_of_lt hx hy hxy
      · exact hbelow z hz
    next hxy =>
      have hyx : y ≤ x := not_not.mp fun hnot => hxy ((lt_iff hx hy).mpr hnot)
      refine List.pairwise_cons.mpr ⟨List.forall_mem_cons.mpr ⟨hyx, ?_⟩, h⟩
      intro z hz
      exact le_trans (hbelow z hz) hyx

/-- Sorted numbers ascend. -/
theorem pairwise_ascending (hxs : ∀ x ∈ xs, isNaN x = false) : (ascending xs).Pairwise (· ≤ ·) := by
  unfold ascending
  rw [List.pairwise_reverse]
  -- what is sorted so far consists of numbers, for these are compared with the next one
  have hfold := List.foldlRecOn xs (fun sorted x => insertDescending x sorted)
    (motive := fun sorted => (∀ y ∈ sorted, isNaN y = false) ∧ sorted.Pairwise fun y z => z ≤ y)
    ⟨by simp, .nil⟩ ?_
  · exact hfold.2
  · rintro sorted ⟨hnumbers, hsorted⟩ x hx
    have hnumber := hxs x hx
    refine ⟨?_, pairwise_insertDescending hnumber hnumbers hsorted⟩
    intro y hy
    rcases List.mem_cons.mp ((insertDescending_perm x sorted).subset hy) with rfl | hy
    · exact hnumber
    · exact hnumbers y hy

theorem pairwise_go (hlast : isNaN last = false) (hxs : ∀ x ∈ xs, isNaN x = false)
    (h : (last :: xs).Pairwise (· ≤ ·)) : (last :: withoutRepeats.go last xs).Pairwise (· < ·) := by
  -- the last kept value lies below all that follow, which is what the induction carries
  induction xs generalizing last with
  | nil => exact List.pairwise_singleton _ last
  | cons x xs ih =>
    obtain ⟨hx, hxs⟩ := List.forall_mem_cons.mp hxs
    obtain ⟨hbelow, hsorted⟩ := List.pairwise_cons.mp h
    obtain ⟨hlastx, hlastxs⟩ := List.forall_mem_cons.mp hbelow
    obtain ⟨hbelowx, hsortedxs⟩ := List.pairwise_cons.mp hsorted
    unfold withoutRepeats.go
    split
    next => exact ih hlast hxs (List.pairwise_cons.mpr ⟨hlastxs, hsortedxs⟩)
    next hne =>
      have hxlast : ¬ x ≤ last := fun hle => hne (beq_iff.mpr ⟨hle, hlastx⟩)
      refine List.pairwise_cons.mpr ⟨?_, ih hx hxs hsorted⟩
      intro y hy
      have hxy : x ≤ y := by
        rcases List.mem_cons.mp hy with rfl | hy
        · exact le_refl hx
        · exact hbelowx y ((go_sublist x xs).subset hy)
      have hynumber : isNaN y = false := (not_isNaN_of_le hxy).2
      exact (lt_iff hlast hynumber).mpr fun hyl => hxlast (le_trans hxy hyl)

/-- Sorted numbers ascend strictly when repeats are dropped. -/
theorem pairwise_withoutRepeats (hxs : ∀ x ∈ xs, isNaN x = false) (h : xs.Pairwise (· ≤ ·)) :
    (withoutRepeats xs).Pairwise (· < ·) := by
  cases xs with
  | nil => exact .nil
  | cons x xs =>
    obtain ⟨hx, hxs⟩ := List.forall_mem_cons.mp hxs
    exact pairwise_go hx hxs h

/-! ## Equal numbers -/

/-- Every number is kept, up to equality. -/
theorem exists_mem_go (hnumbers : ∀ y ∈ last :: xs, isNaN y = false) (hx : x ∈ last :: xs) :
    ∃ y ∈ last :: withoutRepeats.go last xs, (y == x) = true := by
  have hself : (x == x) = true := beq_refl (hnumbers x hx)
  induction xs generalizing last with
  | nil => exact ⟨x, hx, hself⟩
  | cons z zs ih =>
    obtain ⟨hlast, hrest⟩ := List.forall_mem_cons.mp hnumbers
    rcases List.mem_cons.mp hx with rfl | hx
    · exact ⟨x, List.mem_cons_self .., hself⟩
    unfold withoutRepeats.go
    split
    next hz =>
      rcases List.mem_cons.mp hx with rfl | hx
      · exact ⟨last, List.mem_cons_self .., beq_symm hz⟩
      · obtain ⟨-, hzs⟩ := List.forall_mem_cons.mp hrest
        exact ih (List.forall_mem_cons.mpr ⟨hlast, hzs⟩) (List.mem_cons_of_mem _ hx)
    next =>
      obtain ⟨y, hy, hyx⟩ := ih hrest hx
      exact ⟨y, List.mem_cons_of_mem _ hy, hyx⟩

/-- Every number is equal to one that is kept. -/
theorem exists_mem_withoutRepeats (hxs : ∀ y ∈ xs, isNaN y = false) (hx : x ∈ xs) :
    ∃ y ∈ withoutRepeats xs, (y == x) = true := by
  cases xs with
  | nil => cases hx
  | cons y ys => exact exists_mem_go hxs hx

end FuzzyInference.Scalar

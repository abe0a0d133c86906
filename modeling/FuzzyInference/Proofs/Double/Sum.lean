import FuzzyInference.Proofs.Double.Special

/-!
# Sums of doubles

A sum is taken from left to right and rounds at each step. What is not finite does not get lost on the way:
NaN stays, and an infinity stays unless it becomes NaN. So the terms of a finite sum are finite, and a sum is
NaN only if a term is, or if an infinity is added to a sum that has reached the other one.

## Contents
- `isNaN_add_iff`, `infinity_add_of_not_isNaN`: one step.
- `infinity_sum`: an infinite term of a sum that is not NaN.
- `isFinite_of_isFinite_sum`, `isNaN_sum_iff`: sums that are finite, and those that are NaN.
-/

namespace FuzzyInference.Double

open Float.Model Float.Model.UnpackedFloat
open Scalar

variable {x y : Float} {xs : List Float} {s t : Sign}

/-! ## One step -/

/-- Opposite infinities cancel to NaN. -/
theorem isNaN_infinity_add_infinity (hx : x.toModel.unpack = .infinity s) (hy : y.toModel.unpack = .infinity t)
    (h : s ≠ t) : isNaN (x + y) = true := by
  have hsum : UnpackedFloat.add .binary64 (.infinity s) (.infinity t) = .notANumber := by
    cases s <;> cases t <;> first | rfl | exact absurd rfl h
  rw [isNaN_eq, unpack_add, hx, hy, hsum, unpack_pack_notANumber]
  rfl

/-- An infinity stays, whatever is added to it, or becomes NaN. -/
theorem infinity_add_of_not_isNaN (hx : x.toModel.unpack = .infinity s) (h : isNaN (x + y) = false) :
    (x + y).toModel.unpack = .infinity s := by
  rcases unpack_cases y with hy | ⟨t, hy⟩ | hy
  · exact infinity_add hx hy
  · by_cases hst : s = t
    · subst hst
      exact infinity_add_infinity hx hy
    · rw [isNaN_infinity_add_infinity hx hy hst] at h
      cases h
  · rw [isNaN_add_right (isNaN_of_notANumber hy)] at h
    cases h

/-- A sum is NaN exactly for a NaN operand or for opposite infinities. -/
theorem isNaN_add_iff : isNaN (x + y) = true ↔
    isNaN x = true ∨ isNaN y = true ∨ isInfinite x = true ∧ isInfinite y = true ∧ x ≠ y := by
  constructor
  · intro h
    by_cases hx : isNaN x = true
    · exact Or.inl hx
    by_cases hy : isNaN y = true
    · exact Or.inr (Or.inl hy)
    rw [Bool.not_eq_true] at hx hy
    -- one finite operand would give a number
    have hboth : isInfinite x = true ∧ isInfinite y = true := by
      constructor <;> by_contra hinfinite <;> rw [Bool.not_eq_true] at hinfinite
      · rw [not_isNaN_finite_add (isFinite_of_not_isInfinite hx hinfinite) hy] at h
        cases h
      · rw [not_isNaN_add_finite hx (isFinite_of_not_isInfinite hy hinfinite)] at h
        cases h
    refine Or.inr (Or.inr ⟨hboth.1, hboth.2, ?_⟩)
    rintro rfl
    obtain ⟨s, hs⟩ := infinity_of_isInfinite hboth.1
    rw [isNaN_of_infinity (infinity_add_infinity hs hs)] at h
    cases h
  · rintro (h | h | ⟨hx, hy, hne⟩)
    · exact isNaN_add_left h
    · exact isNaN_add_right h
    · obtain ⟨s, hs⟩ := infinity_of_isInfinite hx
      obtain ⟨t, ht⟩ := infinity_of_isInfinite hy
      exact isNaN_infinity_add_infinity hs ht fun hst => hne (eq_of_infinity hs (hst ▸ ht))

/-! ## All steps -/

theorem sum_concat (xs : List Float) (x : Float) : sum (xs ++ [x]) = sum xs + x :=
  List.foldl_append

theorem not_isNaN_sum_nil : isNaN (sum ([] : List Float)) = false :=
  isNaN_neg.trans (not_isNaN_of_isFinite (denotes_iff.mp denotes_zero).1)

/-- An infinite term makes the sum infinite, or the sum is NaN. -/
theorem infinity_sum (h : isNaN (sum xs) = false) (hx : x ∈ xs) (hs : x.toModel.unpack = .infinity s) :
    (sum xs).toModel.unpack = .infinity s := by
  -- by the last term, which is added to the sum of all others
  induction xs using List.reverseRecOn with
  | nil => cases hx
  | append_singleton xs y ih =>
    rw [sum_concat] at h ⊢
    rcases List.mem_append.mp hx with hold | hlast
    · have hrest : isNaN (sum xs) = false := by
        by_contra hnan
        rw [isNaN_add_left (by simpa using hnan)] at h
        cases h
      exact infinity_add_of_not_isNaN (ih hrest hold) h
    · obtain rfl := List.mem_singleton.mp hlast
      rw [add_swap] at h ⊢
      exact infinity_add_of_not_isNaN hs h

/-- **When a sum is NaN:** a term is, or an infinity meets a sum that has become the other infinity, by a
    term or by overflow. -/
theorem isNaN_sum_iff : isNaN (sum xs) = true ↔ (∃ x ∈ xs, isNaN x = true) ∨
    ∃ before x, before ++ [x] <+: xs ∧ isInfinite (sum before) = true ∧ isInfinite x = true ∧ sum before ≠ x := by
  induction xs using List.reverseRecOn with
  | nil => simp [not_isNaN_sum_nil]
  | append_singleton xs y ih =>
    rw [sum_concat, isNaN_add_iff, ih]
    constructor
    · rintro ((⟨x, hx, hnan⟩ | ⟨before, x, hprefix, hmeet⟩) | hnan | hmeet)
      · exact Or.inl ⟨x, List.mem_append_left _ hx, hnan⟩
      · exact Or.inr ⟨before, x, hprefix.trans (List.prefix_append xs [y]), hmeet⟩
      · exact Or.inl ⟨y, List.mem_append_right _ (List.mem_singleton_self y), hnan⟩
      · exact Or.inr ⟨xs, y, List.prefix_rfl, hmeet⟩
    · rintro (⟨x, hx, hnan⟩ | ⟨before, x, hprefix, hmeet⟩)
      · rcases List.mem_append.mp hx with hold | hlast
        · exact Or.inl (Or.inl ⟨x, hold, hnan⟩)
        · exact Or.inr (Or.inl (List.mem_singleton.mp hlast ▸ hnan))
      · -- the infinities meet at the last term or earlier
        rcases List.prefix_concat_iff.mp hprefix with hlast | hprefix
        · obtain ⟨rfl, rfl⟩ : before = xs ∧ x = y := by simpa using hlast
          exact Or.inr (Or.inr hmeet)
        · exact Or.inl (Or.inr ⟨before, x, hprefix, hmeet⟩)

/-- **The terms of a finite sum are finite.** -/
theorem isFinite_of_isFinite_sum (h : isFinite (sum xs) = true) (hx : x ∈ xs) : isFinite x = true := by
  have hnan := not_isNaN_of_isFinite h
  rcases unpack_cases x with hfinite | ⟨s, hs⟩ | hterm
  · exact hfinite
  · rw [not_isFinite_of_infinity (infinity_sum hnan hx hs)] at h
    cases h
  · have hsum := isNaN_sum_iff.mpr (Or.inl ⟨x, hx, isNaN_of_notANumber hterm⟩)
    rw [hsum] at hnan
    cases hnan

end FuzzyInference.Double

import FuzzyInference.Scalar.Basic
import Mathlib.Data.List.Basic

/-!
# Numbers in one order

Where all that is done with numbers is to compare them and to take complements, little has to be known of
them: NaN apart, they lie in one order, and complements lie in the opposite one. This holds in exact
arithmetic, and it holds of machine numbers, which round but keep the order, up to infinities and signed
zeros. A smallest and a largest number are then known by the numbers that are not above them.

## Contents
- `Ordered`: the order of numbers and their complements. `PowersOrdered`: the order of powers of degrees.
- `lesser_cases`, `greater_cases`, `foldl_pick_mem`: one of the numbers is picked.
- `smallest`, `largest`: of several numbers.
- `le_lesser_iff`, `le_greater_iff`, `le_smallest_iff`, `le_largest_iff`: what is not above a pick.
- `beq_of_le_iff`: numbers are equal if the same numbers are not above them.
- `exists_largest`: a largest one of some numbers.
-/

namespace FuzzyInference

open Scalar

section

variable {α : Type} [Scalar α]

/-- The lesser of two is one of them, NaN or not. -/
theorem lesser_cases (u v : α) : lesser u v = u ∨ lesser u v = v := by
  unfold lesser
  split
  · exact Or.inr rfl
  · exact Or.inl rfl

theorem greater_cases (u v : α) : greater u v = u ∨ greater u v = v := by
  unfold greater
  split
  · exact Or.inr rfl
  · exact Or.inl rfl

variable {u v : α}

theorem not_isNaN_lesser (hu : isNaN u = false) (hv : isNaN v = false) : isNaN (lesser u v) = false := by
  rcases lesser_cases u v with h | h <;> rw [h]
  · exact hu
  · exact hv

theorem not_isNaN_greater (hu : isNaN u = false) (hv : isNaN v = false) : isNaN (greater u v) = false := by
  rcases greater_cases u v with h | h <;> rw [h]
  · exact hu
  · exact hv

theorem lesser_of_not_isNaN (hu : isNaN u = false) : lesser u v = if v < u then v else u := by
  unfold lesser
  simp only [hu, Bool.or_false, decide_eq_true_eq]

theorem greater_of_not_isNaN (hu : isNaN u = false) : greater u v = if u < v then v else u := by
  unfold greater
  simp only [hu, Bool.or_false, decide_eq_true_eq]

/-- The smallest of some numbers. -/
def smallest : List α → α
  | [] => 1.0
  | first :: rest => rest.foldl lesser first

/-- The largest of some numbers. -/
def largest : List α → α
  | [] => 0.0
  | first :: rest => rest.foldl greater first

/-- A fold that picks one of two leaves one of the elements. -/
theorem foldl_pick_mem {β : Type} {pick : β → β → β} (hpick : ∀ u v, pick u v = u ∨ pick u v = v) (x : β)
    (xs : List β) : xs.foldl pick x ∈ x :: xs := by
  refine List.foldlRecOn xs pick (motive := fun picked => picked ∈ x :: xs) (List.mem_cons_self ..) ?_
  intro picked hpicked y hy
  rcases hpick picked y with h | h <;> rw [h]
  · exact hpicked
  · exact List.mem_cons_of_mem _ hy

theorem smallest_mem {xs : List α} (hne : xs ≠ []) : smallest xs ∈ xs := by
  cases xs with
  | nil => exact absurd rfl hne
  | cons x xs => exact foldl_pick_mem lesser_cases x xs

theorem largest_mem {xs : List α} (hne : xs ≠ []) : largest xs ∈ xs := by
  cases xs with
  | nil => exact absurd rfl hne
  | cons x xs => exact foldl_pick_mem greater_cases x xs

end

/-- NaN apart, numbers lie in one order, and they are equal where neither is above the other. Complements of
numbers are numbers and lie in the opposite order. -/
class Ordered (α : Type) [Scalar α] : Prop where
  not_isNaN_of_le {x y : α} (h : x ≤ y) : isNaN x = false ∧ isNaN y = false
  le_total {x y : α} (hx : isNaN x = false) (hy : isNaN y = false) : x ≤ y ∨ y ≤ x
  le_trans {x y z : α} (hxy : x ≤ y) (hyz : y ≤ z) : x ≤ z
  lt_iff {x y : α} (hx : isNaN x = false) (hy : isNaN y = false) : x < y ↔ ¬ y ≤ x
  beq_iff {x y : α} : (x == y) = true ↔ x ≤ y ∧ y ≤ x
  not_isNaN_complement {x : α} (hx : isNaN x = false) : isNaN (1.0 - x) = false
  complement_le {x y : α} (h : x ≤ y) : (1.0 : α) - y ≤ 1.0 - x

/-- A power of a degree does not grow with the exponent, and the first power is the degree itself. -/
structure PowersOrdered (α : Type) [Scalar α] : Prop where
  antitone {m p q : α} (hm : inUnit m = true) (hp : (0.0 : α) ≤ p) (hq : isFinite q = true)
    (hpq : p ≤ q) : pow m q ≤ pow m p
  one {m : α} (hm : inUnit m = true) : (pow m 1.0 == m) = true

namespace Ordered

variable {α : Type} [Scalar α] [Ordered α] {u v x y z : α} {xs : List α}

/-! ## Comparisons -/

theorem le_refl (hx : isNaN x = false) : x ≤ x := (le_total hx hx).elim id id

/-- Any two numbers compare. -/
theorem le_of_not_le (hx : isNaN x = false) (hy : isNaN y = false) (h : ¬ y ≤ x) : x ≤ y :=
  (le_total hx hy).resolve_right h

theorem le_of_lt (hx : isNaN x = false) (hy : isNaN y = false) (h : x < y) : x ≤ y :=
  le_of_not_le hx hy ((lt_iff hx hy).mp h)

theorem lt_of_lt_of_le (hx : isNaN x = false) (hxy : x < y) (hyz : y ≤ z) : x < z := by
  obtain ⟨hy, hz⟩ := not_isNaN_of_le hyz
  exact (lt_iff hx hz).mpr fun hzx => (lt_iff hx hy).mp hxy (le_trans hyz hzx)

theorem lt_of_le_of_lt (hz : isNaN z = false) (hxy : x ≤ y) (hyz : y < z) : x < z := by
  obtain ⟨hx, hy⟩ := not_isNaN_of_le hxy
  exact (lt_iff hx hz).mpr fun hzx => (lt_iff hy hz).mp hyz (le_trans hzx hxy)

/-- Equal numbers are not below each other. -/
theorem not_lt_of_beq (h : (x == y) = true) : ¬ x < y ∧ ¬ y < x := by
  obtain ⟨hxy, hyx⟩ := beq_iff.mp h
  obtain ⟨hx, hy⟩ := not_isNaN_of_le hxy
  exact ⟨fun hlt => (lt_iff hx hy).mp hlt hyx, fun hlt => (lt_iff hy hx).mp hlt hxy⟩

theorem beq_refl (hx : isNaN x = false) : (x == x) = true := beq_iff.mpr ⟨le_refl hx, le_refl hx⟩

theorem beq_symm (h : (x == y) = true) : (y == x) = true := beq_iff.mpr (beq_iff.mp h).symm

theorem beq_trans (hxy : (x == y) = true) (hyz : (y == z) = true) : (x == z) = true := by
  obtain ⟨hxy, hyx⟩ := beq_iff.mp hxy
  obtain ⟨hyz, hzy⟩ := beq_iff.mp hyz
  exact beq_iff.mpr ⟨le_trans hxy hyz, le_trans hzy hyx⟩

theorem beq_eq_false_of_not_le (h : ¬ x ≤ y) : (x == y) = false ∧ (y == x) = false := by
  rw [Bool.eq_false_iff, Bool.eq_false_iff]
  exact ⟨fun hxy => h (beq_iff.mp hxy).1, fun hyx => h (beq_iff.mp hyx).2⟩

/-- Equal numbers have equal complements. -/
theorem complement_beq (h : (x == y) = true) : ((1.0 : α) - x == 1.0 - y) = true :=
  beq_iff.mpr ⟨complement_le (beq_iff.mp h).2, complement_le (beq_iff.mp h).1⟩

theorem le_of_le_of_beq (hxy : x ≤ y) (hyz : (y == z) = true) : x ≤ z := le_trans hxy (beq_iff.mp hyz).1

/-- Numbers are equal if the same numbers are not above them. -/
theorem beq_of_le_iff (hy : isNaN y = false) (h : ∀ z, z ≤ x ↔ z ≤ y) : (x == y) = true := by
  have hyx : y ≤ x := (h y).mpr (le_refl hy)
  have hxy : x ≤ y := (h x).mp (le_refl (not_isNaN_of_le hyx).2)
  exact beq_iff.mpr ⟨hxy, hyx⟩

/-! ## The smaller and the larger one -/

theorem le_lesser_iff (hu : isNaN u = false) (hv : isNaN v = false) : z ≤ lesser u v ↔ z ≤ u ∧ z ≤ v := by
  rw [lesser_of_not_isNaN hu]
  split
  next h =>
    have hvu : v ≤ u := le_of_lt hv hu h
    exact ⟨fun hz => ⟨le_trans hz hvu, hz⟩, And.right⟩
  next h =>
    have huv : u ≤ v := not_not.mp fun hnot => h ((lt_iff hv hu).mpr hnot)
    exact ⟨fun hz => ⟨hz, le_trans hz huv⟩, And.left⟩

theorem le_greater_iff (hu : isNaN u = false) (hv : isNaN v = false) : z ≤ greater u v ↔ z ≤ u ∨ z ≤ v := by
  rw [greater_of_not_isNaN hu]
  split
  next h =>
    have huv : u ≤ v := le_of_lt hu hv h
    exact ⟨Or.inr, fun hz => hz.elim (fun hz => le_trans hz huv) id⟩
  next h =>
    have hvu : v ≤ u := not_not.mp fun hnot => h ((lt_iff hu hv).mpr hnot)
    exact ⟨Or.inl, fun hz => hz.elim id fun hz => le_trans hz hvu⟩

/-- A running minimum is above what is below all that it saw. -/
theorem le_foldl_lesser_iff (hx : isNaN x = false) (hxs : ∀ y ∈ xs, isNaN y = false) :
    z ≤ xs.foldl lesser x ↔ z ≤ x ∧ ∀ y ∈ xs, z ≤ y := by
  induction xs generalizing x with
  | nil => simp
  | cons y ys ih =>
    obtain ⟨hy, hys⟩ := List.forall_mem_cons.mp hxs
    rw [List.foldl_cons, ih (not_isNaN_lesser hx hy) hys, le_lesser_iff hx hy, List.forall_mem_cons,
      and_assoc]

/-- A running maximum is above what is below something that it saw. -/
theorem le_foldl_greater_iff (hx : isNaN x = false) (hxs : ∀ y ∈ xs, isNaN y = false) :
    z ≤ xs.foldl greater x ↔ z ≤ x ∨ ∃ y ∈ xs, z ≤ y := by
  induction xs generalizing x with
  | nil => simp
  | cons y ys ih =>
    obtain ⟨hy, hys⟩ := List.forall_mem_cons.mp hxs
    rw [List.foldl_cons, ih (not_isNaN_greater hx hy) hys, le_greater_iff hx hy, List.exists_mem_cons_iff,
      or_assoc]

theorem le_smallest_iff (hne : xs ≠ []) (hxs : ∀ x ∈ xs, isNaN x = false) :
    z ≤ smallest xs ↔ ∀ x ∈ xs, z ≤ x := by
  cases xs with
  | nil => exact absurd rfl hne
  | cons x xs =>
    obtain ⟨hx, hxs⟩ := List.forall_mem_cons.mp hxs
    rw [smallest, le_foldl_lesser_iff hx hxs, List.forall_mem_cons]

theorem le_largest_iff (hne : xs ≠ []) (hxs : ∀ x ∈ xs, isNaN x = false) :
    z ≤ largest xs ↔ ∃ x ∈ xs, z ≤ x := by
  cases xs with
  | nil => exact absurd rfl hne
  | cons x xs =>
    obtain ⟨hx, hxs⟩ := List.forall_mem_cons.mp hxs
    rw [largest, le_foldl_greater_iff hx hxs, List.exists_mem_cons_iff]

/-- Among numbers there is a largest one. -/
theorem exists_largest (hne : xs ≠ []) (hxs : ∀ x ∈ xs, isNaN x = false) : ∃ m ∈ xs, ∀ x ∈ xs, x ≤ m := by
  refine ⟨largest xs, largest_mem hne, ?_⟩
  intro x hx
  rw [le_largest_iff hne hxs]
  exact ⟨x, hx, le_refl (hxs x hx)⟩

end Ordered

end FuzzyInference

import FuzzyInference.Proofs.Scalar.Ordered
import Mathlib.Algebra.Order.Field.Basic
import Mathlib.Algebra.Order.Floor.Ring
import Mathlib.Data.Rat.Floor
import Mathlib.Tactic.Linarith
import Mathlib.Tactic.NormNum.OfScientific

/-!
# Exact arithmetic

The reading of a `Scalar` in an ordered field, where no operation rounds and every number is finite. The
elementary functions are left open: what is proved here holds whatever they are.

## Contents
- `Elementary`: the functions that a field does not come with.
- `Scalar.exact`: the reading.
- `lesser_eq`, `greater_eq`, `foldl_add`, `sum_eq`: what is built from the operations.
- `Scalar.dividing`: the reading with another answer to a division by zero.
-/

set_option linter.unusedSectionVars false

namespace FuzzyInference

/-- The elementary functions of an exact reading. -/
class Elementary (K : Type) where
  exp : K → K
  ln : K → K
  sqrt : K → K
  pow : K → K → K

/-- The rationals serve to run examples that use no elementary function. -/
instance : Elementary ℚ := ⟨id, id, id, fun x _ => x⟩

namespace Scalar

variable {K : Type} [Field K] [LinearOrder K] [FloorRing K] [Elementary K]

/-- Field arithmetic. -/
instance exact : Scalar K where
  add := (· + ·)
  sub := (· - ·)
  mul := (· * ·)
  div := (· / ·)
  neg := (-·)
  lt := (· < ·)
  le := (· ≤ ·)
  decLt := fun x y => inferInstanceAs (Decidable (x < y))
  decLe := fun x y => inferInstanceAs (Decidable (x ≤ y))
  beq := fun x y => decide (x = y)
  ofScientific := OfScientific.ofScientific
  ofNat := Nat.cast
  toNat := fun x => ⌊x⌋.toNat
  abs := fun x => |x|
  floor := fun x => ⌊x⌋
  round := fun x => if 0 ≤ x then ⌊x + 1 / 2⌋ else ⌈x - 1 / 2⌉
  exp := Elementary.exp
  ln := Elementary.ln
  sqrt := Elementary.sqrt
  pow := Elementary.pow
  isNaN := fun _ => false
  isInfinite := fun _ => false

/-! ## What is built from the operations -/

@[simp] theorem zero_literal : (0.0 : K) = 0 := by norm_num

@[simp] theorem one_literal : (1.0 : K) = 1 := by norm_num

@[simp] theorem two_literal : (2.0 : K) = 2 := by norm_num

@[simp] theorem four_literal : (4.0 : K) = 4 := by norm_num

@[simp] theorem half_literal : (0.5 : K) = 1 / 2 := by norm_num

theorem lesser_eq (u v : K) : lesser u v = min u v := by
  show (if (decide (v < u) || false) = true then v else u) = min u v
  by_cases h : v < u
  · simp [h, min_eq_right h.le]
  · simp [h, min_eq_left (not_lt.mp h)]

theorem greater_eq (u v : K) : greater u v = max u v := by
  show (if (decide (u < v) || false) = true then v else u) = max u v
  by_cases h : u < v
  · simp [h, max_eq_right h.le]
  · simp [h, max_eq_left (not_lt.mp h)]

/-- Without NaN the order is that of the field. -/
instance [IsStrictOrderedRing K] : Ordered K where
  not_isNaN_of_le _ := ⟨rfl, rfl⟩
  le_total {x y} _ _ := LinearOrder.le_total x y
  le_trans := fun hxy hyz => hxy.trans hyz
  lt_iff _ _ := lt_iff_not_ge
  beq_iff := decide_eq_true_iff.trans le_antisymm_iff
  not_isNaN_complement _ := rfl
  complement_le h := sub_le_sub_left h _

/-- An accumulating loop adds up what it adds to its accumulator. -/
theorem foldl_add {β : Type} (f : β → K) (xs : List β) (z : K) :
    xs.foldl (fun total b => total + f b) z = z + (xs.map f).sum := by
  induction xs generalizing z with
  | nil => simp
  | cons b xs ih =>
    rw [List.foldl_cons, ih, List.map_cons, List.sum_cons, add_assoc]

/-- The order of summation does not matter here. -/
theorem sum_eq (xs : List K) : Scalar.sum xs = xs.sum := by
  have h := foldl_add (fun x : K => x) xs (-(0.0 : K))
  rw [zero_literal, neg_zero, zero_add, List.map_id'] at h
  rw [← h]
  show xs.foldl (fun total b => total + b) (-(0.0 : K)) = _
  rw [zero_literal, neg_zero]

/-! ## Division by zero

A field divides by zero too, with a result that nobody asked for. What does not depend on this result was
computed without it. -/

/-- Field arithmetic in which `byZero` says what a division by zero makes of the dividend. -/
@[reducible] def dividing (byZero : K → K) : Scalar K :=
  { (inferInstance : Scalar K) with div := fun a b => if b = 0 then byZero a else a / b }

/-- A division that answers anything at 0 is division elsewhere. -/
theorem dividing_of_ne (byZero : K → K) {a b : K} (h : b ≠ 0) : (dividing byZero).div a b = a / b :=
  if_neg h

end Scalar

end FuzzyInference

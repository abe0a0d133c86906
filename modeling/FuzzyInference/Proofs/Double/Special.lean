import FuzzyInference.Proofs.Double.Nearest

/-!
# Infinities and NaN

Which operations on doubles that are not all finite give NaN, and what is known of the sign where they do
not. An infinity absorbs what is finite, except that zero times infinity is NaN.

## Contents
- `infinity_of_not_isFinite`: a double that is neither finite nor NaN. `infinity_add`, `mul_infinity` and the
  like: what an infinity makes of others.
- `not_isNaN_finite_add`, `not_isNaN_finite_sub`, `isNaN_mul_iff`: when a result is NaN.
- `IsSigned`, `IsSigned.mul`: signs of products.
- `isNaN_add_right` and the like: a result of NaN.
- `finite_le_iff`, `zero_le_iff`: what is not below a finite double.
-/

namespace FuzzyInference.Double

open Float.Model Float.Model.UnpackedFloat
open Scalar

variable {q : ℚ} {x y z : Float}

/-! ## Infinities and NaN -/

/-- Zero, or a number with this sign. -/
def IsSigned (s : Sign) (x : Float) : Prop :=
  (isFinite x = true ∧ 0 ≤ signed s (value x)) ∨ x.toModel.unpack = .infinity s

theorem isNaN_eq (x : Float) : isNaN x = x.toModel.unpack.isNaN := rfl

/-- Addition works on the unpacked operands and packs the result. -/
theorem unpack_add (x y : Float) : (x + y).toModel.unpack =
    (Float.Model.pack (UnpackedFloat.add .binary64 x.toModel.unpack y.toModel.unpack)).unpack := rfl

theorem unpack_mul (x y : Float) : (x * y).toModel.unpack =
    (Float.Model.pack (UnpackedFloat.mul .binary64 x.toModel.unpack y.toModel.unpack)).unpack := rfl

theorem unpack_div (x y : Float) : (x / y).toModel.unpack =
    (Float.Model.pack (UnpackedFloat.div .binary64 x.toModel.unpack y.toModel.unpack)).unpack := rfl

/-- A finite double is a zero or has a significand. -/
theorem unpack_of_isFinite (h : isFinite x = true) :
    (∃ s, x.toModel.unpack = .zero s) ∨ ∃ s m e hm, x.toModel.unpack = .finite s m e hm := by
  have hx := denotes_unpack h
  generalize magnitude x = r at hx
  generalize x.toModel.unpack = u at hx ⊢
  cases hx with
  | zero => exact Or.inl ⟨_, rfl⟩
  | finite hm => exact Or.inr ⟨_, _, _, _, rfl⟩

theorem isNaN_of_infinity {s : Sign} (h : x.toModel.unpack = .infinity s) : isNaN x = false := by
  rw [isNaN_eq, h]
  rfl

theorem isNaN_of_notANumber (h : x.toModel.unpack = .notANumber) : isNaN x = true := by
  rw [isNaN_eq, h]
  rfl

/-- A number that is not finite is an infinity. -/
theorem infinity_of_not_isFinite (h : isNaN x = false) (hx : ¬ isFinite x = true) :
    ∃ s, x.toModel.unpack = .infinity s := by
  rcases unpack_cases x with h' | h' | h'
  · exact absurd h' hx
  · exact h'
  · rw [isNaN_of_notANumber h'] at h
    cases h

/-- An infinity absorbs what is finite. -/
theorem infinity_add {s : Sign} (hx : x.toModel.unpack = .infinity s) (hy : isFinite y = true) :
    (x + y).toModel.unpack = .infinity s := by
  rw [unpack_add, hx]
  rcases unpack_of_isFinite hy with ⟨t, hy⟩ | ⟨t, m, e, hm, hy⟩ <;> rw [hy] <;>
    exact unpack_pack_infinity s

/-- An infinity absorbs what is finite. -/
theorem add_infinity {s : Sign} (hx : isFinite x = true) (hy : y.toModel.unpack = .infinity s) :
    (x + y).toModel.unpack = .infinity s := by
  rw [unpack_add, hy]
  rcases unpack_of_isFinite hx with ⟨t, hx⟩ | ⟨t, m, e, hm, hx⟩ <;> rw [hx] <;>
    exact unpack_pack_infinity s

theorem infinity_add_infinity {s : Sign} (hx : x.toModel.unpack = .infinity s)
    (hy : y.toModel.unpack = .infinity s) : (x + y).toModel.unpack = .infinity s := by
  rw [unpack_add, hx, hy]
  cases s <;> exact unpack_pack_infinity _

/-- A finite operand makes no NaN of a number. -/
theorem not_isNaN_finite_add (hx : isFinite x = true) (hy : isNaN y = false) : isNaN (x + y) = false := by
  by_cases h : isFinite y = true
  · exact (rounds_add hx h).not_isNaN
  · obtain ⟨s, hs⟩ := infinity_of_not_isFinite hy h
    exact isNaN_of_infinity (add_infinity hx hs)

theorem not_isNaN_add_finite (hx : isNaN x = false) (hy : isFinite y = true) : isNaN (x + y) = false := by
  by_cases h : isFinite x = true
  · exact (rounds_add h hy).not_isNaN
  · obtain ⟨s, hs⟩ := infinity_of_not_isFinite hx h
    exact isNaN_of_infinity (infinity_add hs hy)

theorem isNaN_neg : isNaN (-x) = isNaN x := by
  rw [isNaN_eq, isNaN_eq, unpack_neg]
  cases x.toModel.unpack <;> rfl

theorem not_isNaN_finite_sub (hx : isFinite x = true) (hy : isNaN y = false) : isNaN (x - y) = false := by
  rw [sub_eq]
  exact not_isNaN_finite_add hx (isNaN_neg.trans hy)

theorem neg_infinity {s : Sign} (h : x.toModel.unpack = .infinity s) :
    (-x).toModel.unpack = .infinity (-s) := by
  rw [unpack_neg, h]
  rfl

theorem abs_infinity {s : Sign} (h : x.toModel.unpack = .infinity s) :
    (abs x).toModel.unpack = .infinity .positive := by
  show (Float.Model.pack x.toModel.unpack.abs).unpack = _
  rw [h]
  exact unpack_pack_infinity .positive

theorem isInfinite_eq (x : Float) : isInfinite x = x.toModel.unpack.isInf := rfl

theorem not_isInfinite_of_isFinite (h : isFinite x = true) : isInfinite x = false := by
  unfold Scalar.isFinite at h
  simpa using (Bool.and_eq_true_iff.mp h).2

theorem isFinite_of_not_isInfinite (hnan : isNaN x = false) (h : isInfinite x = false) : isFinite x = true := by
  rw [Scalar.isFinite, hnan, h]
  rfl

theorem isInfinite_of_infinity {s : Sign} (h : x.toModel.unpack = .infinity s) : isInfinite x = true := by
  rw [isInfinite_eq, h]
  rfl

theorem infinity_of_isInfinite (h : isInfinite x = true) : ∃ s, x.toModel.unpack = .infinity s := by
  rw [isInfinite_eq] at h
  generalize x.toModel.unpack = u at h
  cases u with
  | infinity s => exact ⟨s, rfl⟩
  | _ => cases h

/-- A finite double compares equal to 0 when its value is 0, whatever its sign. -/
theorem beq_zero_iff_value (hx : isFinite x = true) : (x == 0.0) = true ↔ value x = 0 := by
  rw [beq_zero_iff (denotes_unpack hx), value]
  constructor
  · intro h
    rw [h, signed_zero]
  · intro h
    cases hs : signOf x <;> rw [hs] at h
    · exact neg_eq_zero.mp h
    · exact h

theorem not_beq_zero_of_infinity {s : Sign} (h : x.toModel.unpack = .infinity s) : (x == 0.0) = false := by
  show x.toModel.unpack.beq (0.0 : Float).toModel.unpack = false
  rw [h, unpack_zero]
  cases s <;> rfl

/-- Multiplication commutes, NaN included, as there is only one NaN. -/
theorem mul_swap (x y : Float) : x * y = y * x := by
  have hmodel : ∀ u v : UnpackedFloat, UnpackedFloat.mul .binary64 u v = UnpackedFloat.mul .binary64 v u := by
    have hsign : ∀ s t : Sign, s * t = t * s := by
      intro s t
      cases s <;> cases t <;> rfl
    intro u v
    cases u <;> cases v <;> simp [UnpackedFloat.mul, hsign, mul_comm, add_comm]
  show Float.ofModel (Float.Model.pack (UnpackedFloat.mul .binary64 x.toModel.unpack y.toModel.unpack)) = _
  rw [hmodel]
  rfl

theorem add_swap (x y : Float) : x + y = y + x := by
  have hmodel : ∀ u v : UnpackedFloat, UnpackedFloat.add .binary64 u v = UnpackedFloat.add .binary64 v u := by
    intro u v
    cases u <;> cases v <;> simp [UnpackedFloat.add, add_comm, min_comm]
    -- two infinities and two zeros, whose signs are compared
    case infinity.infinity s t | zero.zero s t => cases s <;> cases t <;> rfl
  show Float.ofModel (Float.Model.pack (UnpackedFloat.add .binary64 x.toModel.unpack y.toModel.unpack)) = _
  rw [hmodel]
  rfl

theorem value_eq_zero_iff : value x = 0 ↔ magnitude x = 0 := by
  rw [← abs_value_eq, abs_eq_zero]

/-- Zero times infinity is NaN, -/
theorem zero_mul_infinity {s : Sign} (hx : isFinite x = true) (h0 : value x = 0)
    (hy : y.toModel.unpack = .infinity s) : isNaN (x * y) = true := by
  have hdenotes := denotes_unpack hx
  rw [value_eq_zero_iff.mp h0] at hdenotes
  have hzero := hdenotes.unique .zero
  rw [isNaN_eq, unpack_mul, hy, hzero]
  show (Float.Model.pack .notANumber).unpack.isNaN = true
  rw [unpack_pack_notANumber]
  rfl

/-- and any other number times infinity is infinite. -/
theorem mul_infinity {s : Sign} (hx : isFinite x = true) (h0 : value x ≠ 0)
    (hy : y.toModel.unpack = .infinity s) : (x * y).toModel.unpack = .infinity (signOf x * s) := by
  have hdenotes := denotes_unpack hx
  have hmagnitude : magnitude x ≠ 0 := fun h => h0 (value_eq_zero_iff.mpr h)
  rw [unpack_mul, hy]
  generalize x.toModel.unpack = u at hdenotes ⊢
  generalize magnitude x = r at hdenotes hmagnitude
  cases hdenotes with
  | zero => exact absurd rfl hmagnitude
  | finite hm => exact unpack_pack_infinity _

theorem infinity_mul_infinity {s t : Sign} (hx : x.toModel.unpack = .infinity s)
    (hy : y.toModel.unpack = .infinity t) : (x * y).toModel.unpack = .infinity (s * t) := by
  rw [unpack_mul, hx, hy]
  exact unpack_pack_infinity _

/-- A finite factor makes NaN exactly as 0 with an infinity. -/
theorem isNaN_finite_mul_iff (hx : isFinite x = true) (hy : isNaN y = false) :
    isNaN (x * y) = true ↔ value x = 0 ∧ isInfinite y = true := by
  by_cases h : isFinite y = true
  · simp [(rounds_mul hx h).not_isNaN, not_isInfinite_of_isFinite h]
  · obtain ⟨s, hs⟩ := infinity_of_not_isFinite hy h
    have hinfinite := isInfinite_of_infinity hs
    by_cases h0 : value x = 0
    · exact iff_of_true (zero_mul_infinity hx h0 hs) ⟨h0, hinfinite⟩
    · have hmul := isNaN_of_infinity (mul_infinity hx h0 hs)
      simp [hmul, h0]

/-- **A product of numbers is NaN if it is one of zero and infinity.** -/
theorem isNaN_mul_iff (hx : isNaN x = false) (hy : isNaN y = false) : isNaN (x * y) = true ↔
    ((x == 0.0) = true ∧ isInfinite y = true) ∨ (isInfinite x = true ∧ (y == 0.0) = true) := by
  by_cases hfx : isFinite x = true
  · rw [isNaN_finite_mul_iff hfx hy, not_isInfinite_of_isFinite hfx, beq_zero_iff_value hfx]
    simp
  · obtain ⟨s, hs⟩ := infinity_of_not_isFinite hx hfx
    rw [isInfinite_of_infinity hs, not_beq_zero_of_infinity hs]
    by_cases hfy : isFinite y = true
    · rw [mul_swap, isNaN_finite_mul_iff hfy hx, isInfinite_of_infinity hs, beq_zero_iff_value hfy]
      simp
    · obtain ⟨t, ht⟩ := infinity_of_not_isFinite hy hfy
      rw [isNaN_of_infinity (infinity_mul_infinity hs ht), not_beq_zero_of_infinity ht]
      simp

theorem isInfinite_neg : isInfinite (-x) = isInfinite x := by
  rw [isInfinite_eq, isInfinite_eq, unpack_neg]
  cases x.toModel.unpack <;> rfl

theorem beq_zero_neg (h : isNaN x = false) : (-x == 0.0) = (x == 0.0) := by
  by_cases hx : isFinite x = true
  · obtain ⟨hneg, hvalue⟩ := value_neg hx
    rw [Bool.eq_iff_iff, beq_zero_iff_value hneg, beq_zero_iff_value hx, hvalue, neg_eq_zero]
  · obtain ⟨s, hs⟩ := infinity_of_not_isFinite h hx
    rw [not_beq_zero_of_infinity hs, not_beq_zero_of_infinity (neg_infinity hs)]

/-- Rounding keeps the sign, or gives a zero. -/
theorem Rounds.isSigned {s : Sign} (h : Rounds q z) (hq : 0 ≤ signed s q) : IsSigned s z := by
  have hnearest : 0 ≤ signed s (nearest q) := by
    cases s
    · rw [signed, ← nearest_neg]
      exact nearest_nonneg hq
    · exact nearest_nonneg hq
  have hlarge : 0 < tooLarge := zpow_pos two_pos _
  rcases h with ⟨hz, hv⟩ | ⟨hbig, hz⟩ | ⟨hsmall, hz⟩
  · exact Or.inl ⟨hz, hv ▸ hnearest⟩
  · cases s
    · exact absurd (neg_nonneg.mp hnearest) (not_le.mpr (hlarge.trans_le hbig))
    · exact Or.inr hz
  · cases s
    · exact Or.inr hz
    · exact absurd (hnearest.trans hsmall) (not_le.mpr (neg_neg_of_pos hlarge))

/-- What is too large is rounded to an infinity. -/
theorem Rounds.infinity {s : Sign} {r : ℚ} (h : Rounds (signed s r) z) (hr : tooLarge ≤ r) :
    z.toModel.unpack = .infinity s := by
  have hpos : 0 < tooLarge := zpow_pos two_pos _
  have hround : tooLarge ≤ rounded r := le_rounded (by norm_num) hr
  have hnearest := nearest_signed s (hpos.le.trans hr)
  rcases h with ⟨hfinite, hvalue⟩ | ⟨hlarge, hz⟩ | ⟨hsmall, hz⟩
  · have habs : |value z| = rounded r := by
      rw [hvalue, hnearest]
      cases s
      · exact (abs_neg _).trans (abs_of_nonneg (rounded_nonneg r))
      · exact abs_of_nonneg (rounded_nonneg r)
    exact absurd (exact_value hfinite).lt_tooLarge (habs ▸ hround.not_gt)
  · rw [hnearest] at hlarge
    cases s
    · exact absurd (hpos.trans_le hlarge) (neg_nonpos.mpr (rounded_nonneg r)).not_gt
    · exact hz
  · rw [hnearest] at hsmall
    cases s
    · exact hz
    · exact absurd (hsmall.trans_lt (neg_neg_of_pos hpos)) (rounded_nonneg r).not_gt

theorem signOf_eq {s : Sign} (hx : 0 ≤ signed s (value x)) (h0 : value x ≠ 0) : signOf x = s := by
  have hr := magnitude_nonneg x
  have hr' : magnitude x ≠ 0 := fun h => h0 (value_eq_zero_iff.mpr h)
  unfold value at hx
  cases hs : signOf x <;> rw [hs] at hx <;> cases s
  · rfl
  · exact absurd (le_antisymm (neg_nonneg.mp hx) hr) hr'
  · exact absurd (le_antisymm (neg_nonneg.mp hx) hr) hr'
  · rfl

/-- A product has the product of the signs, unless it is NaN. -/
theorem IsSigned.mul {s t : Sign} (hx : IsSigned s x) (hy : IsSigned t y) (h : isNaN (x * y) = false) :
    IsSigned (s * t) (x * y) := by
  have hfinite : ∀ {s t : Sign} {x y : Float}, isFinite x = true → 0 ≤ signed s (value x) →
      y.toModel.unpack = .infinity t → isNaN (x * y) = false → IsSigned (s * t) (x * y) := by
    intro s t x y hx hs hy h
    by_cases h0 : value x = 0
    · rw [zero_mul_infinity hx h0 hy] at h
      cases h
    · rw [← signOf_eq hs h0]
      exact Or.inr (mul_infinity hx h0 hy)
  have hsign : s * t = t * s := by cases s <;> cases t <;> rfl
  rcases hx with ⟨hx, hs⟩ | hx <;> rcases hy with ⟨hy, ht⟩ | hy
  · refine (rounds_mul hx hy).isSigned ?_
    rw [signed_mul]
    exact mul_nonneg hs ht
  · exact hfinite hx hs hy h
  · rw [mul_swap x y] at h ⊢
    rw [hsign]
    exact hfinite hy ht hx h
  · exact Or.inr (infinity_mul_infinity hx hy)

theorem isFinite_div_infinity {s : Sign} (hx : isFinite x = true) (hy : y.toModel.unpack = .infinity s) :
    isFinite (x / y) = true ∧ value (x / y) = 0 := by
  have hzero : Denotes (signOf x / s) 0 (x / y).toModel.unpack := by
    have hdenotes := denotes_unpack hx
    rw [unpack_div, hy]
    generalize magnitude x = r at hdenotes
    generalize x.toModel.unpack = u at hdenotes ⊢
    have hpack : (Float.Model.pack (.zero (signOf x / s))).unpack = .zero (signOf x / s) :=
      unpack_pack .zero (zpow_pos two_pos _)
    cases hdenotes with
    | zero =>
      show Denotes _ 0 (Float.Model.pack (.zero (signOf x / s))).unpack
      rw [hpack]
      exact .zero
    | finite hm =>
      show Denotes _ 0 (Float.Model.pack (.zero (signOf x / s))).unpack
      rw [hpack]
      exact .zero
  exact ⟨(denotes_iff.mp hzero).1, by rw [hzero.value_eq, signed_zero]⟩

/-- A number that is not zero becomes infinite by a division by zero. -/
theorem infinity_div_zero (hx : isFinite x = true) (h0 : value x ≠ 0) (hy : isFinite y = true)
    (hy0 : value y = 0) : ∃ s, (x / y).toModel.unpack = .infinity s := by
  have hdividend := denotes_unpack hx
  have hmagnitude : magnitude x ≠ 0 := fun h => h0 (value_eq_zero_iff.mpr h)
  have hdivisor := denotes_unpack hy
  rw [value_eq_zero_iff.mp hy0] at hdivisor
  rw [unpack_div, hdivisor.unique .zero]
  generalize x.toModel.unpack = u at hdividend ⊢
  generalize magnitude x = r at hdividend hmagnitude
  cases hdividend with
  | zero => exact absurd rfl hmagnitude
  | finite hm => exact ⟨_, unpack_pack_infinity _⟩

theorem infinity_div {s : Sign} (hx : x.toModel.unpack = .infinity s) (hy : isFinite y = true)
    (hpos : 0 < value y) : (x / y).toModel.unpack = .infinity s := by
  have hsign : signOf y = .positive := signOf_eq hpos.le hpos.ne'
  have hquotient : s / .positive = s := by cases s <;> rfl
  have hdivisor := denotes_unpack hy
  rw [hsign] at hdivisor
  have hdiv : UnpackedFloat.div .binary64 (.infinity s) y.toModel.unpack = .infinity s := by
    generalize y.toModel.unpack = v at hdivisor ⊢
    generalize magnitude y = r at hdivisor
    cases hdivisor <;> exact congrArg UnpackedFloat.infinity hquotient
  rw [unpack_div, hx, hdiv, unpack_pack_infinity]

/-! ## NaN spreads -/

theorem unpack_of_isNaN (h : isNaN x = true) : x.toModel.unpack = .notANumber := by
  rw [isNaN_eq] at h
  generalize x.toModel.unpack = u at h
  cases u with
  | notANumber => rfl
  | _ => cases h

theorem isNaN_add_right (h : isNaN y = true) : isNaN (x + y) = true := by
  have hsum : UnpackedFloat.add .binary64 x.toModel.unpack .notANumber = .notANumber := by
    cases x.toModel.unpack <;> rfl
  rw [isNaN_eq, unpack_add, unpack_of_isNaN h, hsum, unpack_pack_notANumber]
  rfl

theorem isNaN_add_left (h : isNaN x = true) : isNaN (x + y) = true := by
  have hsum : UnpackedFloat.add .binary64 .notANumber y.toModel.unpack = .notANumber := by
    cases y.toModel.unpack <;> rfl
  rw [isNaN_eq, unpack_add, unpack_of_isNaN h, hsum, unpack_pack_notANumber]
  rfl

theorem isNaN_abs (h : isNaN x = true) : isNaN (abs x) = true := by
  show (Float.Model.pack x.toModel.unpack.abs).unpack.isNaN = true
  rw [unpack_of_isNaN h]
  exact congrArg UnpackedFloat.isNaN unpack_pack_notANumber

theorem isNaN_sub_left (h : isNaN x = true) : isNaN (x - y) = true := by
  rw [sub_eq]
  exact isNaN_add_left h

theorem isNaN_sub_right (h : isNaN y = true) : isNaN (x - y) = true := by
  rw [sub_eq]
  exact isNaN_add_right (isNaN_neg.trans h)

theorem isNaN_mul_right (h : isNaN y = true) : isNaN (x * y) = true := by
  have hproduct : UnpackedFloat.mul .binary64 x.toModel.unpack .notANumber = .notANumber := by
    cases x.toModel.unpack <;> rfl
  rw [isNaN_eq, unpack_mul, unpack_of_isNaN h, hproduct, unpack_pack_notANumber]
  rfl

theorem isNaN_div_right (h : isNaN y = true) : isNaN (x / y) = true := by
  have hquotient : UnpackedFloat.div .binary64 x.toModel.unpack .notANumber = .notANumber := by
    cases x.toModel.unpack <;> rfl
  rw [isNaN_eq, unpack_div, unpack_of_isNaN h, hquotient, unpack_pack_notANumber]
  rfl

theorem isNaN_div_left (h : isNaN x = true) : isNaN (x / y) = true := by
  have hquotient : UnpackedFloat.div .binary64 .notANumber y.toModel.unpack = .notANumber := by
    cases y.toModel.unpack <;> rfl
  rw [isNaN_eq, unpack_div, unpack_of_isNaN h, hquotient, unpack_pack_notANumber]
  rfl

/-- A product with an infinity is never finite, -/
theorem not_isFinite_infinity_mul {s : Sign} (hx : x.toModel.unpack = .infinity s) :
    isFinite (x * y) = false := by
  rcases unpack_cases y with hy | ⟨t, hy⟩ | hy
  · rw [mul_swap]
    by_cases h0 : value y = 0
    · rw [Scalar.isFinite, zero_mul_infinity hy h0 hx]
      rfl
    · exact not_isFinite_of_infinity (mul_infinity hy h0 hx)
  · exact not_isFinite_of_infinity (infinity_mul_infinity hx hy)
  · rw [Scalar.isFinite, isNaN_mul_right (isNaN_of_notANumber hy)]
    rfl

/-- and what is not finite cannot be divided by an infinity. -/
theorem isNaN_div_infinity {s : Sign} (hx : isFinite x = false) (hy : y.toModel.unpack = .infinity s) :
    isNaN (x / y) = true := by
  have hquotient : UnpackedFloat.div .binary64 x.toModel.unpack (.infinity s) = .notANumber := by
    rcases unpack_cases x with h | ⟨t, h⟩ | h
    · rw [hx] at h
      cases h
    · rw [h]
      rfl
    · rw [h]
      rfl
  rw [isNaN_eq, unpack_div, hy, hquotient, unpack_pack_notANumber]
  rfl

/-- A quotient is finite only if the dividend is. -/
theorem isFinite_of_div (h : isFinite (x / y) = true) : isFinite x = true := by
  rcases unpack_cases x with hx | ⟨s, hs⟩ | hnan
  · exact hx
  · have hquotient : (x / y).toModel.unpack = .notANumber ∨ ∃ t, (x / y).toModel.unpack = .infinity t := by
      rw [unpack_div, hs]
      cases y.toModel.unpack with
      | notANumber => exact Or.inl unpack_pack_notANumber
      | infinity t => exact Or.inl unpack_pack_notANumber
      | zero t => exact Or.inr ⟨_, unpack_pack_infinity _⟩
      | finite t m e hm => exact Or.inr ⟨_, unpack_pack_infinity _⟩
    rcases hquotient with hq | ⟨t, ht⟩
    · rw [Scalar.isFinite, isNaN_of_notANumber hq] at h
      cases h
    · rw [not_isFinite_of_infinity ht] at h
      cases h
  · rw [Scalar.isFinite, isNaN_div_left (isNaN_of_notANumber hnan)] at h
    cases h

/-! ## Order with infinities -/

theorem lt_infinity (hx : isFinite x = true) (hy : y.toModel.unpack = .infinity .positive) : x < y := by
  obtain ⟨k, hk⟩ := rankOf_of_isFinite hx
  have hl : rankOf y = some (toLex (2, toLex (0, 0))) := by
    rw [rankOf, hy]
    rfl
  refine (lt_iff_of_rankOf hk hl).mpr ?_
  rcases unpack_of_isFinite hx with ⟨s, hx⟩ | ⟨s, m, e, hm, hx⟩ <;> rw [rankOf, hx] at hk
  · cases hk
    simp [Prod.Lex.toLex_lt_toLex]
  · cases s <;> cases hk <;> simp [Prod.Lex.toLex_lt_toLex]

theorem infinity_lt (hx : x.toModel.unpack = .infinity .negative) (hy : isFinite y = true) : x < y := by
  obtain ⟨l, hl⟩ := rankOf_of_isFinite hy
  have hk : rankOf x = some (toLex (-2, toLex (0, 0))) := by
    rw [rankOf, hx]
    rfl
  refine (lt_iff_of_rankOf hk hl).mpr ?_
  rcases unpack_of_isFinite hy with ⟨s, hy⟩ | ⟨s, m, e, hm, hy⟩ <;> rw [rankOf, hy] at hl
  · cases hl
    simp [Prod.Lex.toLex_lt_toLex]
  · cases s <;> cases hl <;> simp [Prod.Lex.toLex_lt_toLex]

/-- A finite double is at most those of greater value and the positive infinity. -/
theorem finite_le_iff (hx : isFinite x = true) : x ≤ y ↔
    (isFinite y = true ∧ value x ≤ value y) ∨ y.toModel.unpack = .infinity .positive := by
  have hnan := not_isNaN_of_isFinite hx
  -- by what the greater number is: finite, an infinity of either sign, or NaN
  rcases unpack_cases y with hy | ⟨s, hy⟩ | hy
  · have hne : y.toModel.unpack ≠ .infinity .positive := by
      intro h
      rw [not_isFinite_of_infinity h] at hy
      cases hy
    simp [le_iff_value hx hy, hy, hne]
  · rw [le_iff_not_lt hnan (isNaN_of_infinity hy)]
    cases s
    · simp [infinity_lt hy hx, not_isFinite_of_infinity hy, hy]
    · exact iff_of_true (not_lt_of_lt (lt_infinity hx hy)) (Or.inr hy)
  · have hnan' := isNaN_of_notANumber hy
    refine iff_of_false (fun h => ?_) ?_
    · rw [(not_isNaN_of_le h).2] at hnan'
      cases hnan'
    · rintro (⟨h, -⟩ | h)
      · rw [not_isNaN_of_isFinite h] at hnan'
        cases hnan'
      · rw [hy] at h
        cases h

/-- At least 0 are the zeros, the positive doubles and the positive infinity. -/
theorem zero_le_iff : (0.0 : Float) ≤ x ↔ IsSigned .positive x := by
  have hzero : isFinite (0.0 : Float) = true := (denotes_iff.mp denotes_zero).1
  have hvalue : value 0.0 = 0 := denotes_zero.value_eq
  rw [finite_le_iff hzero, hvalue]
  exact Iff.rfl

/-- A sum of numbers that are not negative is a number and not negative. -/
theorem zero_le_add (hx : (0.0 : Float) ≤ x) (hy : (0.0 : Float) ≤ y) : (0.0 : Float) ≤ x + y := by
  rw [zero_le_iff] at hx hy ⊢
  rcases hx with ⟨hx, hx0⟩ | hx <;> rcases hy with ⟨hy, hy0⟩ | hy
  · exact (rounds_add hx hy).isSigned (add_nonneg hx0 hy0)
  · exact Or.inr (add_infinity hx hy)
  · exact Or.inr (infinity_add hx hy)
  · exact Or.inr (infinity_add_infinity hx hy)

/-- The product of nonnegative doubles is nonnegative, unless it is NaN. -/
theorem mul_nonneg_of_not_isNaN (hx : (0.0 : Float) ≤ x) (hy : (0.0 : Float) ≤ y) (h : isNaN (x * y) = false) :
    (0.0 : Float) ≤ x * y := by
  have hsign : Sign.positive * Sign.positive = .positive := rfl
  have hmul := (zero_le_iff.mp hx).mul (zero_le_iff.mp hy) h
  rw [hsign] at hmul
  exact zero_le_iff.mpr hmul

/-- A square of a number is not NaN and not negative. -/
theorem square_nonneg (h : isNaN x = false) : (0.0 : Float) ≤ square x := by
  have hnan : isNaN (square x) = false := by
    rw [Bool.eq_false_iff, ne_eq, square, isNaN_mul_iff h h]
    rintro (⟨hzero, hinfinite⟩ | ⟨hinfinite, hzero⟩) <;>
      obtain ⟨s, hs⟩ := infinity_of_isInfinite hinfinite <;>
      rw [not_beq_zero_of_infinity hs] at hzero <;> cases hzero
  have hsigned : ∃ s, IsSigned s x := by
    by_cases hx : isFinite x = true
    · rcases le_total 0 (value x) with h0 | h0
      · exact ⟨.positive, Or.inl ⟨hx, h0⟩⟩
      · exact ⟨.negative, Or.inl ⟨hx, neg_nonneg.mpr h0⟩⟩
    · obtain ⟨s, hs⟩ := infinity_of_not_isFinite h hx
      exact ⟨s, Or.inr hs⟩
  obtain ⟨s, hs⟩ := hsigned
  have hsign : s * s = .positive := by cases s <;> rfl
  have hmul := hs.mul hs hnan
  rw [hsign] at hmul
  exact zero_le_iff.mpr hmul

theorem IsSigned.neg (h : IsSigned .positive x) : IsSigned .negative (-x) := by
  rcases h with ⟨hx, h⟩ | h
  · obtain ⟨hneg, hvalue⟩ := value_neg hx
    refine Or.inl ⟨hneg, ?_⟩
    rw [hvalue]
    exact neg_nonneg.mpr (neg_nonpos.mpr h)
  · exact Or.inr (neg_infinity h)

theorem IsSigned.le_zero (h : IsSigned .negative x) : x ≤ 0.0 := by
  have hzero : isFinite (0.0 : Float) = true := (denotes_iff.mp denotes_zero).1
  have hvalue : value 0.0 = 0 := denotes_zero.value_eq
  rcases h with ⟨hx, h⟩ | h
  · rw [le_iff_value hx hzero, hvalue]
    exact neg_nonneg.mp h
  · rw [le_iff_not_lt (isNaN_of_infinity h) (not_isNaN_of_isFinite hzero)]
    exact not_lt_of_lt (infinity_lt h hzero)

theorem le_of_less (h : x < y) : x ≤ y :=
  (le_iff_not_lt (not_isNaN_of_lt h).1 (not_isNaN_of_lt h).2).mpr (not_lt_of_lt h)

end FuzzyInference.Double

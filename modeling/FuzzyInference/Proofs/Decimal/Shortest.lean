import FuzzyInference.Decimal.Shortest
import FuzzyInference.Proofs.Decimal.Reading

/-!
# Shortest decimals read back

The search for a short decimal only ever takes one that reads as the double, and the decimal that it
falls back on has the double's own value.

## Contents
- `toDouble?_congr`: decimals of one value read alike.
- `value_exact`: the fallback is exact.
- `toDouble?_shortest`: a positive double is read back from its shortest decimal.
-/

namespace FuzzyInference.Decimal

open Float.Model.UnpackedFloat Double

/-- Reading depends on a decimal's value, not on how it is written. -/
theorem toDouble?_congr {d d' : Decimal} (h : d.value = d'.value) : d.toDouble? = d'.toDouble? := by
  apply Option.ext
  intro x
  rw [toDouble?_eq_some_iff, toDouble?_eq_some_iff, h]

theorem value_exact (x : Float) : (exact x).value = magnitude x := by
  unfold exact value magnitude Unpacked.magnitude
  by_cases hwhole : (unpack x).isWhole = true
  · have he : 0 ≤ (unpack x).exponent := of_decide_eq_true hwhole
    simp only [if_pos hwhole, Nat.pow_eq]
    rw [zpow_zero, mul_one, Nat.cast_mul, Nat.cast_pow, Nat.cast_ofNat, ← zpow_natCast,
      Int.toNat_of_nonneg he]
  · have he : (unpack x).exponent < 0 := not_le.mp (of_decide_eq_false (Bool.eq_false_iff.mpr hwhole))
    simp only [if_neg hwhole, Nat.pow_eq]
    -- a fraction over a power of two, times the same power of five, is one over a power of ten
    have hten : (10 : ℚ) ^ (unpack x).exponent =
        5 ^ (unpack x).exponent * 2 ^ (unpack x).exponent := by
      rw [← mul_zpow]
      norm_num
    have hfive : ((5 : ℚ) ^ (-(unpack x).exponent)) * 5 ^ (unpack x).exponent = 1 := by
      rw [← zpow_add₀ (by norm_num), neg_add_cancel, zpow_zero]
    rw [Nat.cast_mul, Nat.cast_pow, Nat.cast_ofNat, ← zpow_natCast, Int.toNat_of_nonneg (by omega), hten,
      mul_assoc, ← mul_assoc (5 ^ _ : ℚ), hfive, one_mul]

variable {x : Float} {tie : Tie}

/-- The exact decimal of a double is read back as that double. -/
theorem toDouble?_exact {r : ℚ} (h : Denotes .positive r x.toModel.unpack) :
    (exact x).toDouble? = some x := by
  rw [toDouble?_eq_some_iff, value_exact, (denotes_iff.mp h).2.2, h.rounded_eq]
  exact h

/-- A candidate that passes the reader's test is read back. -/
theorem toDouble?_of_readsAs {d : Decimal} (h : d.readsAs x = true) : d.toDouble? = some x := by
  unfold readsAs at h
  split at h
  next y hy =>
    obtain ⟨⟨bits, hvalid⟩⟩ := x
    obtain ⟨⟨bits', hvalid'⟩⟩ := y
    obtain rfl : bits' = bits := eq_of_beq h
    exact hy
  next => cases h

/-- The nearer one is one of the two, whatever the tie. -/
theorem nearer_eq (tie : Tie) (r : Ratio) (low : Nat) (place : Int) :
    nearer tie r low place = ⟨low, place⟩ ∨ nearer tie r low place = ⟨low + 1, place⟩ := by
  simp only [nearer]
  split
  · exact Or.inl rfl
  · exact Or.inr rfl
  · split
    · exact Or.inl rfl
    · exact Or.inr rfl

/-- Only candidates that are read back are taken from the grid of a place. -/
theorem toDouble?_onGrid {r : Ratio} {place : Int} {d : Decimal} (h : onGrid? tie x r place = some d) :
    d.toDouble? = some x := by
  apply toDouble?_of_readsAs
  simp only [onGrid?] at h
  split at h
  next hlow hhigh =>
    obtain rfl := Option.some.inj h
    rcases nearer_eq tie r _ place with heq | heq
    · rw [heq]
      exact hlow
    · rw [heq]
      exact hhigh
  next hlow _ => exact Option.some.inj h ▸ hlow
  next _ hhigh => exact Option.some.inj h ▸ hhigh
  next => cases h

/-- The shortest decimal of a finite double without a sign reads as that double. -/
theorem toDouble?_shortest {r : ℚ} (h : Denotes .positive r x.toModel.unpack) :
    (shortest tie x).toDouble? = some x := by
  show (((List.range maxDigits).findSome? fun n : ℕ =>
    onGrid? tie x (Ratio.ofDouble x) ((Ratio.ofDouble x).lead - n)).getD (exact x)).toDouble? = some x
  cases hfound : (List.range maxDigits).findSome? fun n : ℕ =>
    onGrid? tie x (Ratio.ofDouble x) ((Ratio.ofDouble x).lead - n) with
  | none => exact toDouble?_exact h
  | some d =>
    obtain ⟨n, -, hn⟩ := List.exists_of_findSome?_eq_some hfound
    exact toDouble?_onGrid hn

end FuzzyInference.Decimal

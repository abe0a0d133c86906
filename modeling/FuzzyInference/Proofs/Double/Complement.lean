import FuzzyInference.Proofs.Double.Unit
import FuzzyInference.Proofs.Scalar.Ordered

/-!
# Complements of doubles

Rounding keeps the order, also where it overflows into an infinity, and so the computed complements of
doubles lie in the opposite order of the doubles.

## Contents
- `infinity_le`, `le_infinity`: the ends of the order.
- `Rounds.mono`: rounding keeps the order.
- `complement_le`: complements lie in the opposite order. With it, doubles are `Ordered`.
-/

namespace FuzzyInference.Double

open Float.Model Float.Model.UnpackedFloat
open Scalar

variable {p q : ℚ} {x y : Float}

/-! ## Infinities -/

/-- The places of the infinities are the ends. -/
theorem rank_mem {u : UnpackedFloat} {k : ℤ ×ₗ ℤ ×ₗ ℤ} (h : rank u = some k) :
    toLex (-2, toLex (0, 0)) ≤ k ∧ k ≤ toLex (2, toLex (0, 0)) := by
  rcases u with ⟨_ | _⟩ | _ | _ | ⟨_ | _, m, e, hm⟩ <;> cases h <;> simp [Prod.Lex.toLex_le_toLex]

theorem infinity_le (hx : x.toModel.unpack = .infinity .negative) (hy : isNaN y = false) : x ≤ y := by
  obtain ⟨l, hl⟩ := not_isNaN_iff.mp hy
  have hk : rankOf x = some (toLex (-2, toLex (0, 0))) := congrArg rank hx
  exact (le_iff_of_rankOf hk hl).mpr (rank_mem hl).1

theorem le_infinity (hx : isNaN x = false) (hy : y.toModel.unpack = .infinity .positive) : x ≤ y := by
  obtain ⟨k, hk⟩ := not_isNaN_iff.mp hx
  have hl : rankOf y = some (toLex (2, toLex (0, 0))) := congrArg rank hy
  exact (le_iff_of_rankOf hk hl).mpr (rank_mem hk).2

/-- Only the positive infinity is not below itself. -/
theorem infinity_of_le (hx : x.toModel.unpack = .infinity .positive) (h : x ≤ y) :
    y.toModel.unpack = .infinity .positive := by
  have hy : isNaN y = false := (not_isNaN_of_le h).2
  have hnot : ¬ y < x := (le_iff_not_lt (not_isNaN_of_le h).1 hy).mp h
  by_cases hfinite : isFinite y = true
  · exact absurd (lt_infinity hfinite hx) hnot
  · obtain ⟨s, hs⟩ := infinity_of_not_isFinite hy hfinite
    cases s with
    | positive => exact hs
    | negative =>
      have hk : rankOf x = some (toLex (2, toLex (0, 0))) := congrArg rank hx
      have hl : rankOf y = some (toLex (-2, toLex (0, 0))) := congrArg rank hs
      exact absurd ((lt_iff_of_rankOf hl hk).mpr (by simp [Prod.Lex.toLex_lt_toLex])) hnot

/-! ## Rounding -/

/-- **Rounding keeps the order.** -/
theorem Rounds.mono (hx : Rounds p x) (hy : Rounds q y) (h : p ≤ q) : x ≤ y := by
  have hle : nearest p ≤ nearest q := nearest_mono h
  have hxnumber := hx.not_isNaN
  have hynumber := hy.not_isNaN
  -- where neither infinity is at its own end, the bounds of finite values decide
  rcases hy with ⟨hyfinite, hyvalue⟩ | ⟨-, hyinfinite⟩ | ⟨hysmall, -⟩
  · have hylarge : nearest q < tooLarge := hyvalue ▸ lt_of_abs_lt (exact_value hyfinite).lt_tooLarge
    rcases hx with ⟨hxfinite, hxvalue⟩ | ⟨hxlarge, -⟩ | ⟨-, hxinfinite⟩
    · rwa [le_iff_value hxfinite hyfinite, hxvalue, hyvalue]
    · exact absurd (hxlarge.trans hle) (not_le.mpr hylarge)
    · exact infinity_le hxinfinite hynumber
  · exact le_infinity hxnumber hyinfinite
  · have hsmall : nearest p ≤ -tooLarge := hle.trans hysmall
    rcases hx with ⟨hxfinite, hxvalue⟩ | ⟨hxlarge, -⟩ | ⟨-, hxinfinite⟩
    · have hxsmall : -tooLarge < nearest p :=
        hxvalue ▸ neg_lt_of_abs_lt (exact_value hxfinite).lt_tooLarge
      exact absurd hsmall (not_le.mpr hxsmall)
    · have hpos : 0 < tooLarge := zpow_pos two_pos _
      linarith
    · exact infinity_le hxinfinite hynumber

/-! ## Complements -/

/-- The complement of an infinity is the opposite one. -/
theorem complement_infinity {s : Sign} (h : x.toModel.unpack = .infinity s) :
    ((1.0 : Float) - x).toModel.unpack = .infinity (-s) := by
  rw [sub_eq]
  exact add_infinity within_one.finite (neg_infinity h)

/-- **Complements lie in the opposite order.** -/
theorem complement_le (h : x ≤ y) : (1.0 : Float) - y ≤ 1.0 - x := by
  have hone := within_one.finite
  obtain ⟨hx, hy⟩ := not_isNaN_of_le h
  have hend : y.toModel.unpack = .infinity .positive → (1.0 : Float) - y ≤ 1.0 - x := fun hinfinite =>
    infinity_le (complement_infinity hinfinite) (not_isNaN_finite_sub hone hx)
  by_cases hxfinite : isFinite x = true
  · rcases (finite_le_iff hxfinite).mp h with ⟨hyfinite, hle⟩ | hinfinite
    · exact (rounds_sub hone hyfinite).mono (rounds_sub hone hxfinite) (sub_le_sub_left hle _)
    · exact hend hinfinite
  · obtain ⟨s, hs⟩ := infinity_of_not_isFinite hx hxfinite
    cases s with
    | positive => exact hend (infinity_of_le hs h)
    | negative => exact le_infinity (not_isNaN_finite_sub hone hy) (complement_infinity hs)

instance : Ordered Float where
  not_isNaN_of_le := not_isNaN_of_le
  le_total {x y} hx hy := by
    by_cases h : y < x
    · exact Or.inr (le_of_less h)
    · exact Or.inl ((le_iff_not_lt hx hy).mpr h)
  le_trans := trans_of_le
  lt_iff {x y} hx hy := by
    have h : y ≤ x ↔ ¬ x < y := le_iff_not_lt hy hx
    show x < y ↔ ¬ y ≤ x
    rw [h, not_not]
  beq_iff {x y} := by
    constructor
    · intro h
      obtain ⟨k, hx, hy⟩ := Double.beq_iff.mp h
      exact ⟨(le_iff_of_rankOf hx hy).mpr le_rfl, (le_iff_of_rankOf hy hx).mpr le_rfl⟩
    · rintro ⟨hxy, hyx⟩
      obtain ⟨k, l, hk, hl, hkl⟩ := le_iff.mp hxy
      exact (beq_iff_of_rankOf hk hl).mpr (le_antisymm hkl ((le_iff_of_rankOf hl hk).mp hyx))
  not_isNaN_complement := not_isNaN_finite_sub within_one.finite
  complement_le := complement_le

end FuzzyInference.Double

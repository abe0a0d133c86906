import FuzzyInference.Proofs.Double.Arithmetic
import Mathlib.Data.Prod.Lex
import Mathlib.Order.Compare

/-!
# The order of doubles

Doubles are compared field by field: by sign and kind first, then by exponent, then by significand. So
every double but NaN has a place in a linear order, the two zeros the same one, and a comparison of
doubles is a comparison of places; NaN has none and compares with nothing.

## Contents
- `rank`, `rankOf`: the place of a double. `compare_eq`: comparing is comparing places.
- `lt_iff`, `le_iff`, `beq_iff`, `isNaN_iff`: the comparisons one by one.
- `not_isNaN_of_lt`, `not_isNaN_of_le`, `not_isNaN_of_isFinite`: what compares is a number.
- `eq_of_rankOf_eq`: positive doubles of one place are one double.
-/

namespace FuzzyInference.Double

open Float.Model Float.Model.UnpackedFloat

/-! ## Places -/

/-- The place of an unpacked double: its kind, then its exponent, then its significand. -/
def rank : UnpackedFloat → Option (ℤ ×ₗ ℤ ×ₗ ℤ)
  | .notANumber => none
  | .infinity .negative => some (toLex (-2, toLex (0, 0)))
  | .finite .negative m e _ => some (toLex (-1, toLex (-e, -(m : ℤ))))
  | .zero _ => some (toLex (0, toLex (0, 0)))
  | .finite .positive m e _ => some (toLex (1, toLex (e, (m : ℤ))))
  | .infinity .positive => some (toLex (2, toLex (0, 0)))

/-- The place of a double. -/
def rankOf (x : Float) : Option (ℤ ×ₗ ℤ ×ₗ ℤ) := rank x.toModel.unpack

/-- In a lexicographic order the second component counts where the first ones are equal. -/
theorem cmp_toLex {α β : Type} [LinearOrder α] [LinearOrder β] (a a' : α) (b b' : β) :
    cmp (toLex (a, b)) (toLex (a', b')) = (cmp a a').then (cmp b b') := by
  rcases lt_trichotomy a a' with h | rfl | h
  · rw [h.cmp_eq_lt, (Prod.Lex.toLex_lt_toLex.mpr (Or.inl h)).cmp_eq_lt]
    rfl
  · rw [cmp_self_eq_eq]
    rcases lt_trichotomy b b' with h | rfl | h
    · have hlt : toLex (a, b) < toLex (a, b') := Prod.Lex.toLex_lt_toLex.mpr (Or.inr ⟨rfl, h⟩)
      rw [h.cmp_eq_lt, hlt.cmp_eq_lt]
      rfl
    · rw [cmp_self_eq_eq, cmp_self_eq_eq]
      rfl
    · have hlt : toLex (a, b') < toLex (a, b) := Prod.Lex.toLex_lt_toLex.mpr (Or.inr ⟨rfl, h⟩)
      rw [h.cmp_eq_gt, hlt.cmp_eq_gt]
      rfl
  · rw [h.cmp_eq_gt, (Prod.Lex.toLex_lt_toLex.mpr (Or.inl h)).cmp_eq_gt]
    rfl

theorem cmp_neg (a b : ℤ) : cmp (-a) (-b) = (compare a b).swap := by
  rw [← cmp_eq_compare, cmp_swap]
  simp [cmp, cmpUsing]

theorem cmp_natCast (m n : ℕ) : cmp (m : ℤ) (n : ℤ) = compare m n := by
  rw [← cmp_eq_compare]
  simp [cmp, cmpUsing]

/-- **Comparing is comparing places.** -/
theorem compare_eq (u v : UnpackedFloat) :
    u.compare v = (rank u).bind fun k => (rank v).map fun l => cmp k l := by
  rcases u with ⟨_ | _⟩ | _ | _ | ⟨_ | _, m, e, hm⟩ <;>
    rcases v with ⟨_ | _⟩ | _ | _ | ⟨_ | _, n, f, hn⟩ <;>
    simp only [rank, Option.bind_some, Option.map_some, Option.bind_none, Option.map_none, cmp_toLex]
  case finite.negative.finite.negative =>
    rw [cmp_self_eq_eq, cmp_neg, cmp_neg, ← cmp_eq_compare (m : ℤ), cmp_natCast]
    show some ((compare e f).then (compare m n)).swap = _
    rw [Ordering.swap_then]
    rfl
  case finite.positive.finite.positive =>
    rw [cmp_natCast, cmp_eq_compare e, cmp_self_eq_eq]
    rfl
  all_goals rfl

/-! ## Comparisons -/

/-- The order of doubles is the order of their ranks, and NaN has none. -/
theorem lt_iff {x y : Float} :
    x < y ↔ ∃ k l, rankOf x = some k ∧ rankOf y = some l ∧ k < l := by
  have hmodel : x < y ↔ ((x.toModel.unpack.compare y.toModel.unpack) == some .lt) = true :=
    decide_eq_true_iff
  rw [hmodel, compare_eq, ← rankOf, ← rankOf]
  cases rankOf x <;> cases rankOf y <;> simp

theorem le_iff {x y : Float} :
    x ≤ y ↔ ∃ k l, rankOf x = some k ∧ rankOf y = some l ∧ k ≤ l := by
  have hmodel : x ≤ y ↔ ((x.toModel.unpack.compare y.toModel.unpack).any (·.isLE)) = true :=
    decide_eq_true_iff
  rw [hmodel, compare_eq, ← rankOf, ← rankOf]
  cases rankOf x <;> cases rankOf y <;> simp [cmp_eq_compare, Ordering.isLE_iff_ne_gt, compare_le_iff_le]

/-- Doubles are equal by rank, so the two zeros are. -/
theorem beq_iff {x y : Float} :
    (x == y) = true ↔ ∃ k, rankOf x = some k ∧ rankOf y = some k := by
  have hmodel : (x == y) = ((x.toModel.unpack.compare y.toModel.unpack) == some .eq) := rfl
  rw [hmodel, compare_eq, ← rankOf, ← rankOf]
  cases rankOf x with
  | none => simp
  | some k =>
    cases rankOf y with
    | none => simp
    | some l => simpa using eq_comm

theorem isNaN_iff {x : Float} : Scalar.isNaN x = true ↔ rankOf x = none := by
  show x.toModel.unpack.isNaN = true ↔ _
  unfold rankOf
  rcases x.toModel.unpack with ⟨_ | _⟩ | _ | _ | ⟨_ | _, m, e, hm⟩ <;> simp [rank, UnpackedFloat.isNaN]

/-! ## What compares -/

theorem not_isNaN_iff {x : Float} : Scalar.isNaN x = false ↔ ∃ k, rankOf x = some k := by
  rw [← Bool.not_eq_true, isNaN_iff, ← ne_eq, Option.ne_none_iff_exists']

/-- What compares is a number. -/
theorem not_isNaN_of_lt {x y : Float} (h : x < y) :
    Scalar.isNaN x = false ∧ Scalar.isNaN y = false := by
  obtain ⟨k, l, hk, hl, -⟩ := lt_iff.mp h
  exact ⟨not_isNaN_iff.mpr ⟨k, hk⟩, not_isNaN_iff.mpr ⟨l, hl⟩⟩

theorem not_isNaN_of_le {x y : Float} (h : x ≤ y) :
    Scalar.isNaN x = false ∧ Scalar.isNaN y = false := by
  obtain ⟨k, l, hk, hl, -⟩ := le_iff.mp h
  exact ⟨not_isNaN_iff.mpr ⟨k, hk⟩, not_isNaN_iff.mpr ⟨l, hl⟩⟩

theorem not_isNaN_of_isFinite {x : Float} (h : Scalar.isFinite x = true) : Scalar.isNaN x = false := by
  unfold Scalar.isFinite at h
  simpa using (Bool.and_eq_true_iff.mp h).1

/-! ## Doubles of one place -/

/-- The fields of an infinity are its sign, the largest exponent and no fraction. -/
theorem bits_of_infinity {x : Float} {s : Sign} (h : x.toModel.unpack = .infinity s) :
    x.toBits.toNat % 2 ^ 52 = 0 ∧ x.toBits.toNat / 2 ^ 52 % 2 ^ 11 = 2047 ∧
      Sign.ofBitVec (@unpackSign .binary64 x.toModel.toBits.toBitVec) = s := by
  have hbits : x.toBits.toNat = x.toModel.toBits.toBitVec.toNat := rfl
  change UnpackedFloat.unpack .binary64 x.toModel.toBits.toBitVec = _ at h
  rw [hbits]
  generalize x.toModel.toBits.toBitVec = b at h ⊢
  rw [← toNat_unpackMantissa, ← toNat_unpackExponent]
  unfold UnpackedFloat.unpack at h
  dsimp only at h
  split at h
  · rename_i hexponent
    split at h
    · rename_i hmantissa
      exact ⟨by rw [hmantissa]; rfl, by rw [hexponent]; decide, by simpa using h⟩
    · cases h
  · split at h
    · split at h <;> cases h
    · cases h

/-- There is one infinity of each sign. -/
theorem eq_of_infinity {x y : Float} {s : Sign} (hx : x.toModel.unpack = .infinity s)
    (hy : y.toModel.unpack = .infinity s) : x = y := by
  obtain ⟨hxm, hxe, hxs⟩ := bits_of_infinity hx
  obtain ⟨hym, hye, hys⟩ := bits_of_infinity hy
  have hsign : ∀ b c : BitVec 1, Sign.ofBitVec b = Sign.ofBitVec c → b = c := by
    intro b c h
    rcases BitVec.eq_zero_or_eq_one b with rfl | rfl <;>
      rcases BitVec.eq_zero_or_eq_one c with rfl | rfl <;> first | rfl | cases h
  have hsame := congrArg BitVec.toNat (hsign _ _ (hxs.trans hys.symm))
  have hbits : x.toBits.toNat = y.toBits.toNat := by
    have hx64 := x.toBits.toNat_lt
    have hy64 := y.toBits.toNat_lt
    have hxs' : (@unpackSign .binary64 x.toModel.toBits.toBitVec).toNat = x.toBits.toNat / 2 ^ 63 % 2 :=
      toNat_unpackSign _
    have hys' : (@unpackSign .binary64 y.toModel.toBits.toBitVec).toNat = y.toBits.toNat / 2 ^ 63 % 2 :=
      toNat_unpackSign _
    rw [hxs', hys'] at hsame
    omega
  obtain ⟨⟨bits, hvalid⟩⟩ := x
  obtain ⟨⟨bits', hvalid'⟩⟩ := y
  obtain rfl : bits = bits' := UInt64.toNat_inj.mp hbits
  rfl

/-- Both zeros rank as 0. -/
theorem rankOf_zero : rankOf 0.0 = some (toLex (0, toLex (0, 0))) := by
  rw [rankOf, unpack_zero]
  rfl

/-- The positive doubles are the positive finite ones and the positive infinity. -/
theorem pos_iff {x : Float} :
    0.0 < x ↔ (∃ m e h, x.toModel.unpack = .finite .positive m e h) ∨
      x.toModel.unpack = .infinity .positive := by
  rw [lt_iff, rankOf_zero, rankOf]
  rcases x.toModel.unpack with ⟨_ | _⟩ | _ | _ | ⟨_ | _, m, e, hm⟩ <;>
    simp [rank, Prod.Lex.toLex_lt_toLex]
  case finite.positive => exact hm

/-- Positive doubles of one place are one double. -/
theorem eq_of_rankOf_eq {x y : Float} (hx : 0.0 < x) (hy : 0.0 < y) (h : rankOf x = rankOf y) :
    x = y := by
  rcases pos_iff.mp hx with ⟨m, e, hm, hx'⟩ | hx' <;>
    rcases pos_iff.mp hy with ⟨n, f, hn, hy'⟩ | hy' <;> rw [rankOf, rankOf, hx', hy'] at h
  · -- finite, with the same fields
    have hfields : m = n ∧ e = f := by simpa [rank, and_comm] using h
    obtain ⟨rfl, rfl⟩ := hfields
    have hfinite : Scalar.isFinite x = true := by
      show (!x.toModel.unpack.isNaN && !x.toModel.unpack.isInf) = true
      rw [hx']
      rfl
    have hdenotes := denotes_unpack hfinite
    exact eq_of_denotes hdenotes (by rw [hy', ← hx']; exact hdenotes)
  · simp [rank] at h
  · simp [rank] at h
  · exact eq_of_infinity hx' hy'

end FuzzyInference.Double

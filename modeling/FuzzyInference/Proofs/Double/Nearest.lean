import FuzzyInference.Proofs.Double.Value

/-!
# Operations round

Sums, differences, products and quotients of finite doubles are the exact results, rounded, or an
infinity where that is too large.

## Contents
- `Rounds`: what an operation makes of its exact result. `Rounds.mem`: it stays between values of
  doubles.
- `rounds_add`, `rounds_sub`, `rounds_mul`, `rounds_div`: the operations.
- `sub_eq`, `unpack_neg`: a difference is the sum with the opposite, for every two doubles.
-/

namespace FuzzyInference.Double

open Float.Model Float.Model.UnpackedFloat
open Scalar

/-! ## Operations -/

/-- The double is the number, rounded, or the infinity beyond if that is too large. -/
def Rounds (q : ℚ) (z : Float) : Prop :=
  (isFinite z = true ∧ value z = nearest q) ∨
    (tooLarge ≤ nearest q ∧ z.toModel.unpack = .infinity .positive) ∨
      (nearest q ≤ -tooLarge ∧ z.toModel.unpack = .infinity .negative)

/-- A nearest double with its sign is a rounded signed number. -/
theorem rounds_of_isNearest {s : Sign} {r : ℚ} {z : Float} (h0 : 0 ≤ r) (h : IsNearest s r z) :
    Rounds (signed s r) z := by
  have hnearest := nearest_signed s h0
  unfold IsNearest at h
  split at h
  · exact Or.inl ⟨(denotes_iff.mp h).1, by rw [h.value_eq, hnearest]⟩
  · rename_i hlarge
    rw [not_lt] at hlarge
    unfold Rounds
    rw [hnearest]
    cases s
    · exact Or.inr (Or.inr ⟨neg_le_neg hlarge, h⟩)
    · exact Or.inr (Or.inl ⟨hlarge, h⟩)

variable {q : ℚ} {x y z : Float}

/-- **What lies between values of doubles is rounded to something between them.** -/
theorem Rounds.mem (h : Rounds q z) {a b : ℚ} (ha : Exact a) (hb : Exact b) (haq : a ≤ q) (hqb : q ≤ b) :
    isFinite z = true ∧ a ≤ value z ∧ value z ≤ b := by
  have hlow : a ≤ nearest q := ha.nearest_eq ▸ nearest_mono haq
  have hhigh : nearest q ≤ b := hb.nearest_eq ▸ nearest_mono hqb
  have hlow' : -tooLarge < nearest q := (neg_lt_of_abs_lt ha.lt_tooLarge).trans_le hlow
  have hhigh' : nearest q < tooLarge := hhigh.trans_lt (lt_of_abs_lt hb.lt_tooLarge)
  rcases h with ⟨hz, hv⟩ | ⟨hlarge, -⟩ | ⟨hsmall, -⟩
  · rw [hv]
    exact ⟨hz, hlow, hhigh⟩
  · exact absurd hhigh' (not_lt.mpr hlarge)
  · exact absurd hlow' (not_lt.mpr hsmall)

theorem not_isFinite_of_infinity {s : Sign} (h : x.toModel.unpack = .infinity s) : isFinite x = false := by
  show (!x.toModel.unpack.isNaN && !x.toModel.unpack.isInf) = false
  rw [h]
  rfl

theorem Rounds.value_eq (h : Rounds q z) (hz : isFinite z = true) : value z = nearest q := by
  rcases h with ⟨-, hv⟩ | ⟨-, hs⟩ | ⟨-, hs⟩
  · exact hv
  all_goals
    rw [not_isFinite_of_infinity hs] at hz
    cases hz

theorem Rounds.not_isNaN (h : Rounds q z) : isNaN z = false := by
  rcases h with ⟨hz, -⟩ | ⟨-, hz⟩ | ⟨-, hz⟩
  · exact not_isNaN_of_isFinite hz
  all_goals
    show z.toModel.unpack.isNaN = false
    rw [hz]
    rfl

/-- A significand with a sign is rounded by magnitude. -/
theorem denotes_normalize (k e : ℤ) :
    ∃ w r, 0 ≤ r ∧ signed w r = k * 2 ^ e ∧
      Denotes w (rounded r) (UnpackedFloat.normalize .binary64 k e .positive) := by
  rw [UnpackedFloat.normalize]
  rcases lt_trichotomy k 0 with hneg | rfl | hpos
  · rw [Int.compare_eq_lt.mpr hneg]
    have hk : ((-k).toNat : ℤ) = -k := Int.toNat_of_nonneg (by omega)
    refine ⟨.negative, (-k).toNat * 2 ^ e, by positivity, ?_, denotes_round (by omega) _ e⟩
    rw [signed, ← Int.cast_natCast, hk, Int.cast_neg, neg_mul, neg_neg]
  · rw [Int.compare_eq_eq.mpr rfl]
    exact ⟨.positive, 0, le_rfl, by simp [signed], by rw [rounded_zero]; exact .zero⟩
  · rw [Int.compare_eq_gt.mpr hpos]
    have hk : (k.toNat : ℤ) = k := Int.toNat_of_nonneg (by omega)
    refine ⟨.positive, k.toNat * 2 ^ e, by positivity, ?_, denotes_round (by omega) _ e⟩
    rw [signed, ← Int.cast_natCast, hk]

/-- A significand is aligned to a smaller exponent. -/
theorem signed_shiftLeft (s : Sign) (m : ℕ) {e f : ℤ} (h : f ≤ e) :
    ((s.apply ((m <<< (e - f).toNat : ℕ) : ℤ) : ℤ) : ℚ) * 2 ^ f = signed s (m * 2 ^ e) := by
  have hvalue : (((m <<< (e - f).toNat : ℕ) : ℤ) : ℚ) * 2 ^ f = m * 2 ^ e := by
    rw [Int.cast_natCast, shiftLeft_cast, ← zpow_natCast, Int.toNat_of_nonneg (by omega), mul_assoc,
      ← zpow_add₀ (by norm_num), sub_add_cancel]
  cases s
  · rw [Sign.apply, Int.cast_neg, neg_mul, hvalue]
    rfl
  · exact hvalue

/-- The sum of canonical forms is the exact sum, rounded. -/
theorem Denotes.add {s t : Sign} {p q : ℚ} {u v : UnpackedFloat} (hu : Denotes s p u) (hv : Denotes t q v) :
    ∃ w r, 0 ≤ r ∧ signed w r = signed s p + signed t q ∧
      Denotes w (rounded r) (UnpackedFloat.add .binary64 u v) := by
  cases hu with
  | zero =>
    rw [signed_zero, zero_add]
    cases hv with
    | zero =>
      refine ⟨if s == t then s else .positive, 0, le_rfl, by rw [signed_zero, signed_zero], ?_⟩
      rw [rounded_zero]
      cases s <;> cases t <;> exact .zero
    | @finite n f hn =>
      refine ⟨t, n * 2 ^ f, hn.value_pos.le, rfl, ?_⟩
      rw [rounded_eq_self hn.lt hn.le]
      exact .finite hn
  | @finite m e hm =>
    cases hv with
    | zero =>
      refine ⟨s, m * 2 ^ e, hm.value_pos.le, by rw [signed_zero, add_zero], ?_⟩
      rw [rounded_eq_self hm.lt hm.le]
      exact .finite hm
    | @finite n f hn =>
      -- both significands at the smaller exponent, added as integers and rounded once
      obtain ⟨w, r, h0, hr, hround⟩ := denotes_normalize
        (s.apply ((m <<< (e - min e f).toNat : ℕ) : ℤ) + t.apply ((n <<< (f - min e f).toNat : ℕ) : ℤ))
        (min e f)
      refine ⟨w, r, h0, ?_, hround⟩
      rw [hr, Int.cast_add, add_mul, signed_shiftLeft s m (min_le_left e f),
        signed_shiftLeft t n (min_le_right e f)]

/-- Addition of finite doubles rounds once, as do the three other operations below. -/
theorem rounds_add (hx : isFinite x = true) (hy : isFinite y = true) :
    Rounds (value x + value y) (x + y) := by
  obtain ⟨w, r, h0, hr, hround⟩ := (denotes_unpack hx).add (denotes_unpack hy)
  have hvalue : value x + value y = signed w r := hr.symm
  rw [hvalue]
  exact rounds_of_isNearest h0 (isNearest_pack hround)

theorem unpack_pack_infinity (s : Sign) : (Float.Model.pack (.infinity s)).unpack = .infinity s := by
  show UnpackedFloat.unpack .binary64 (UnpackedFloat.pack .binary64 (.infinity s)) = _
  rw [UnpackedFloat.pack, packedInfinity, UnpackedFloat.unpack]
  simp only [unpackSign_packComponents, unpackExponent_packComponents, unpackMantissa_packComponents]
  rfl

theorem unpack_pack_notANumber : (Float.Model.pack .notANumber).unpack = .notANumber :=
  unpack_packedNaN

/-- A double is finite, an infinity or NaN. -/
theorem unpack_cases (x : Float) : isFinite x = true ∨ (∃ s, x.toModel.unpack = .infinity s) ∨
    x.toModel.unpack = .notANumber := by
  have hfinite : isFinite x = (!x.toModel.unpack.isNaN && !x.toModel.unpack.isInf) := rfl
  rw [hfinite]
  cases x.toModel.unpack with
  | notANumber => exact Or.inr (Or.inr rfl)
  | infinity s => exact Or.inr (Or.inl ⟨s, rfl⟩)
  | _ => exact Or.inl rfl

theorem value_neg (hx : isFinite x = true) : isFinite (-x) = true ∧ value (-x) = -value x := by
  have hneg := denotes_neg (denotes_unpack hx)
  exact ⟨(denotes_iff.mp hneg).1, by rw [hneg.value_eq, signed_neg]; rfl⟩

/-- A difference is the sum with the opposite. -/
theorem model_sub_eq (u v : UnpackedFloat) :
    UnpackedFloat.sub .binary64 u v = UnpackedFloat.add .binary64 u v.neg := by
  cases u with
  | notANumber => cases v <;> rfl
  | infinity s => cases v <;> rfl
  | zero s =>
    cases v with
    | zero t => rfl
    | _ => rfl
  | finite s m e hm =>
    cases v with
    | finite t n f hn =>
      have happly : ∀ k : ℤ, (-t).apply k = -t.apply k := by
        intro k
        cases t
        · exact (neg_neg k).symm
        · rfl
      simp only [UnpackedFloat.sub, UnpackedFloat.add, UnpackedFloat.neg, happly, ← sub_eq_add_neg]
    | _ => rfl

/-- Negation flips the sign of the unpacked double, NaN staying as it is. -/
theorem unpack_neg (y : Float) : (-y).toModel.unpack = y.toModel.unpack.neg := by
  show (Float.Model.pack y.toModel.unpack.neg).unpack = _
  rcases unpack_cases y with hy | ⟨s, hy⟩ | hy
  · have hdenotes := denotes_unpack hy
    exact unpack_pack hdenotes.neg hdenotes.lt_tooLarge
  · rw [hy]
    exact unpack_pack_infinity (-s)
  · rw [hy]
    exact unpack_pack_notANumber

/-- Subtraction is addition of the negated double. -/
theorem sub_eq (x y : Float) : x - y = x + -y := by
  show Float.ofModel (Float.Model.pack (UnpackedFloat.sub .binary64 x.toModel.unpack y.toModel.unpack)) =
    Float.ofModel (Float.Model.pack (UnpackedFloat.add .binary64 x.toModel.unpack (-y).toModel.unpack))
  rw [unpack_neg, model_sub_eq]

theorem rounds_sub (hx : isFinite x = true) (hy : isFinite y = true) :
    Rounds (value x - value y) (x - y) := by
  obtain ⟨hy', hv⟩ := value_neg hy
  rw [sub_eq, sub_eq_add_neg, ← hv]
  exact rounds_add hx hy'

theorem rounds_mul (hx : isFinite x = true) (hy : isFinite y = true) :
    Rounds (value x * value y) (x * y) := by
  have hmul := isNearest_mul (denotes_unpack hx) (denotes_unpack hy)
  rw [value, value, ← signed_mul]
  exact rounds_of_isNearest (mul_nonneg (denotes_unpack hx).nonneg (denotes_unpack hy).nonneg) hmul

theorem rounds_div (hx : isFinite x = true) (hy : isFinite y = true) (h : value y ≠ 0) :
    Rounds (value x / value y) (x / y) := by
  have hzero : magnitude y ≠ 0 := by
    intro h0
    rw [value, h0, signed_zero] at h
    exact h rfl
  have hdiv := isNearest_div (denotes_unpack hx) (denotes_unpack hy) hzero
  rw [value, value, ← signed_div]
  exact rounds_of_isNearest (div_nonneg (denotes_unpack hx).nonneg (denotes_unpack hy).nonneg) hdiv

end FuzzyInference.Double

import FuzzyInference.Decimal.Basic
import FuzzyInference.Proofs.Double.Arithmetic

/-!
# Reading decimals

A decimal reads as the double nearest to its value, and does not read if that is infinite. So how the
value is split into coefficient and exponent does not matter.

## Contents
- `Decimal.value`: the number that a decimal stands for.
- `isNearest_ofScientific`: the machine's conversion, on both of its paths.
- `toDouble?_eq_some_iff`: what a decimal reads as.
-/

namespace FuzzyInference

open Float.Model Float.Model.UnpackedFloat Double

/-! ## The machine's conversion -/

namespace Double

/-- A whole number of at most 53 bits before its zeros is converted as it is. -/
theorem denotes_ofNat {m k : ℕ} (hm : 0 < m) (hbits : m < 2 ^ 53) (hlt : m * 2 ^ k < 2 ^ 200) :
    Denotes .positive ((m * 2 ^ k : ℕ) : ℚ) (Float.Model.ofNat (m * 2 ^ k)).unpack := by
  have hself : rounded ((m * 2 ^ k : ℕ) : ℚ) = ((m * 2 ^ k : ℕ) : ℚ) := by
    have := rounded_eq_self hbits (e := k) (by omega)
    rw [zpow_natCast] at this
    push_cast
    exact this
  refine (isNearest_ofNat (Nat.mul_pos hm (Nat.two_pow_pos k))).denotes hself ?_
  calc ((m * 2 ^ k : ℕ) : ℚ) < ((2 ^ 200 : ℕ) : ℚ) := Nat.cast_lt.mpr hlt
    _ = (2 : ℚ) ^ (200 : ℤ) := by
        rw [Nat.cast_pow, Nat.cast_ofNat]
        rfl
    _ ≤ tooLarge := zpow_le_zpow_right₀ one_le_two (by norm_num)

/-- The machine's powers of ten are its conversions of them. -/
theorem table_eq : ∀ k : Fin 23, Float.exactlyRepresentablePowersOfTen[k] =
    .ofModel (Float.Model.ofNat (5 ^ k.val * 2 ^ k.val)) := by
  decide +kernel

/-- The last of them has 52 bits before the zeros. -/
theorem denotes_table : ∀ k : Fin 23,
    Denotes .positive ((10 : ℚ) ^ k.val) (Float.exactlyRepresentablePowersOfTen[k]).toModel.unpack := by
  rintro ⟨k, hk⟩
  rw [table_eq]
  have hbits : 5 ^ k < 2 ^ 53 :=
    lt_of_le_of_lt (Nat.pow_le_pow_right (by norm_num) (Nat.le_of_lt_succ hk)) (by norm_num)
  have hlt : 5 ^ k * 2 ^ k < 2 ^ 200 := by
    rw [← Nat.mul_pow]
    calc 10 ^ k ≤ 10 ^ 22 := Nat.pow_le_pow_right (by norm_num) (Nat.le_of_lt_succ hk)
      _ < 2 ^ 80 := by norm_num
      _ ≤ 2 ^ 200 := Nat.pow_le_pow_right (by norm_num) (by norm_num)
  have hvalue : ((5 ^ k * 2 ^ k : ℕ) : ℚ) = 10 ^ k := by
    rw [← Nat.mul_pow]
    push_cast
    norm_num
  rw [← hvalue]
  exact denotes_ofNat (Nat.pow_pos (by norm_num)) hbits hlt

theorem denotes_toFloat {m : ℕ} (hm : 0 < m) (hlt : m < 2 ^ 53) :
    Denotes .positive m m.toUInt64.toFloat.toModel.unpack := by
  have hsmall : m < 2 ^ 200 := hlt.trans_le (Nat.pow_le_pow_right (by norm_num) (by norm_num))
  have hdenotes := denotes_ofNat (k := 0) hm hlt (by rwa [pow_zero, mul_one])
  rw [pow_zero, mul_one] at hdenotes
  have hconvert : m.toUInt64.toNat = m := by
    show m % 2 ^ 64 = m
    omega
  show Denotes _ _ (Float.Model.ofNat m.toUInt64.toNat).unpack
  rw [hconvert]
  exact hdenotes

/-- The slow path takes the power of ten as a whole number. -/
theorem denotes_ofScientific {m : ℕ} (hm : 0 < m) {e : ℤ} (hlow : -(2 ^ 11 + (m.log2 : ℤ)) ≤ e)
    (hhigh : e ≤ 2 ^ 11) :
    Denotes .positive (rounded (m * 10 ^ e)) (UnpackedFloat.ofScientific .binary64 m e) := by
  rw [UnpackedFloat.ofScientific, dif_neg hm.ne', if_neg (by simpa using hhigh),
    if_neg (by simpa using hlow)]
  by_cases he : 0 ≤ e
  · -- a power of ten is multiplied with 53 spare bits, so that no bit of the product is lost
    have hpow : (10 : ℚ) ^ e = (10 ^ e.toNat : ℕ) := by
      rw [Nat.cast_pow, Nat.cast_ofNat, ← zpow_natCast, Int.toNat_of_nonneg he]
    have hvalue : (m : ℚ) * (10 : ℚ) ^ e =
        (m <<< 53 : ℕ) * 2 ^ (-53 : ℤ) * ((10 ^ e.toNat : ℕ) * 2 ^ (0 : ℤ)) := by
      rw [hpow, zpow_zero, mul_one, shiftLeft_cast, mul_assoc (m : ℚ), ← zpow_natCast,
        ← zpow_add₀ (by norm_num)]
      norm_num
    have hone : (1 : ℚ) ≤ m * 10 ^ e := by
      rw [hpow]
      exact_mod_cast Nat.mul_pos hm (Nat.pow_pos (by norm_num))
    have hspare : (-53 : ℤ) + 0 ≤ quantum (m * 10 ^ e) := by
      have hlog : 0 ≤ Int.log 2 ((m : ℚ) * 10 ^ e) := by
        rw [← Int.zpow_le_iff_le_log (by norm_num) (by linarith), zpow_zero]
        exact hone
      unfold quantum
      omega
    rw [hvalue] at hspare ⊢
    rw [if_pos he]
    exact denotes_mul _ _ .positive .positive hspare
  · -- below 1 the power divides instead
    have hvalue : (m : ℚ) * 10 ^ e = m * 2 ^ (0 : ℤ) / ((10 ^ (-e).toNat : ℕ) * 2 ^ (0 : ℤ)) := by
      rw [zpow_zero, mul_one, mul_one, Nat.cast_pow, Nat.cast_ofNat, ← zpow_natCast,
        Int.toNat_of_nonneg (by omega), zpow_neg, div_inv_eq_mul]
    rw [hvalue, if_neg he]
    exact denotes_div hm _ .positive .positive 0 0

/-- Both paths of the conversion give the nearest double. -/
theorem isNearest_ofScientific {m : ℕ} (hm : 0 < m) {e : ℤ} (hlow : -(2 ^ 11 + (m.log2 : ℤ)) ≤ e)
    (hhigh : e ≤ 2 ^ 11) :
    IsNearest .positive (m * 10 ^ e) (Float.ofScientific m (e < 0) e.natAbs) := by
  unfold Float.ofScientific
  by_cases hfast : m < 2 ^ 53 ∧ e.natAbs ≤ 22
  · -- both operands are exact, so there is a single rounding
    have hoperand := denotes_toFloat hm hfast.1
    have htable := denotes_table ⟨e.natAbs, Nat.lt_succ_of_le hfast.2⟩
    rw [dif_pos hfast]
    by_cases he : e < 0
    · have hvalue : (m : ℚ) * 10 ^ e = m / 10 ^ e.natAbs := by
        rw [← zpow_natCast, Int.ofNat_natAbs_of_nonpos he.le, zpow_neg, div_inv_eq_mul]
      rw [if_pos (decide_eq_true he), hvalue]
      exact isNearest_div hoperand htable (pow_ne_zero _ (by norm_num))
    · have hvalue : (m : ℚ) * 10 ^ e = m * 10 ^ e.natAbs := by
        rw [← zpow_natCast, Int.natAbs_of_nonneg (not_lt.mp he)]
      rw [if_neg (by simpa using he), hvalue]
      exact isNearest_mul hoperand htable
  · -- the sign and the size of the exponent are put together again
    rw [dif_neg hfast]
    have hexponent : (if (decide (e < 0)) = true then Int.negOfNat e.natAbs else Int.ofNat e.natAbs) = e := by
      by_cases he : e < 0
      · rw [if_pos (decide_eq_true he), Int.negOfNat_eq]
        show -(e.natAbs : ℤ) = e
        omega
      · rw [if_neg (by simpa using he)]
        show (e.natAbs : ℤ) = e
        omega
    simp only [hexponent]
    exact isNearest_pack (denotes_ofScientific hm hlow hhigh)

end Double

namespace Decimal

variable {d : Decimal}

/-- The number that a decimal stands for. -/
def value (d : Decimal) : ℚ := d.coefficient * 10 ^ d.exponent

/-- The leading digit counts a power of ten that the value reaches, -/
theorem zpow_lead_le (h : d.coefficient ≠ 0) : 10 ^ d.lead ≤ d.value := by
  have hpos : 0 < d.digits.length := Nat.length_toDigits_pos
  have hle : 10 ^ (d.digits.length - 1) ≤ d.coefficient := by
    by_cases hone : d.digits.length = 1
    · rw [hone]
      exact Nat.pos_of_ne_zero h
    · by_contra hlt
      have := (Nat.length_toDigits_le_iff (b := 10) (by norm_num) (by omega)).mpr (not_le.mp hlt)
      change d.digits.length ≤ d.digits.length - 1 at this
      omega
  calc (10 : ℚ) ^ d.lead = 10 ^ (d.digits.length - 1) * 10 ^ d.exponent := by
        rw [← zpow_natCast, ← zpow_add₀ (by norm_num), lead]
        congr 1
        omega
    _ ≤ d.value := by
        apply mul_le_mul_of_nonneg_right _ (zpow_pos (by norm_num) _).le
        exact_mod_cast hle

/-- and the next one it does not. -/
theorem value_lt (d : Decimal) : d.value < 10 ^ (d.lead + 1) := by
  have hlt : d.coefficient < 10 ^ d.digits.length :=
    (Nat.length_toDigits_le_iff (by norm_num) Nat.length_toDigits_pos).mp le_rfl
  calc d.value < 10 ^ d.digits.length * 10 ^ d.exponent := by
        apply mul_lt_mul_of_pos_right _ (zpow_pos (by norm_num) _)
        exact_mod_cast hlt
    _ = 10 ^ (d.lead + 1) := by
        rw [← zpow_natCast, ← zpow_add₀ (by norm_num), lead]
        congr 1
        omega

/-- Between the two ends the machine's own guards let every decimal through. -/
theorem guard_low (d : Decimal) (h : underflowLead ≤ d.lead) :
    -(2 ^ 11 + (d.coefficient.log2 : ℤ)) ≤ d.exponent := by
  have hlength : d.digits.length ≤ d.coefficient.log2 + 1 := by
    apply (Nat.length_toDigits_le_iff (by norm_num) (Nat.succ_pos _)).mpr
    exact lt_of_lt_of_le Nat.lt_log2_self (Nat.pow_le_pow_left (by norm_num) _)
  unfold underflowLead lead at h
  omega

/-- A decimal below the overflow bound has an exponent that the table reaches. -/
theorem guard_high (d : Decimal) (h : d.lead < overflowLead) : d.exponent ≤ 2 ^ 11 := by
  have hlength : 0 < d.digits.length := Nat.length_toDigits_pos
  unfold overflowLead lead at h
  omega

/-- At the overflow bound a decimal is too large for a double. -/
theorem tooLarge_le : tooLarge ≤ (10 : ℚ) ^ overflowLead := by
  have h : 2 ^ 1024 ≤ 10 ^ 309 := by decide +kernel
  show (2 : ℚ) ^ ((1024 : ℕ) : ℤ) ≤ 10 ^ ((309 : ℕ) : ℤ)
  rw [zpow_natCast, zpow_natCast]
  exact_mod_cast h

/-- At the underflow bound a decimal is at most half of the smallest positive double. -/
theorem zpow_underflowLead_le : (10 : ℚ) ^ underflowLead ≤ 2 ^ (-1075 : ℤ) := by
  have h : 2 ^ 1075 ≤ 10 ^ 324 := by decide +kernel
  show (10 : ℚ) ^ (-((324 : ℕ) : ℤ)) ≤ 2 ^ (-((1075 : ℕ) : ℤ))
  rw [zpow_neg, zpow_neg, zpow_natCast, zpow_natCast]
  apply inv_anti₀ (by positivity)
  exact_mod_cast h

theorem some_eq_some_iff {r : ℚ} {x y : Float} (hy : Denotes .positive r y.toModel.unpack) :
    some y = some x ↔ Denotes .positive r x.toModel.unpack := by
  constructor
  · intro h
    rwa [← Option.some.inj h]
  · intro hx
    rw [eq_of_denotes hy hx]

/-- A decimal reads as the double that its value is nearest to, and only finite doubles are read. -/
theorem toDouble?_eq_some_iff {x : Float} :
    d.toDouble? = some x ↔ Denotes .positive (rounded d.value) x.toModel.unpack := by
  unfold toDouble?
  by_cases hzero : d.coefficient = 0
  · have hvalue : d.value = 0 := by rw [value, hzero, Nat.cast_zero, zero_mul]
    rw [if_pos hzero, hvalue, rounded_zero]
    exact some_eq_some_iff denotes_zero
  rw [if_neg hzero]
  have hpos : 0 < d.value := lt_of_lt_of_le (zpow_pos (by norm_num) _) (zpow_lead_le hzero)
  by_cases hhigh : overflowLead ≤ d.lead
  · have hlarge : tooLarge ≤ rounded d.value := by
      apply le_rounded (by norm_num)
      calc tooLarge ≤ (10 : ℚ) ^ overflowLead := tooLarge_le
        _ ≤ 10 ^ d.lead := zpow_le_zpow_right₀ (by norm_num) hhigh
        _ ≤ d.value := zpow_lead_le hzero
    rw [if_pos hhigh]
    constructor
    · intro h
      cases h
    · intro h
      exact absurd h.lt_tooLarge (not_lt.mpr hlarge)
  rw [if_neg hhigh]
  by_cases hlow : d.lead < underflowLead
  · have hsmall : rounded d.value = 0 := by
      apply rounded_eq_zero hpos.le
      calc d.value < 10 ^ (d.lead + 1) := d.value_lt
        _ ≤ (10 : ℚ) ^ underflowLead := zpow_le_zpow_right₀ (by norm_num) (by omega)
        _ ≤ 2 ^ (-1075 : ℤ) := zpow_underflowLead_le
    rw [if_pos hlow, hsmall]
    exact some_eq_some_iff denotes_zero
  rw [if_neg hlow]
  -- between the two ends the machine decides, and may still round up to an infinity
  have hnearest := isNearest_ofScientific (Nat.pos_of_ne_zero hzero) (d.guard_low (not_lt.mp hlow))
    (d.guard_high (not_le.mp hhigh))
  change IsNearest .positive d.value _ at hnearest
  generalize Float.ofScientific d.coefficient (d.exponent < 0) d.exponent.natAbs = y at hnearest ⊢
  unfold IsNearest at hnearest
  by_cases hlt : rounded d.value < tooLarge
  · rw [if_pos hlt] at hnearest
    rw [if_neg (hnearest.not_isInf)]
    exact some_eq_some_iff hnearest
  · rw [if_neg hlt] at hnearest
    have hinf : y.isInf = true := by
      show y.toModel.unpack.isInf = true
      rw [hnearest]
      rfl
    rw [if_pos hinf]
    constructor
    · intro h
      cases h
    · intro h
      exact absurd h.lt_tooLarge hlt

end Decimal

end FuzzyInference

import FuzzyInference.Proofs.Double.Rounding
import FuzzyInference.Scalar.Machine

/-!
# Doubles and their unpacked forms

A finite double denotes a magnitude with a sign. The encoding is split by arithmetic, so that the
significand and the exponent that the library computes with are those of the machine's own unpacked form,
and packing a canonical form and unpacking it again gives it back, unless it is too large. A double is
thereby determined by its sign and its magnitude.

## Contents
- `magnitude`, `signOf`: what a finite double denotes.
- `denotes_iff`: a double has a canonical form exactly if it is finite.
- `eq_of_denotes`: which determines it.
- `unpack_pack`, `unpack_pack_of_tooLarge`: a packed canonical form.
-/

namespace FuzzyInference

open Float.Model Float.Model.UnpackedFloat

/-! ## Fields of an encoding -/

namespace Unpacked

/-- The sign of a number. -/
def sign (u : Unpacked) : Sign := if u.negative then .negative else .positive

/-- The number without its sign. -/
def magnitude (u : Unpacked) : ℚ := u.significand * 2 ^ u.exponent

/-- The machine's unpacked form. -/
def toFloat (u : Unpacked) : UnpackedFloat :=
  if h : u.significand = 0 then .zero u.sign
  else .finite u.sign u.significand u.exponent (Nat.pos_of_ne_zero h)

/-- Canonical parts are packed into the double that they describe. -/
theorem denotes_toFloat {u : Unpacked} (h : u.significand ≠ 0 → Double.Canonical u.significand u.exponent) :
    Double.Denotes u.sign u.magnitude u.toFloat := by
  unfold toFloat magnitude
  by_cases hzero : u.significand = 0
  · rw [dif_pos hzero, hzero, Nat.cast_zero, zero_mul]
    exact .zero
  · rw [dif_neg hzero]
    exact .finite (h hzero)

end Unpacked

namespace Double

/-- The fields of a double's encoding, as numbers. -/
theorem unpack_eq (x : Float) :
    unpack x =
      { negative := x.toBits.toNat / 2 ^ 63 % 2 == 1
        significand := if x.toBits.toNat / 2 ^ 52 % 2 ^ 11 = 0 then x.toBits.toNat % 2 ^ 52
          else x.toBits.toNat % 2 ^ 52 + 2 ^ 52
        exponent := (if x.toBits.toNat / 2 ^ 52 % 2 ^ 11 = 0 then 1
          else ((x.toBits.toNat / 2 ^ 52 % 2 ^ 11 : ℕ) : ℤ)) - 1075 } := rfl

/-- The mantissa is the low 52 bits, below the 11 of the exponent and the sign. -/
theorem toNat_unpackMantissa (b : BitVec Format.binary64.numBits) :
    (@unpackMantissa .binary64 b).toNat = b.toNat % 2 ^ 52 := by
  show (b.toNat >>> 0) % 2 ^ 52 = _
  rw [Nat.shiftRight_zero]

theorem toNat_unpackExponent (b : BitVec Format.binary64.numBits) :
    (@unpackExponent .binary64 b).toNat = b.toNat / 2 ^ 52 % 2 ^ 11 := by
  show (b.toNat >>> 52) % 2 ^ 11 = _
  rw [Nat.shiftRight_eq_div_pow]

theorem toNat_unpackSign (b : BitVec Format.binary64.numBits) :
    (@unpackSign .binary64 b).toNat = b.toNat / 2 ^ 63 % 2 := by
  show (b.toNat >>> 63) % 2 ^ 1 = _
  rw [Nat.shiftRight_eq_div_pow]

theorem sign_eq {bits : ℕ} {b : BitVec 1} (h : b.toNat = bits % 2) :
    (if (bits % 2 == 1) = true then Sign.negative else Sign.positive) = Sign.ofBitVec b := by
  rcases Nat.mod_two_eq_zero_or_one bits with hbit | hbit
  · rw [hbit] at h ⊢
    rw [show b = 0#1 from BitVec.eq_of_toNat_eq h]
    rfl
  · rw [hbit] at h ⊢
    rw [show b = 1#1 from BitVec.eq_of_toNat_eq h]
    rfl

theorem toNat_withImplicit (f : BitVec 52) : (1#1 ++ f).toNat = f.toNat + 2 ^ 52 := by
  rw [BitVec.toNat_append, ← Nat.shiftLeft_add_eq_or_of_lt f.isLt]
  simp [Nat.shiftLeft_eq, Nat.add_comm]

/-- The machine's unpacked form of a finite double is the library's. -/
theorem model_unpack_eq {x : Float} (h : x.toBits.toNat / 2 ^ 52 % 2 ^ 11 ≠ 2047) :
    x.toModel.unpack = (unpack x).toFloat := by
  rw [unpack_eq]
  show UnpackedFloat.unpack .binary64 x.toModel.toBits.toBitVec = _
  have hbits : x.toBits.toNat = x.toModel.toBits.toBitVec.toNat := rfl
  rw [hbits] at h ⊢
  generalize x.toModel.toBits.toBitVec = b at h ⊢
  have hsign := sign_eq (toNat_unpackSign b)
  have hexponent := toNat_unpackExponent b
  have hmantissa := toNat_unpackMantissa b
  have hfinite : @unpackExponent .binary64 b ≠ -1#_ := by
    intro heq
    rw [heq, show (-1#11).toNat = 2047 from by decide] at hexponent
    exact h hexponent.symm
  rw [Unpacked.toFloat, Unpacked.sign, hsign, UnpackedFloat.unpack]
  simp only [if_neg hfinite]
  simp only [← hexponent, ← hmantissa]
  -- the field 0 stands for the least exponent and has no implicit bit
  by_cases hleast : @unpackExponent .binary64 b = 0#_
  · have hleast' : (@unpackExponent .binary64 b).toNat = 0 := by rw [hleast]; rfl
    simp only [hleast', if_pos hleast, if_true]
    by_cases hzero : @unpackMantissa .binary64 b = 0#_
    · rw [dif_pos hzero, dif_pos (by rw [hzero]; rfl)]
    · have hzero' : (@unpackMantissa .binary64 b).toNat ≠ 0 := by
        intro h0
        exact hzero (BitVec.eq_of_toNat_eq h0)
      rw [dif_neg hzero, dif_neg hzero']
      rfl
  · have hleast' : (@unpackExponent .binary64 b).toNat ≠ 0 := by
      intro h0
      exact hleast (BitVec.eq_of_toNat_eq h0)
    simp only [if_neg hleast, if_neg hleast']
    rw [dif_neg (by omega)]
    congr 1
    exact toNat_withImplicit _

/-! ## What a double denotes -/

/-- The magnitude of a finite double. -/
def magnitude (x : Float) : ℚ := (unpack x).magnitude

/-- The sign of a double. -/
def signOf (x : Float) : Sign := (unpack x).sign

/-- A double is unpacked into canonical parts. -/
theorem canonical_unpack {x : Float} (h : (unpack x).significand ≠ 0) :
    Canonical (unpack x).significand (unpack x).exponent := by
  rw [unpack_eq] at h ⊢
  refine ⟨Nat.pos_of_ne_zero h, ?_, ?_, ?_⟩ <;> dsimp only at h ⊢ <;> split <;> omega

theorem exponent_le {x : Float} (h : x.toBits.toNat / 2 ^ 52 % 2 ^ 11 ≠ 2047) :
    (unpack x).exponent ≤ 971 := by
  rw [unpack_eq]
  dsimp only
  split <;> omega

/-- The largest exponent field is that of infinities and NaN. -/
theorem field_ne_of_isFinite {x : Float} (h : Scalar.isFinite x = true) :
    x.toBits.toNat / 2 ^ 52 % 2 ^ 11 ≠ 2047 := by
  intro hfield
  have hbits : @unpackExponent .binary64 x.toModel.toBits.toBitVec = -1#_ := by
    apply BitVec.eq_of_toNat_eq
    rw [toNat_unpackExponent]
    exact hfield.trans (by decide)
  have hunpack : x.toModel.unpack.isFinite = false := by
    show (UnpackedFloat.unpack .binary64 x.toModel.toBits.toBitVec).isFinite = false
    rw [UnpackedFloat.unpack]
    simp only [if_pos hbits]
    split <;> rfl
  have hfinite : (!x.toModel.unpack.isNaN && !x.toModel.unpack.isInf) = true := h
  cases hu : x.toModel.unpack <;> rw [hu] at hunpack hfinite <;> contradiction

/-- A finite double denotes its sign and magnitude. -/
theorem denotes_unpack {x : Float} (h : Scalar.isFinite x = true) :
    Denotes (signOf x) (magnitude x) x.toModel.unpack := by
  rw [model_unpack_eq (field_ne_of_isFinite h)]
  exact Unpacked.denotes_toFloat canonical_unpack

/-- An unpacked double denotes one number. -/
theorem Denotes.inj {s t : Sign} {r q : ℚ} {u : UnpackedFloat} (h : Denotes s r u)
    (h' : Denotes t q u) : s = t ∧ r = q := by
  cases h <;> cases h' <;> exact ⟨rfl, rfl⟩

/-- A double has a canonical form exactly if it is finite, and then that of its sign and magnitude. -/
theorem denotes_iff {x : Float} {s : Sign} {r : ℚ} :
    Denotes s r x.toModel.unpack ↔ Scalar.isFinite x = true ∧ signOf x = s ∧ magnitude x = r := by
  constructor
  · intro h
    have hfinite : Scalar.isFinite x = true := by
      show (!x.toModel.unpack.isNaN && !x.toModel.unpack.isInf) = true
      generalize x.toModel.unpack = u at h ⊢
      cases h <;> rfl
    exact ⟨hfinite, (denotes_unpack hfinite).inj h⟩
  · rintro ⟨hfinite, rfl, rfl⟩
    exact denotes_unpack hfinite

/-- The fields determine the encoding. -/
theorem unpack_injective {x y : Float} (h : unpack x = unpack y) : x = y := by
  have hbits : x.toBits.toNat = y.toBits.toNat := by
    have hx := x.toBits.toNat_lt
    have hy := y.toBits.toNat_lt
    simp only [unpack_eq, Unpacked.mk.injEq] at h
    obtain ⟨hnegative, hsignificand, hexponent⟩ := h
    have hsign : x.toBits.toNat / 2 ^ 63 % 2 = y.toBits.toNat / 2 ^ 63 % 2 := by
      rw [Bool.eq_iff_iff, beq_iff_eq, beq_iff_eq] at hnegative
      omega
    -- with the implicit bit the significand is never what it is without
    by_cases hleast : x.toBits.toNat / 2 ^ 52 % 2 ^ 11 = 0 <;>
      by_cases hleast' : y.toBits.toNat / 2 ^ 52 % 2 ^ 11 = 0 <;>
      simp only [hleast, hleast', if_true, if_false] at hsignificand hexponent <;> omega
  obtain ⟨⟨bits, hvalid⟩⟩ := x
  obtain ⟨⟨bits', hvalid'⟩⟩ := y
  obtain rfl : bits = bits' := UInt64.toNat_inj.mp hbits
  rfl

theorem exponent_of_zero {x : Float} (h : (unpack x).significand = 0) :
    (unpack x).exponent = -1074 := by
  rw [unpack_eq] at h ⊢
  dsimp only at h ⊢
  split at h
  · rw [if_pos ‹_›]
    rfl
  · omega

theorem negative_eq_of_sign_eq {u v : Unpacked} (h : u.sign = v.sign) : u.negative = v.negative := by
  obtain ⟨n, m, e⟩ := u
  obtain ⟨n', m', e'⟩ := v
  cases n <;> cases n' <;> first | rfl | cases h

/-- A finite double is determined by its sign and magnitude. -/
theorem eq_of_denotes {x y : Float} {s : Sign} {r : ℚ} (hx : Denotes s r x.toModel.unpack)
    (hy : Denotes s r y.toModel.unpack) : x = y := by
  have hunpack := hx.unique hy
  obtain ⟨hfinite, hsign, -⟩ := denotes_iff.mp hx
  obtain ⟨hfinite', hsign', -⟩ := denotes_iff.mp hy
  rw [model_unpack_eq (field_ne_of_isFinite hfinite),
    model_unpack_eq (field_ne_of_isFinite hfinite')] at hunpack
  have hnegative := negative_eq_of_sign_eq (hsign.trans hsign'.symm)
  -- a zero has a significand of 0 at the least exponent, so the fields agree in all cases
  have hfields : (unpack x).significand = (unpack y).significand ∧
      (unpack x).exponent = (unpack y).exponent := by
    unfold Unpacked.toFloat at hunpack
    split at hunpack <;> split at hunpack
    next hzero hzero' =>
      exact ⟨hzero.trans hzero'.symm, (exponent_of_zero hzero).trans (exponent_of_zero hzero').symm⟩
    next => cases hunpack
    next => cases hunpack
    next =>
      rw [UnpackedFloat.finite.injEq] at hunpack
      exact hunpack.2
  apply unpack_injective
  have heta : unpack x = ⟨(unpack x).negative, (unpack x).significand, (unpack x).exponent⟩ := rfl
  rw [heta, hnegative, hfields.1, hfields.2]

/-! ## Packing -/

theorem unpackSign_packComponents (s : Sign) (e : BitVec 11) (m : BitVec 52) :
    Sign.ofBitVec (unpackSign (packComponents .binary64 s e m)) = s := by
  have hbits : unpackSign (packComponents .binary64 s e m) = s.toBitVec := by
    ext i hi
    obtain rfl : i = 0 := by omega
    have hlast : (s.toBitVec ++ e ++ m).getLsbD 63 = s.toBitVec.getLsbD 0 := by
      rw [BitVec.getLsbD_append, if_neg (by norm_num), BitVec.getLsbD_append, if_neg (by norm_num)]
    simp only [unpackSign, packComponents, BitVec.extractLsb, BitVec.getElem_cast,
      BitVec.getElem_extractLsb']
    exact hlast
  rw [hbits]
  cases s <;> rfl

/-- The least magnitude that is too large for a double. -/
def tooLarge : ℚ := 2 ^ (1024 : ℤ)

/-- Canonical parts fit a double when what they describe is not too large. -/
theorem Canonical.exponent_le_iff {m : ℕ} {e : ℤ} (h : Canonical m e) :
    e ≤ 971 ↔ (m : ℚ) * 2 ^ e < tooLarge := by
  constructor
  · intro he
    calc (m : ℚ) * 2 ^ e < 2 ^ (53 : ℤ) * (2 : ℚ) ^ e := by
          apply mul_lt_mul_of_pos_right _ (zpow_pos two_pos e)
          exact_mod_cast h.lt
      _ = 2 ^ (53 + e) := (zpow_add₀ (by norm_num) _ _).symm
      _ ≤ tooLarge := zpow_le_zpow_right₀ one_le_two (by omega)
  intro hlt
  -- a full significand at a greater exponent is already too large
  by_contra hgt
  have hm : 2 ^ 52 ≤ m := by
    rcases h.full with hfull | hleast
    · exact hfull
    · omega
  have hge : tooLarge ≤ (m : ℚ) * 2 ^ e :=
    calc tooLarge = 2 ^ (52 : ℤ) * (2 : ℚ) ^ (972 : ℤ) := zpow_add₀ (by norm_num) 52 972
      _ ≤ (m : ℚ) * 2 ^ e := by
          apply mul_le_mul _ (zpow_le_zpow_right₀ one_le_two (by omega)) (zpow_pos two_pos _).le
            (Nat.cast_nonneg m)
          exact_mod_cast hm
  exact absurd hlt (not_lt.mpr hge)

/-- The exponent field counts from one below the least exponent. -/
theorem biased_exponent (e : ℤ) :
    e + (Format.binary64.exponentBias : ℤ) + (52 : ℕ) = e + 1075 := by
  show e + 1023 + 52 = _
  omega

/-- A canonical form below the overflow threshold is kept by packing. -/
theorem unpack_pack {s : Sign} {r : ℚ} {u : UnpackedFloat} (h : Denotes s r u) (hr : r < tooLarge) :
    (Float.Model.pack u).unpack = u := by
  show UnpackedFloat.unpack .binary64 (UnpackedFloat.pack .binary64 u) = u
  cases h with
  | zero =>
    rw [UnpackedFloat.pack, packedZero, UnpackedFloat.unpack]
    simp only [unpackSign_packComponents, unpackExponent_packComponents, unpackMantissa_packComponents]
    rfl
  | @finite m e h =>
    have hmax := h.exponent_le_iff.mpr hr
    have hmin := h.le
    have hbound : (e + 1075).toNat + 1 < 2048 := by omega
    have hexponent : (BitVec.ofNat 11 (e + 1075).toNat).toNat = (e + 1075).toNat := by
      rw [BitVec.toNat_ofNat, Nat.mod_eq_of_lt (by omega)]
    have hinfinite : BitVec.ofNat 11 (e + 1075).toNat ≠ -1#11 := by
      intro heq
      rw [heq, show (-1#11).toNat = 2047 from by decide] at hexponent
      omega
    have hleast : BitVec.ofNat 11 (e + 1075).toNat ≠ 0#11 := by
      intro heq
      rw [heq, show (0#11).toNat = 0 from rfl] at hexponent
      omega
    rw [UnpackedFloat.pack]
    simp only [biased_exponent]
    rw [if_neg (by omega)]
    -- a full mantissa loses its leading bit, and a smaller one has the exponent field 0
    by_cases hfull : m.log2 + 1 = Format.binary64.mantissaBits
    · have hm : 2 ^ 52 ≤ m := by
        apply (Nat.le_log2 h.pos.ne').mp
        exact (Nat.succ.inj hfull).ge
      rw [if_pos hfull, UnpackedFloat.unpack]
      simp only [unpackSign_packComponents, unpackExponent_packComponents, unpackMantissa_packComponents]
      rw [if_neg hinfinite, if_neg hleast]
      congr 1
      · have hlt := h.lt
        rw [toNat_withImplicit, BitVec.toNat_ofNat]
        omega
      · show ((BitVec.ofNat 11 (e + 1075).toNat).toNat : ℤ) - (1023 + 52) = e
        omega
    · have hm : m < 2 ^ 52 := by
        by_contra hge
        have hlow := (Nat.le_log2 h.pos.ne').mpr (not_lt.mp hge)
        have hhigh := log2_add_one_le h.lt (by norm_num)
        exact hfull (show m.log2 + 1 = 53 by omega)
      have he : e = -1074 := h.full.resolve_left (by omega)
      have hmantissa : (BitVec.ofNat 52 m).toNat = m := by
        rw [BitVec.toNat_ofNat, Nat.mod_eq_of_lt hm]
      have hzero : BitVec.ofNat 52 m ≠ 0#52 := by
        intro heq
        rw [heq, show (0#52).toNat = 0 from rfl] at hmantissa
        exact h.pos.ne hmantissa
      rw [if_neg hfull, UnpackedFloat.unpack]
      simp only [unpackSign_packComponents, unpackExponent_packComponents, unpackMantissa_packComponents]
      rw [if_neg (by decide), if_pos trivial, dif_neg hzero]
      congr 1
      rw [he]
      rfl

/-- One at the threshold or beyond becomes an infinity. -/
theorem unpack_pack_of_tooLarge {s : Sign} {r : ℚ} {u : UnpackedFloat} (h : Denotes s r u)
    (hr : tooLarge ≤ r) : (Float.Model.pack u).unpack = .infinity s := by
  show UnpackedFloat.unpack .binary64 (UnpackedFloat.pack .binary64 u) = .infinity s
  cases h with
  | zero => exact absurd hr (not_le.mpr (zpow_pos two_pos _))
  | @finite m e h =>
    have hmax : ¬e ≤ 971 := fun he => absurd hr (not_le.mpr (h.exponent_le_iff.mp he))
    rw [UnpackedFloat.pack]
    simp only [biased_exponent]
    rw [if_pos (by omega), packedInfinity, UnpackedFloat.unpack]
    simp only [unpackSign_packComponents, unpackExponent_packComponents, unpackMantissa_packComponents]
    rfl

theorem Denotes.not_isInf {s : Sign} {r : ℚ} {x : Float} (h : Denotes s r x.toModel.unpack) :
    ¬x.isInf = true := by
  show ¬x.toModel.unpack.isInf = true
  generalize x.toModel.unpack = u at h ⊢
  cases h <;> exact Bool.false_ne_true

/-- No double reaches the threshold. -/
theorem Denotes.lt_tooLarge {s : Sign} {r : ℚ} {x : Float} (h : Denotes s r x.toModel.unpack) :
    r < tooLarge := by
  obtain ⟨hfinite, -, rfl⟩ := denotes_iff.mp h
  by_cases hzero : (unpack x).significand = 0
  · rw [magnitude, Unpacked.magnitude, hzero, Nat.cast_zero, zero_mul]
    exact zpow_pos two_pos _
  · exact (canonical_unpack hzero).exponent_le_iff.mp (exponent_le (field_ne_of_isFinite hfinite))

/-- A packed canonical form denotes what it did, unless it is too large. -/
theorem denotes_pack {s : Sign} {r : ℚ} {u : UnpackedFloat} (h : Denotes s r u) :
    if r < tooLarge then Denotes s r (Float.Model.pack u).unpack
    else (Float.Model.pack u).unpack = .infinity s := by
  split
  next hr =>
    rw [unpack_pack h hr]
    exact h
  next hr => exact unpack_pack_of_tooLarge h (not_lt.mp hr)

end Double

end FuzzyInference

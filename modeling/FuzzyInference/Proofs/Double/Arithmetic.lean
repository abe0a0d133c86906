import FuzzyInference.Proofs.Double.Packing

/-!
# Arithmetic on doubles

Products, quotients and conversions are the exact result, rounded. A machine operation locates the exact
result with bits to spare, and rounding does the rest.

## Contents
- `denotes_round`, `denotes_mul`, `denotes_div`: results of positive operands.
- `Denotes.mul`, `Denotes.div`: results of canonical ones.
- `IsNearest`, `isNearest_mul`, `isNearest_div`, `isNearest_ofNat`: the same of doubles.
- `denotes_abs`, `denotes_neg`, `beq_zero_iff`: signs and zeros.
-/

namespace FuzzyInference.Double

open Float.Model Float.Model.UnpackedFloat

theorem shiftLeft_cast (m k : ℕ) : ((m <<< k : ℕ) : ℚ) = m * 2 ^ k := by
  rw [Nat.shiftLeft_eq]
  push_cast
  rfl

/-- Rounding a mantissa and an exponent. -/
theorem denotes_round {m : ℕ} (hm : 0 < m) (s : Sign) (e : ℤ) :
    Denotes s (rounded (m * 2 ^ e)) (UnpackedFloat.round .binary64 s m e) := by
  have htarget : Format.binary64.targetExponent (totalExponent m e) = quantum (m * 2 ^ e) := by
    rw [quantum_mul_zpow hm.ne']
    show max ((m.log2 : ℤ) + 1 + e - 53) (-1074) = _
    omega
  simp only [UnpackedFloat.round, htarget, decreaseExponent]
  generalize hk : (e - quantum (m * 2 ^ e)).toNat = k
  apply denotes_roundWithAccuracy (mul_pos (Nat.cast_pos.mpr hm) (zpow_pos two_pos e))
  · have hscaled : (m : ℚ) * 2 ^ e / 2 ^ (e - (k : ℤ)) = ((m <<< k : ℕ) : ℚ) := by
      rw [shiftLeft_cast, mul_div_assoc, ← zpow_sub₀ (by norm_num), sub_sub_cancel, zpow_natCast]
    rw [hscaled]
    exact between_exact _
  · omega

/-- The product of two positive numbers whose exponents leave bits to spare. -/
theorem denotes_mul {m n : ℕ} (hm : 0 < m) (hn : 0 < n) (s t : Sign) {e f : ℤ}
    (h : e + f ≤ quantum (m * 2 ^ e * (n * 2 ^ f))) :
    Denotes (s * t) (rounded (m * 2 ^ e * (n * 2 ^ f)))
      (UnpackedFloat.mul .binary64 (.finite s m e hm) (.finite t n f hn)) := by
  apply denotes_roundWithAccuracy _ _ _ h
  · exact mul_pos (mul_pos (Nat.cast_pos.mpr hm) (zpow_pos two_pos e))
      (mul_pos (Nat.cast_pos.mpr hn) (zpow_pos two_pos f))
  · have hscaled : (m : ℚ) * 2 ^ e * (n * 2 ^ f) / 2 ^ (e + f) = ((m * n : ℕ) : ℚ) := by
      rw [zpow_add₀ (by norm_num), mul_mul_mul_comm, mul_div_assoc,
        div_self (mul_pos (zpow_pos (two_pos : (0 : ℚ) < 2) e) (zpow_pos two_pos f)).ne', mul_one,
        Nat.cast_mul]
    rw [hscaled]
    exact between_exact _

/-- The quotient of two significands has the binary order of magnitude that the division assumes. -/
theorem log_div {m n : ℕ} (hm : 0 < m) (hn : 0 < n) (e f : ℤ) :
    (m.log2 : ℤ) + e - (n.log2 + f) - 1 ≤ Int.log 2 ((m : ℚ) * 2 ^ e / (n * 2 ^ f)) := by
  have hm' : (0 : ℚ) < m := Nat.cast_pos.mpr hm
  have hn' : (0 : ℚ) < n * 2 ^ f := mul_pos (Nat.cast_pos.mpr hn) (zpow_pos two_pos f)
  rw [← Int.zpow_le_iff_le_log (by norm_num)
    (div_pos (mul_pos hm' (zpow_pos (two_pos : (0 : ℚ) < 2) e)) hn'),
    le_div_iff₀ hn', Nat.cast_ofNat]
  calc (2 : ℚ) ^ ((m.log2 : ℤ) + e - (n.log2 + f) - 1) * (n * 2 ^ f)
      ≤ (2 : ℚ) ^ ((m.log2 : ℤ) + e - (n.log2 + f) - 1) * (2 ^ (n.log2 + 1) * 2 ^ f) := by
        refine mul_le_mul_of_nonneg_left ?_ (zpow_pos two_pos _).le
        refine mul_le_mul_of_nonneg_right ?_ (zpow_pos two_pos f).le
        exact_mod_cast (Nat.lt_log2_self (n := n)).le
    _ = 2 ^ m.log2 * 2 ^ e := by
        rw [← zpow_natCast, ← zpow_natCast, ← zpow_add₀ (by norm_num), ← zpow_add₀ (by norm_num),
          ← zpow_add₀ (by norm_num)]
        congr 1
        push_cast
        ring
    _ ≤ (m : ℚ) * 2 ^ e := by
        refine mul_le_mul_of_nonneg_right ?_ (zpow_pos two_pos e).le
        exact_mod_cast Nat.log2_self_le hm.ne'

/-- The quotient of two positive numbers. -/
theorem denotes_div {m n : ℕ} (hm : 0 < m) (hn : 0 < n) (s t : Sign) (e f : ℤ) :
    Denotes (s / t) (rounded (m * 2 ^ e / (n * 2 ^ f)))
      (UnpackedFloat.div .binary64 (.finite s m e hm) (.finite t n f hn)) := by
  have hm' : (0 : ℚ) < m := Nat.cast_pos.mpr hm
  have hn' : (0 : ℚ) < n := Nat.cast_pos.mpr hn
  have hpos : (0 : ℚ) < m * 2 ^ e / (n * 2 ^ f) :=
    div_pos (mul_pos hm' (zpow_pos two_pos e)) (mul_pos hn' (zpow_pos two_pos f))
  simp only [UnpackedFloat.div, divCore]
  generalize htarget : min (e - f)
    (Format.binary64.targetExponent (totalExponent m e - totalExponent n f)) = g
  -- the integer quotient with the remainder as accuracy stands for the exact quotient
  apply denotes_roundWithAccuracy hpos
  · have hscaled : (m : ℚ) * 2 ^ e / (n * 2 ^ f) / 2 ^ g =
        ((m <<< (e - f - g).toNat : ℕ) : ℚ) / n := by
      rw [shiftLeft_cast, ← zpow_natCast, Int.toNat_of_nonneg (by omega), zpow_sub₀ (by norm_num),
        zpow_sub₀ (by norm_num)]
      have he : (2 : ℚ) ^ e ≠ 0 := zpow_ne_zero e two_ne_zero
      have hf : (2 : ℚ) ^ f ≠ 0 := zpow_ne_zero f two_ne_zero
      have hg : (2 : ℚ) ^ g ≠ 0 := zpow_ne_zero g two_ne_zero
      field_simp
    rw [hscaled]
    exact between_div _ hn
  · -- the quotient has at most one bit less than the difference of the lengths says
    have hlog := log_div hm hn e f
    have htarget' : g ≤ max ((m.log2 : ℤ) + 1 + e - (n.log2 + 1 + f) - 53) (-1074) := by
      rw [← htarget]
      exact min_le_right _ _
    unfold quantum
    omega

/-! ## Canonical operands -/

/-- The product of two canonical forms leaves bits to spare. -/
theorem Canonical.add_le_quantum {m n : ℕ} {e f : ℤ} (hm : Canonical m e) (hn : Canonical n f) :
    e + f ≤ quantum (m * 2 ^ e * (n * 2 ^ f)) := by
  have hvalue : (m : ℚ) * 2 ^ e * (n * 2 ^ f) = ((m * n : ℕ) : ℚ) * 2 ^ (e + f) := by
    rw [zpow_add₀ (by norm_num), mul_mul_mul_comm, Nat.cast_mul]
  rw [hvalue, quantum_mul_zpow (Nat.mul_pos hm.pos hn.pos).ne']
  have hfull : 52 ≤ (m * n).log2 ∨ e = -1074 ∧ f = -1074 := by
    rw [Nat.le_log2 (Nat.mul_pos hm.pos hn.pos).ne']
    rcases hm.full with h | he
    · exact Or.inl (h.trans (Nat.le_mul_of_pos_right m hn.pos))
    · rcases hn.full with h | hf
      · exact Or.inl (h.trans (Nat.le_mul_of_pos_left n hm.pos))
      · exact Or.inr ⟨he, hf⟩
  omega

/-- Unpacked multiplication rounds the exact product once. -/
theorem Denotes.mul {s t : Sign} {r q : ℚ} {u v : UnpackedFloat} (hu : Denotes s r u)
    (hv : Denotes t q v) : Denotes (s * t) (rounded (r * q)) (UnpackedFloat.mul .binary64 u v) := by
  cases hu with
  | zero =>
    rw [zero_mul, rounded_zero]
    cases hv <;> exact .zero
  | finite hm =>
    cases hv with
    | zero =>
      rw [mul_zero, rounded_zero]
      exact .zero
    | finite hn => exact denotes_mul hm.pos hn.pos s t (hm.add_le_quantum hn)

/-- Unpacked division rounds the exact quotient once. -/
theorem Denotes.div {s t : Sign} {r q : ℚ} {u v : UnpackedFloat} (hu : Denotes s r u)
    (hv : Denotes t q v) (hq : q ≠ 0) :
    Denotes (s / t) (rounded (r / q)) (UnpackedFloat.div .binary64 u v) := by
  cases hv with
  | zero => exact absurd rfl hq
  | finite hn =>
    cases hu with
    | zero =>
      rw [zero_div, rounded_zero]
      exact .zero
    | finite hm => exact denotes_div hm.pos hn.pos s t _ _

/-! ## Doubles -/

/-- The double is the exact number, rounded, or infinite if that is too large. -/
def IsNearest (s : Sign) (q : ℚ) (x : Float) : Prop :=
  if rounded q < tooLarge then Denotes s (rounded q) x.toModel.unpack
  else x.toModel.unpack = .infinity s

/-- Packing a rounded number gives the nearest double, or an infinity beyond all of them. -/
theorem isNearest_pack {s : Sign} {q : ℚ} {u : UnpackedFloat} (h : Denotes s (rounded q) u) :
    IsNearest s q (.ofModel (Float.Model.pack u)) := denotes_pack h

theorem isNearest_mul {s t : Sign} {r q : ℚ} {x y : Float} (hx : Denotes s r x.toModel.unpack)
    (hy : Denotes t q y.toModel.unpack) : IsNearest (s * t) (r * q) (x * y) :=
  isNearest_pack (hx.mul hy)

theorem isNearest_div {s t : Sign} {r q : ℚ} {x y : Float} (hx : Denotes s r x.toModel.unpack)
    (hy : Denotes t q y.toModel.unpack) (hq : q ≠ 0) : IsNearest (s / t) (r / q) (x / y) :=
  isNearest_pack (hx.div hy hq)

/-- A natural number becomes the nearest double. -/
theorem isNearest_ofNat {n : ℕ} (hn : 0 < n) :
    IsNearest .positive n (.ofModel (Float.Model.ofNat n)) := by
  apply isNearest_pack
  have hround := denotes_round hn .positive 0
  rw [zpow_zero, mul_one] at hround
  have hcompare : compare (n : ℤ) 0 = .gt := by
    rw [Int.compare_eq_gt]
    omega
  show Denotes _ _ (UnpackedFloat.normalize .binary64 (n : ℤ) 0 .positive)
  rw [UnpackedFloat.normalize, hcompare]
  exact hround

theorem denotes_abs {s : Sign} {r : ℚ} {x : Float} (h : Denotes s r x.toModel.unpack) :
    Denotes .positive r x.abs.toModel.unpack := by
  have habs : Denotes .positive r x.toModel.unpack.abs := by
    generalize x.toModel.unpack = u at h ⊢
    cases h with
    | zero => exact .zero
    | finite hm => exact .finite hm
  show Denotes .positive r (Float.Model.pack x.toModel.unpack.abs).unpack
  rw [unpack_pack habs h.lt_tooLarge]
  exact habs

theorem Denotes.neg {s : Sign} {r : ℚ} {u : UnpackedFloat} (h : Denotes s r u) : Denotes (-s) r u.neg := by
  cases h with
  | zero => exact .zero
  | finite hm => exact .finite hm

theorem denotes_neg {s : Sign} {r : ℚ} {x : Float} (h : Denotes s r x.toModel.unpack) :
    Denotes (-s) r (-x).toModel.unpack := by
  show Denotes (-s) r (Float.Model.pack x.toModel.unpack.neg).unpack
  rw [unpack_pack h.neg h.lt_tooLarge]
  exact h.neg

theorem unpack_zero : (0.0 : Float).toModel.unpack = .zero .positive := by
  have hbits : (0.0 : Float) = Float.ofBits 0 := by decide +kernel
  rw [hbits]
  rfl

theorem denotes_zero : Denotes .positive 0 (0.0 : Float).toModel.unpack := by
  rw [unpack_zero]
  exact .zero

/-- Of finite doubles only the zeros equal zero. -/
theorem beq_zero_iff {s : Sign} {r : ℚ} {x : Float} (h : Denotes s r x.toModel.unpack) :
    (x == 0.0) = true ↔ r = 0 := by
  show x.toModel.unpack.beq (0.0 : Float).toModel.unpack = true ↔ r = 0
  rw [unpack_zero]
  generalize x.toModel.unpack = u at h ⊢
  cases h with
  | zero => exact iff_of_true rfl rfl
  | finite hm =>
    refine iff_of_false ?_ hm.value_pos.ne'
    cases s <;> exact Bool.false_ne_true

/-- A double that is nearest to one of its own kind is that one. -/
theorem IsNearest.denotes {s : Sign} {q : ℚ} {x : Float} (h : IsNearest s q x) (hq : rounded q = q)
    (hlt : q < tooLarge) : Denotes s q x.toModel.unpack := by
  rw [IsNearest, hq, if_pos hlt] at h
  exact h

end FuzzyInference.Double

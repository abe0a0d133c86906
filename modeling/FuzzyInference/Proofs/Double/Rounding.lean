import Mathlib

/-!
# Rounding to double precision

The doubles around a number are the multiples of a power of two, its quantum, and rounding takes the
nearest of them, at equal distance the even one. The machine reaches it by shifting: it drops the bits
below the quantum one after the other and keeps of them only what the choice depends on. What is kept
locates the number between two multiples, whatever the bits it was shifted from, and so rounding depends
on the value alone.

## Contents
- `nearestEven`, `quantum`, `rounded`: rounding, by arithmetic.
- `Between`: what a mantissa with its two residual bits says, kept by shifts.
- `Denotes`: the canonical unpacked form of a magnitude; there is at most one.
- `denotes_roundWithAccuracy`: the machine's rounding is `rounded`.
- `rounded_eq_self`, `le_rounded`, `rounded_eq_zero`: what rounding leaves, bounds and loses.
-/

namespace FuzzyInference.Double

open Float.Model Float.Model.UnpackedFloat

/-! ## Rounding -/

/-- The whole number nearest to a number that is not negative; a half goes to the even neighbor. -/
def nearestEven (q : ℚ) : ℕ :=
  if q - ⌊q⌋₊ < 1 / 2 then ⌊q⌋₊
  else if 1 / 2 < q - ⌊q⌋₊ then ⌊q⌋₊ + 1
  else ⌊q⌋₊ + ⌊q⌋₊ % 2

/-- The exponent of the distance between the doubles around a positive number. -/
def quantum (q : ℚ) : ℤ := max (Int.log 2 q - 52) (-1074)

/-- The nearest double, as if exponents had no upper bound. -/
def rounded (q : ℚ) : ℚ := nearestEven (q / 2 ^ quantum q) * 2 ^ quantum q

theorem nearestEven_natCast (n : ℕ) : nearestEven n = n := by
  simp [nearestEven]

/-- Rounding does not cross a whole number, from above or from below. -/
theorem le_nearestEven {n : ℕ} {q : ℚ} (h : (n : ℚ) ≤ q) : n ≤ nearestEven q := by
  have hfloor : n ≤ ⌊q⌋₊ := Nat.le_floor h
  unfold nearestEven
  split
  · exact hfloor
  · split <;> omega

theorem nearestEven_le {n : ℕ} {q : ℚ} (h0 : 0 ≤ q) (h : q ≤ n) : nearestEven q ≤ n := by
  rcases h.lt_or_eq with hlt | rfl
  · have hfloor : ⌊q⌋₊ < n := (Nat.floor_lt h0).mpr hlt
    unfold nearestEven
    split
    · exact hfloor.le
    · split <;> omega
  · exact (nearestEven_natCast n).le

theorem nearestEven_of_lt_half {q : ℚ} (h : q < 1 / 2) : nearestEven q = 0 := by
  have hfloor : ⌊q⌋₊ = 0 := Nat.floor_eq_zero.mpr (by linarith)
  rw [nearestEven, hfloor, if_pos (by simpa using h)]

/-- In units of its quantum a number has at most 53 bits before the point, -/
theorem scaled_lt (q : ℚ) : q / 2 ^ quantum q < 2 ^ 53 := by
  rw [div_lt_iff₀ (zpow_pos (two_pos : (0 : ℚ) < 2) _)]
  calc q < 2 ^ (Int.log 2 q + 1) := by exact_mod_cast Int.lt_zpow_succ_log_self (b := 2) (by norm_num) q
    _ ≤ 2 ^ (53 + quantum q) := zpow_le_zpow_right₀ one_le_two (by unfold quantum; omega)
    _ = 2 ^ 53 * 2 ^ quantum q := by rw [zpow_add₀ (by norm_num)]; norm_cast

/-- and exactly 53 unless the quantum is the least one. -/
theorem le_scaled {q : ℚ} (hq : 0 < q) (h : quantum q ≠ -1074) : 2 ^ 52 ≤ q / 2 ^ quantum q := by
  rw [le_div_iff₀ (zpow_pos (two_pos : (0 : ℚ) < 2) _)]
  calc (2 : ℚ) ^ 52 * 2 ^ quantum q = 2 ^ (52 + quantum q) := by
        rw [zpow_add₀ (by norm_num)]; norm_cast
    _ ≤ 2 ^ Int.log 2 q := zpow_le_zpow_right₀ one_le_two (by unfold quantum at *; omega)
    _ ≤ q := by exact_mod_cast Int.zpow_log_le_self (b := 2) (by norm_num) hq

/-! ## What the residual bits say -/

/-- Where a number lies: at the mantissa, below the middle to the next whole number, at it, or above. -/
def Between (em : ExtendedMantissa) (q : ℚ) : Prop :=
  match em.roundBit, em.stickyBit with
  | false, false => q = em.mantissa
  | false, true => em.mantissa < q ∧ q < em.mantissa + 1 / 2
  | true, false => q = em.mantissa + 1 / 2
  | true, true => em.mantissa + 1 / 2 < q ∧ q < em.mantissa + 1

theorem Between.mem {em : ExtendedMantissa} {q : ℚ} (h : Between em q) :
    (em.mantissa : ℚ) ≤ q ∧ q < em.mantissa + 1 := by
  obtain ⟨m, r, s⟩ := em
  cases r <;> cases s <;> simp only [Between] at h ⊢ <;> constructor <;> linarith

/-- The mantissa is the whole part of the number. -/
theorem Between.floor_eq {em : ExtendedMantissa} {q : ℚ} (h : Between em q) : ⌊q⌋₊ = em.mantissa :=
  Nat.floor_eq_iff (le_trans (Nat.cast_nonneg _) h.mem.1) |>.mpr h.mem

theorem between_exact (n : ℕ) : Between (ExtendedMantissa.ofMantissaAndAccuracy n .exact) n := rfl

/-- The remainder of a division tells where the quotient lies. -/
theorem between_div (n : ℕ) {d : ℕ} (hd : 0 < d) :
    Between (ExtendedMantissa.ofMantissaAndAccuracy (n / d) (accuracyOfFraction (n % d) d))
      ((n : ℚ) / d) := by
  have hd' : (0 : ℚ) < d := Nat.cast_pos.mpr hd
  have hmod : n % d < d := Nat.mod_lt n hd
  have hn : (n : ℚ) / d = (n / d : ℕ) + ((n % d : ℕ) : ℚ) / d := by
    field_simp
    exact_mod_cast (Nat.div_add_mod n d).symm
  rw [hn, accuracyOfFraction]
  by_cases hzero : n % d = 0
  · rw [if_pos hzero, hzero]
    show _ = _
    simp [ExtendedMantissa.ofMantissaAndAccuracy]
  · have hpos : (0 : ℚ) < ((n % d : ℕ) : ℚ) / d := by positivity
    have hlt : ((n % d : ℕ) : ℚ) / d < 1 := by
      rw [div_lt_one hd']
      exact_mod_cast hmod
    rw [if_neg hzero]
    -- the remainder is less than half of the divisor, half of it, or more
    rcases Nat.lt_trichotomy (2 * (n % d)) d with h | h | h
    · rw [Nat.compare_eq_lt.mpr h]
      have : ((n % d : ℕ) : ℚ) / d < 1 / 2 := by
        rw [div_lt_div_iff₀ hd' (by norm_num)]
        exact_mod_cast (by omega : n % d * 2 < 1 * d)
      show ((n / d : ℕ) : ℚ) < _ ∧ _ < ((n / d : ℕ) : ℚ) + 1 / 2
      exact ⟨by linarith, by linarith⟩
    · rw [Nat.compare_eq_eq.mpr h]
      have : ((n % d : ℕ) : ℚ) / d = 1 / 2 := by
        rw [div_eq_div_iff hd'.ne' (by norm_num)]
        exact_mod_cast (by omega : n % d * 2 = 1 * d)
      show _ = _
      rw [this]
      rfl
    · rw [Nat.compare_eq_gt.mpr h]
      have : 1 / 2 < ((n % d : ℕ) : ℚ) / d := by
        rw [div_lt_div_iff₀ (by norm_num) hd']
        exact_mod_cast (by omega : 1 * d < n % d * 2)
      show ((n / d : ℕ) : ℚ) + 1 / 2 < _ ∧ _ < ((n / d : ℕ) : ℚ) + 1
      exact ⟨by linarith, by linarith⟩

/-- A shift halves the number. -/
theorem Between.shiftRightOne {em : ExtendedMantissa} {q : ℚ} (h : Between em q) :
    Between em.shiftRightOne (q / 2) := by
  obtain ⟨m, r, s⟩ := em
  have hm : (m : ℚ) = 2 * (m / 2 : ℕ) + (m % 2 : ℕ) := by exact_mod_cast (Nat.div_add_mod m 2).symm
  rcases Nat.mod_two_eq_zero_or_one m with hbit | hbit <;> rw [hbit] at hm <;>
    cases r <;> cases s <;>
    simp only [Between, ExtendedMantissa.shiftRightOne, hbit, Bool.or_self, Bool.or_true, Bool.or_false,
      Nat.cast_zero, Nat.cast_one, bne_self_eq_false, Nat.reduceBNe] at h hm ⊢ <;>
    first
      | linarith
      | constructor <;> linarith

/-- Shifting out bits keeps track of what is lost. -/
theorem Between.shiftRight {em : ExtendedMantissa} {q : ℚ} (h : Between em q) (n : ℕ) :
    Between (em >>> n) (q / 2 ^ n) := by
  show Between (n.repeat ExtendedMantissa.shiftRightOne em) _
  induction n with
  | zero => simpa [Nat.repeat] using h
  | succ n ih =>
    have hnext := ih.shiftRightOne
    rw [div_div, ← pow_succ] at hnext
    exact hnext

/-- Rounding the mantissa rounds the number it stands for. -/
theorem Between.roundedMantissa_eq {em : ExtendedMantissa} {q : ℚ} (h : Between em q) :
    em.roundedMantissa = nearestEven q := by
  rw [nearestEven, h.floor_eq]
  obtain ⟨m, r, s⟩ := em
  cases r <;> cases s <;> simp only [Between] at h <;>
    simp only [ExtendedMantissa.roundedMantissa, ExtendedMantissa.accuracy, Accuracy.roundToNearestEven]
  · rw [if_pos (by linarith)]
  · rw [if_pos (by linarith)]
  · rw [if_neg (by linarith), if_neg (by linarith)]
  · rw [if_neg (by linarith), if_pos (by linarith)]

/-! ## The machine's rounding -/

/-- The canonical forms of positive magnitudes: 53 bits, or fewer at the least exponent. -/
structure Canonical (m : ℕ) (e : ℤ) : Prop where
  pos : 0 < m
  lt : m < 2 ^ 53
  le : -1074 ≤ e
  full : 2 ^ 52 ≤ m ∨ e = -1074

/-- The canonical unpacked form of a magnitude with a sign. -/
inductive Denotes (s : Sign) : ℚ → UnpackedFloat → Prop where
  | zero : Denotes s 0 (.zero s)
  | finite {m : ℕ} {e : ℤ} (h : Canonical m e) : Denotes s (m * 2 ^ e) (.finite s m e h.pos)

theorem two_zpow_succ (e : ℤ) : (2 : ℚ) ^ (e + 1) = 2 * 2 ^ e := by
  rw [zpow_add_one₀ (by norm_num), mul_comm]

theorem log2_add_one_le {n k : ℕ} (h : n < 2 ^ k) (hk : 0 < k) : n.log2 + 1 ≤ k := by
  by_cases hn : n = 0
  · rw [hn, Nat.log2_zero]
    omega
  · have := (Nat.log2_lt hn).mpr h
    omega

/-- The order of magnitude of a number is that of the mantissa it lies at. -/
theorem log_eq {m : ℕ} (hm : m ≠ 0) {e : ℤ} {q : ℚ} (hlow : (m : ℚ) * 2 ^ e ≤ q)
    (hhigh : q < ((m : ℚ) + 1) * 2 ^ e) : Int.log 2 q = (m.log2 : ℤ) + e := by
  have hpos : (0 : ℚ) < q :=
    lt_of_lt_of_le (mul_pos (Nat.cast_pos.mpr (Nat.pos_of_ne_zero hm)) (zpow_pos two_pos e)) hlow
  apply le_antisymm
  · apply Int.lt_add_one_iff.mp
    rw [← Int.lt_zpow_iff_log_lt (by norm_num) hpos,
      show (m.log2 : ℤ) + e + 1 = ((m.log2 + 1 : ℕ) : ℤ) + e by push_cast; ring,
      zpow_add₀ (by norm_num), zpow_natCast]
    refine lt_of_lt_of_le hhigh (mul_le_mul_of_nonneg_right ?_ (zpow_pos two_pos e).le)
    exact_mod_cast Nat.lt_log2_self (n := m)
  · rw [← Int.zpow_le_iff_le_log (by norm_num) hpos, zpow_add₀ (by norm_num), zpow_natCast]
    refine le_trans (mul_le_mul_of_nonneg_right ?_ (zpow_pos two_pos e).le) hlow
    exact_mod_cast Nat.log2_self_le hm

/-- A number that is located with bits to spare has its quantum for a target. -/
theorem targetExponent_eq {q : ℚ} (hq : 0 < q) {em : ExtendedMantissa} {e : ℤ}
    (h : Between em (q / 2 ^ e)) (he : e ≤ quantum q) :
    Format.binary64.targetExponent (totalExponent em.mantissa e) = quantum q := by
  obtain ⟨hlow, hhigh⟩ := h.mem
  rw [le_div_iff₀ (zpow_pos (two_pos : (0 : ℚ) < 2) e)] at hlow
  rw [div_lt_iff₀ (zpow_pos (two_pos : (0 : ℚ) < 2) e)] at hhigh
  show max ((em.mantissa.log2 : ℤ) + 1 + e - 53) (-1074) = max (Int.log 2 q - 52) (-1074)
  by_cases hm : em.mantissa = 0
  · -- nothing but residual bits is left, which only happens at the least exponent
    have hlog : Int.log 2 q < e := by
      rw [← Int.lt_zpow_iff_log_lt (by norm_num) hq]
      rw [hm] at hhigh
      simpa using hhigh
    rw [hm, Nat.log2_zero]
    unfold quantum at he
    omega
  · rw [log_eq hm hlow hhigh]
    omega

/-- Shifting to the quantum keeps the number where it is. -/
theorem shiftToTargetExponent_eq {q : ℚ} (hq : 0 < q) {m : ℕ} {e : ℤ} {acc : Accuracy}
    (h : Between (ExtendedMantissa.ofMantissaAndAccuracy m acc) (q / 2 ^ e)) (he : e ≤ quantum q) :
    ∃ em, shiftToTargetExponent .binary64 m e acc = (em, quantum q) ∧
      Between em (q / 2 ^ quantum q) := by
  have hmantissa : (ExtendedMantissa.ofMantissaAndAccuracy m acc).mantissa = m := by
    cases acc with
    | exact => rfl
    | inexact o => cases o <;> rfl
  have htarget := targetExponent_eq hq h he
  rw [hmantissa] at htarget
  refine ⟨ExtendedMantissa.ofMantissaAndAccuracy m acc >>> (quantum q - e).toNat, ?_, ?_⟩
  · rw [shiftToTargetExponent, htarget, shiftToExponent]
    rw [Int.toNat_of_nonneg (by omega), add_sub_cancel]
  · have hshift := h.shiftRight (quantum q - e).toNat
    rw [div_div, ← zpow_natCast, ← zpow_add₀ (by norm_num), Int.toNat_of_nonneg (by omega),
      add_sub_cancel] at hshift
    exact hshift

theorem neg_1074_le_quantum (q : ℚ) : -1074 ≤ quantum q := le_max_right _ _

/-- A mantissa that rounding has not carried over is left as it is, -/
theorem shiftToTargetExponent_of_lt {k : ℕ} {e : ℤ} (hk : k < 2 ^ 53) (he : -1074 ≤ e) :
    shiftToTargetExponent .binary64 k e .exact = (⟨k, false, false⟩, e) := by
  have hle := log2_add_one_le hk (by norm_num)
  have hamount : (Format.binary64.targetExponent (totalExponent k e) - e).toNat = 0 := by
    show (max ((k.log2 : ℤ) + 1 + e - 53) (-1074) - e).toNat = 0
    omega
  rw [shiftToTargetExponent, shiftToExponent, hamount, Nat.cast_zero, add_zero]
  rfl

/-- and one that it has is halved. -/
theorem shiftToTargetExponent_carry {e : ℤ} (he : -1074 ≤ e) :
    shiftToTargetExponent .binary64 (2 ^ 53) e .exact = (⟨2 ^ 52, false, false⟩, e + 1) := by
  have hamount : (Format.binary64.targetExponent (totalExponent (2 ^ 53) e) - e).toNat = 1 := by
    show (max ((Nat.log2 (2 ^ 53) : ℤ) + 1 + e - 53) (-1074) - e).toNat = 1
    rw [Nat.log2_two_pow]
    omega
  rw [shiftToTargetExponent, shiftToExponent, hamount]
  rfl

/-- What rounding makes of the mantissa it has chosen. -/
theorem denotes_carried (s : Sign) {k : ℕ} {e : ℤ} (hk : k ≤ 2 ^ 53) (he : -1074 ≤ e)
    (hfull : 2 ^ 52 ≤ k ∨ e = -1074) :
    Denotes s (k * 2 ^ e)
      (if h : (shiftToTargetExponent .binary64 k e .exact).1.mantissa = 0 then .zero s
        else .finite s _ (shiftToTargetExponent .binary64 k e .exact).2 (Nat.pos_of_ne_zero h)) := by
  rcases hk.lt_or_eq with hlt | rfl
  · simp only [shiftToTargetExponent_of_lt hlt he]
    by_cases hzero : k = 0
    · subst hzero
      rw [dif_pos rfl, Nat.cast_zero, zero_mul]
      exact .zero
    · rw [dif_neg hzero]
      exact .finite ⟨Nat.pos_of_ne_zero hzero, hlt, he, hfull⟩
  · simp only [shiftToTargetExponent_carry he]
    rw [dif_neg (by norm_num), Nat.cast_pow, Nat.cast_ofNat,
      show (2 : ℚ) ^ 53 * 2 ^ e = ((2 ^ 52 : ℕ) : ℚ) * 2 ^ (e + 1) by
        rw [two_zpow_succ, Nat.cast_pow, Nat.cast_ofNat]
        ring]
    exact .finite ⟨by norm_num, by norm_num, by omega, Or.inl le_rfl⟩

/-- The machine's rounding of a number that is located with bits to spare. -/
theorem denotes_roundWithAccuracy {q : ℚ} (hq : 0 < q) (s : Sign) {m : ℕ} {e : ℤ} {acc : Accuracy}
    (h : Between (ExtendedMantissa.ofMantissaAndAccuracy m acc) (q / 2 ^ e)) (he : e ≤ quantum q) :
    Denotes s (rounded q) (roundWithAccuracy .binary64 s m e acc) := by
  obtain ⟨em, hshift, hem⟩ := shiftToTargetExponent_eq hq h he
  simp only [roundWithAccuracy, hshift, hem.roundedMantissa_eq]
  -- at most 53 bits and one carry, and no fewer than 53 above the least exponent
  refine denotes_carried s ?_ (neg_1074_le_quantum q) ?_
  · apply nearestEven_le (div_nonneg hq.le (zpow_pos two_pos _).le)
    exact_mod_cast (scaled_lt q).le
  · by_cases hleast : quantum q = -1074
    · exact Or.inr hleast
    · left
      apply le_nearestEven
      exact_mod_cast le_scaled hq hleast

/-! ## Canonical forms -/

/-- A magnitude has one canonical form only. -/
theorem Canonical.eq_of_value_eq {m n : ℕ} {e f : ℤ} (hm : Canonical m e) (hn : Canonical n f)
    (h : (m : ℚ) * 2 ^ e = n * 2 ^ f) : m = n ∧ e = f := by
  -- with a smaller exponent the first mantissa would have more than 53 bits
  have aux : ∀ {m n : ℕ} {e f : ℤ}, Canonical m e → Canonical n f →
      (m : ℚ) * 2 ^ e = n * 2 ^ f → ¬ e < f := by
    intro m n e f hm hn h hlt
    have hfull : 2 ^ 52 ≤ n := by
      rcases hn.full with hfull | hleast
      · exact hfull
      · have := hm.le
        omega
    have hge : (2 : ℚ) ^ 53 * 2 ^ e ≤ n * 2 ^ f :=
      calc (2 : ℚ) ^ 53 * 2 ^ e = (2 : ℚ) ^ 52 * (2 : ℚ) ^ (e + 1) := by rw [two_zpow_succ]; ring
        _ ≤ (n : ℚ) * (2 : ℚ) ^ f := by
            apply mul_le_mul _ (zpow_le_zpow_right₀ one_le_two (by omega)) (zpow_pos two_pos _).le
              (Nat.cast_nonneg n)
            exact_mod_cast hfull
    have hlt' : (m : ℚ) * 2 ^ e < 2 ^ 53 * 2 ^ e := by
      apply mul_lt_mul_of_pos_right _ (zpow_pos two_pos e)
      exact_mod_cast hm.lt
    linarith
  obtain rfl : e = f := le_antisymm (not_lt.mp (aux hn hm h.symm)) (not_lt.mp (aux hm hn h))
  have hmn : (m : ℚ) = n := mul_right_cancel₀ (zpow_pos two_pos e).ne' h
  exact ⟨by exact_mod_cast hmn, rfl⟩

theorem Canonical.value_pos {m : ℕ} {e : ℤ} (h : Canonical m e) : (0 : ℚ) < m * 2 ^ e :=
  mul_pos (Nat.cast_pos.mpr h.pos) (zpow_pos two_pos e)

/-- A rounded number has one unpacked form. -/
theorem Denotes.unique {s : Sign} {r : ℚ} {u v : UnpackedFloat} (hu : Denotes s r u)
    (hv : Denotes s r v) : u = v := by
  cases hu with
  | zero =>
    -- the value stands in an index, where `cases` cannot match a product with 0
    generalize hr : (0 : ℚ) = r at hv
    cases hv with
    | zero => rfl
    | finite h => exact absurd hr h.value_pos.ne
  | finite hm =>
    generalize hr : (_ : ℚ) * _ = r at hv
    cases hv with
    | zero => exact absurd hr hm.value_pos.ne'
    | finite hn =>
      obtain ⟨rfl, rfl⟩ := hm.eq_of_value_eq hn hr
      rfl

/-- The last place of a number given by mantissa and exponent. -/
theorem quantum_mul_zpow {m : ℕ} (hm : m ≠ 0) (e : ℤ) :
    quantum (m * 2 ^ e) = max ((m.log2 : ℤ) + e - 52) (-1074) := by
  rw [quantum, log_eq hm le_rfl
    (mul_lt_mul_of_pos_right (lt_add_one _) (zpow_pos (two_pos : (0 : ℚ) < 2) e))]

/-! ## Numbers at the ends and in between -/

theorem rounded_zero : rounded 0 = 0 := by
  have hzero : nearestEven 0 = 0 := nearestEven_of_lt_half (by norm_num)
  rw [rounded, zero_div, hzero, Nat.cast_zero, zero_mul]

/-- A multiple of its quantum is not rounded any further; 53 bits are never too many. -/
theorem rounded_eq_self {m : ℕ} (hm : m < 2 ^ 53) {e : ℤ} (he : -1074 ≤ e) :
    rounded (m * 2 ^ e) = m * 2 ^ e := by
  by_cases hzero : m = 0
  · rw [hzero, Nat.cast_zero, zero_mul, rounded_zero]
  have hle := log2_add_one_le hm (by norm_num)
  have hquantum : quantum (m * 2 ^ e) ≤ e := by
    rw [quantum_mul_zpow hzero]
    omega
  generalize hk : (e - quantum (m * 2 ^ e)).toNat = k
  have hscaled : (m : ℚ) * 2 ^ e / 2 ^ quantum (m * 2 ^ e) = ((m * 2 ^ k : ℕ) : ℚ) := by
    rw [mul_div_assoc, ← zpow_sub₀ (by norm_num), ← Int.toNat_of_nonneg (sub_nonneg.mpr hquantum), hk,
      zpow_natCast]
    push_cast
    rfl
  rw [rounded, hscaled, nearestEven_natCast, ← hscaled, div_mul_cancel₀ _ (zpow_ne_zero _ two_ne_zero)]

/-- What a canonical form denotes is rounded already. -/
theorem Denotes.rounded_eq {s : Sign} {r : ℚ} {u : UnpackedFloat} (h : Denotes s r u) : rounded r = r := by
  cases h with
  | zero => exact rounded_zero
  | finite hm => exact rounded_eq_self hm.lt hm.le

/-- Rounding does not cross a power of two from above. -/
theorem le_rounded {q : ℚ} {k : ℤ} (hk : -1074 ≤ k) (h : 2 ^ k ≤ q) : 2 ^ k ≤ rounded q := by
  have hq : 0 < q := lt_of_lt_of_le (zpow_pos two_pos k) h
  rw [rounded, ← div_le_iff₀ (zpow_pos (two_pos : (0 : ℚ) < 2) _)]
  by_cases hquantum : quantum q ≤ k
  · have hscaled : (2 : ℚ) ^ k / 2 ^ quantum q = ((2 ^ (k - quantum q).toNat : ℕ) : ℚ) := by
      rw [← zpow_sub₀ (by norm_num), ← Int.toNat_of_nonneg (sub_nonneg.mpr hquantum), zpow_natCast]
      push_cast
      rfl
    rw [hscaled]
    apply Nat.cast_le.mpr
    apply le_nearestEven
    rw [← hscaled]
    exact div_le_div_of_nonneg_right h (zpow_pos two_pos _).le
  · -- the power lies below the quantum, of which there are many in the number
    have hmany : 2 ^ 52 ≤ nearestEven (q / 2 ^ quantum q) := by
      apply le_nearestEven
      exact_mod_cast le_scaled hq (by omega)
    calc (2 : ℚ) ^ k / 2 ^ quantum q ≤ 1 :=
          (div_le_one (zpow_pos two_pos _)).mpr (zpow_le_zpow_right₀ one_le_two (by omega))
      _ ≤ (nearestEven (q / 2 ^ quantum q) : ℚ) := by
          exact_mod_cast le_trans (by norm_num) hmany

/-- Less than half of the smallest double rounds to 0. -/
theorem rounded_eq_zero {q : ℚ} (h0 : 0 ≤ q) (h : q < 2 ^ (-1075 : ℤ)) : rounded q = 0 := by
  rcases h0.lt_or_eq with hq | rfl
  · have hlog : Int.log 2 q < -1075 := by
      rw [← Int.lt_zpow_iff_log_lt (by norm_num) hq]
      exact_mod_cast h
    have hquantum : quantum q = -1074 := by
      unfold quantum
      omega
    have hhalf : q / 2 ^ quantum q < 1 / 2 := by
      rw [hquantum, div_lt_iff₀ (zpow_pos (two_pos : (0 : ℚ) < 2) _)]
      calc q < 2 ^ (-1075 : ℤ) := h
        _ = 2 ^ (-1 : ℤ) * (2 : ℚ) ^ (-1074 : ℤ) := zpow_add₀ (by norm_num) (-1) (-1074)
        _ = 1 / 2 * (2 : ℚ) ^ (-1074 : ℤ) := by rw [zpow_neg_one, one_div]
    rw [rounded, nearestEven_of_lt_half hhalf, Nat.cast_zero, zero_mul]
  · exact rounded_zero

end FuzzyInference.Double

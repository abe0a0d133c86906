import FuzzyInference.Proofs.Double.Folds

/-!
# Values of doubles

A finite double has a rational value. Doubles compare as their values do, and rounding is a monotone map
of the rationals that leaves the values of doubles where they are. So whatever lies between two such
values is rounded to something between them, which is what most bounds of computed numbers rest on.

## Contents
- `nearest`: rounding with a sign. `rounded_mono`, `nearest_mono`: it is monotone;
  `abs_rounded_sub_le`: it loses at most half a quantum.
  `abs_nearest`, `abs_nearest_sub_abs`: the same on both sides of zero.
- `value`, `abs_value_eq`: the number that a finite double is. `lt_iff_value`, `le_iff_value`,
  `beq_iff_value`: the order.
- `Exact`: the values of doubles. `exact_mul_zpow`: 53 bits at an exponent in range.
-/

namespace FuzzyInference.Double

open Float.Model Float.Model.UnpackedFloat
open Scalar

/-! ## Rounding numbers with a sign -/

theorem nearestEven_mono {p q : ℚ} (h0 : 0 ≤ p) (h : p ≤ q) : nearestEven p ≤ nearestEven q := by
  have hfloor : ⌊p⌋₊ ≤ ⌊q⌋₊ := Nat.floor_mono h
  have hp := Nat.floor_le h0
  have hq := Nat.floor_le (h0.trans h)
  rcases hfloor.lt_or_eq with hlt | heq
  · have hle : nearestEven p ≤ ⌊p⌋₊ + 1 := by
      unfold nearestEven
      split
      · omega
      · split <;> omega
    have hge : ⌊q⌋₊ ≤ nearestEven q := le_nearestEven hq
    omega
  · -- below the same whole number the larger fraction is not rounded down where the other is not
    rw [heq] at hp
    unfold nearestEven
    rw [heq]
    split_ifs <;> first | omega | (exfalso; linarith)

/-- Greater numbers have a last place no finer. -/
theorem quantum_mono {p q : ℚ} (h0 : 0 < p) (h : p ≤ q) : quantum p ≤ quantum q := by
  have hlog : Int.log 2 p ≤ Int.log 2 q := Int.log_mono_right h0 h
  unfold quantum
  omega

theorem rounded_le {q : ℚ} {k : ℤ} (hk : -1074 ≤ k) (h0 : 0 ≤ q) (h : q ≤ 2 ^ k) : rounded q ≤ 2 ^ k := by
  rcases h0.lt_or_eq with hq | rfl
  · have hquantum : quantum q ≤ k := by
      have hlog : Int.log 2 q < k + 1 := by
        rw [← Int.lt_zpow_iff_log_lt (by norm_num) hq]
        exact h.trans_lt (zpow_lt_zpow_right₀ (by norm_num) (by omega))
      unfold quantum
      omega
    have hscaled : (2 : ℚ) ^ k / 2 ^ quantum q = ((2 ^ (k - quantum q).toNat : ℕ) : ℚ) := by
      rw [← zpow_sub₀ (by norm_num), ← Int.toNat_of_nonneg (sub_nonneg.mpr hquantum), zpow_natCast]
      push_cast
      rfl
    rw [rounded, ← le_div_iff₀ (zpow_pos (two_pos : (0 : ℚ) < 2) _), hscaled]
    refine Nat.cast_le.mpr (nearestEven_le (div_nonneg h0 (zpow_pos two_pos _).le) ?_)
    rw [← hscaled]
    exact div_le_div_of_nonneg_right h (zpow_pos two_pos _).le
  · rw [rounded_zero]
    exact (zpow_pos two_pos k).le

theorem rounded_nonneg (q : ℚ) : 0 ≤ rounded q :=
  mul_nonneg (Nat.cast_nonneg _) (zpow_pos two_pos _).le

/-- Rounding keeps the order. -/
theorem rounded_mono {p q : ℚ} (h0 : 0 ≤ p) (h : p ≤ q) : rounded p ≤ rounded q := by
  rcases h0.lt_or_eq with hp | rfl
  · rcases (quantum_mono hp h).lt_or_eq with hlt | heq
    · -- where the quantum changes there is a power of two between the numbers
      have hlog : -1074 ≤ Int.log 2 q := by
        unfold quantum at hlt
        omega
      have hq : (2 : ℚ) ^ Int.log 2 q ≤ q := by
        exact_mod_cast Int.zpow_log_le_self (b := 2) (by norm_num) (hp.trans_le h)
      have hpq : p ≤ 2 ^ Int.log 2 q := by
        refine le_of_lt ?_
        rw [← Nat.cast_ofNat, Int.lt_zpow_iff_log_lt (by norm_num) hp]
        unfold quantum at hlt
        omega
      exact (rounded_le hlog h0 hpq).trans (le_rounded hlog hq)
    · rw [rounded, rounded, heq]
      refine mul_le_mul_of_nonneg_right (Nat.cast_le.mpr ?_) (zpow_pos two_pos _).le
      exact nearestEven_mono (div_nonneg h0 (zpow_pos two_pos _).le)
        (div_le_div_of_nonneg_right h (zpow_pos two_pos _).le)
  · rw [rounded_zero]
    exact rounded_nonneg q

/-- The nearest double of a number with a sign, as if exponents had no upper bound. -/
def nearest (q : ℚ) : ℚ := if 0 ≤ q then rounded q else -rounded (-q)

theorem nearest_of_nonneg {q : ℚ} (h : 0 ≤ q) : nearest q = rounded q := if_pos h

theorem nearest_nonneg {q : ℚ} (h : 0 ≤ q) : 0 ≤ nearest q :=
  (rounded_nonneg q).trans_eq (nearest_of_nonneg h).symm

theorem nearest_of_nonpos {q : ℚ} (h : q ≤ 0) : nearest q = -rounded (-q) := by
  rcases h.lt_or_eq with hlt | rfl
  · exact if_neg (not_le.mpr hlt)
  · rw [nearest_of_nonneg le_rfl, neg_zero, rounded_zero, neg_zero]

/-- Rounding is symmetric about 0. -/
theorem nearest_neg (q : ℚ) : nearest (-q) = -nearest q := by
  rcases le_total 0 q with h | h
  · rw [nearest_of_nonpos (neg_nonpos.mpr h), nearest_of_nonneg h, neg_neg]
  · rw [nearest_of_nonneg (neg_nonneg.mpr h), nearest_of_nonpos h, neg_neg]

/-- Rounding to doubles keeps the order. -/
theorem nearest_mono {p q : ℚ} (h : p ≤ q) : nearest p ≤ nearest q := by
  rcases le_total 0 p with hp | hp
  · rw [nearest_of_nonneg hp, nearest_of_nonneg (hp.trans h)]
    exact rounded_mono hp h
  · rw [nearest_of_nonpos hp]
    rcases le_total 0 q with hq | hq
    · rw [nearest_of_nonneg hq]
      exact (neg_nonpos.mpr (rounded_nonneg _)).trans (rounded_nonneg _)
    · rw [nearest_of_nonpos hq]
      exact neg_le_neg (rounded_mono (neg_nonneg.mpr hq) (neg_le_neg h))

theorem abs_nearest (q : ℚ) : |nearest q| = nearest |q| := by
  rcases le_total 0 q with h | h
  · rw [abs_of_nonneg h, abs_of_nonneg (nearest_nonneg h)]
  · have hneg := nearest_nonneg (neg_nonneg.mpr h)
    rw [abs_of_nonpos h, ← abs_neg, ← nearest_neg, abs_of_nonneg hneg]

/-- Rounding loses the same on both sides of zero. -/
theorem abs_nearest_sub_abs (q : ℚ) : |nearest |q| - (|q|)| = |nearest q - q| := by
  rcases le_total 0 q with h | h
  · rw [abs_of_nonneg h]
  · rw [abs_of_nonpos h, nearest_neg, neg_sub_neg, abs_sub_comm]

/-- What rounding loses is at most half of the quantum. -/
theorem abs_rounded_sub_le {q : ℚ} (h : 0 ≤ q) : |rounded q - q| ≤ 2 ^ (quantum q - 1) := by
  have hscale : rounded q - q =
      ((nearestEven (q / 2 ^ quantum q) : ℚ) - q / 2 ^ quantum q) * 2 ^ quantum q := by
    rw [rounded, sub_mul, div_mul_cancel₀ _ (zpow_pos (two_pos : (0 : ℚ) < 2) _).ne']
  have hhalf : |(nearestEven (q / 2 ^ quantum q) : ℚ) - q / 2 ^ quantum q| ≤ 1 / 2 := by
    generalize hp : q / 2 ^ quantum q = p
    have hp0 : 0 ≤ p := hp ▸ div_nonneg h (zpow_pos two_pos _).le
    have hlow := Nat.floor_le hp0
    have hhigh := Nat.lt_floor_add_one p
    unfold nearestEven
    rw [abs_le]
    split_ifs
    · constructor <;> linarith
    · push_cast
      constructor <;> linarith
    · -- in the middle both neighbors are as near
      have hmiddle : p - ⌊p⌋₊ = 1 / 2 := le_antisymm (by linarith) (by linarith)
      rcases Nat.mod_two_eq_zero_or_one ⌊p⌋₊ with hbit | hbit <;> rw [hbit] <;> push_cast <;>
        constructor <;> linarith
  rw [hscale, abs_mul, abs_of_pos (zpow_pos (two_pos : (0 : ℚ) < 2) _), zpow_sub_one₀ (by norm_num),
    mul_comm ((2 : ℚ) ^ _)]
  refine mul_le_mul_of_nonneg_right ?_ (zpow_pos two_pos _).le
  rwa [← one_div]

/-! ## Values -/

/-- A magnitude with a sign. -/
def signed : Sign → ℚ → ℚ
  | .positive, q => q
  | .negative, q => -q

theorem signed_neg (s : Sign) (q : ℚ) : signed (-s) q = -signed s q := by
  cases s
  · exact (neg_neg q).symm
  · rfl

theorem signed_mul (s t : Sign) (p q : ℚ) : signed (s * t) (p * q) = signed s p * signed t q := by
  cases s <;> cases t
  · exact (neg_mul_neg p q).symm
  · exact (neg_mul p q).symm
  · exact (mul_neg p q).symm
  · rfl

theorem signed_div (s t : Sign) (p q : ℚ) : signed (s / t) (p / q) = signed s p / signed t q := by
  cases s <;> cases t
  · exact (neg_div_neg_eq p q).symm
  · exact (neg_div q p).symm
  · exact (div_neg p).symm
  · rfl

theorem nearest_signed (s : Sign) {q : ℚ} (h : 0 ≤ q) : nearest (signed s q) = signed s (rounded q) := by
  cases s
  · rw [signed, nearest_neg, nearest_of_nonneg h]
    rfl
  · exact nearest_of_nonneg h

/-- The value of a finite double. -/
def value (x : Float) : ℚ := signed (signOf x) (magnitude x)

theorem magnitude_nonneg (x : Float) : 0 ≤ magnitude x :=
  mul_nonneg (Nat.cast_nonneg _) (zpow_pos two_pos _).le

theorem abs_value_eq (x : Float) : |value x| = magnitude x := by
  unfold value
  cases signOf x
  · exact (abs_neg _).trans (abs_of_nonneg (magnitude_nonneg x))
  · exact abs_of_nonneg (magnitude_nonneg x)

theorem Denotes.nonneg {s : Sign} {r : ℚ} {u : UnpackedFloat} (h : Denotes s r u) : 0 ≤ r := by
  cases h with
  | zero => exact le_rfl
  | finite hm => exact hm.value_pos.le

/-- The value of a double is the signed number it denotes. -/
theorem Denotes.value_eq {s : Sign} {r : ℚ} {x : Float} (h : Denotes s r x.toModel.unpack) :
    value x = signed s r := by
  obtain ⟨-, rfl, rfl⟩ := denotes_iff.mp h
  rfl

/-! ## The order of values -/

/-- Of two canonical numbers, the one with the greater exponent is greater. -/
theorem Canonical.lt_of_exponent_lt {m n : ℕ} {e f : ℤ} (hm : Canonical m e) (hn : Canonical n f)
    (h : e < f) : (m : ℚ) * 2 ^ e < n * 2 ^ f := by
  have hfull : 2 ^ 52 ≤ n := by
    rcases hn.full with hfull | hleast
    · exact hfull
    · have := hm.le
      omega
  calc (m : ℚ) * 2 ^ e < 2 ^ 53 * 2 ^ e :=
        mul_lt_mul_of_pos_right (by exact_mod_cast hm.lt) (zpow_pos two_pos e)
    _ = 2 ^ 52 * 2 ^ (e + 1) := by rw [two_zpow_succ]; ring
    _ ≤ n * 2 ^ f := by
        apply mul_le_mul _ (zpow_le_zpow_right₀ one_le_two (by omega)) (zpow_pos two_pos _).le
          (Nat.cast_nonneg n)
        exact_mod_cast hfull

/-- By exponent first and then by significand is by value. -/
theorem Canonical.lt_of_lex {m n : ℕ} {e f : ℤ} (hm : Canonical m e) (hn : Canonical n f)
    (h : e < f ∨ e = f ∧ m < n) : (m : ℚ) * 2 ^ e < n * 2 ^ f := by
  rcases h with hlt | ⟨rfl, hlt⟩
  · exact hm.lt_of_exponent_lt hn hlt
  · exact mul_lt_mul_of_pos_right (Nat.cast_lt.mpr hlt) (zpow_pos two_pos e)

theorem signed_zero (s : Sign) : signed s 0 = 0 := by
  cases s
  · exact neg_zero
  · rfl

/-- Places of finite doubles are in the order of their values. -/
theorem Denotes.signed_lt {s t : Sign} {p q : ℚ} {u v : UnpackedFloat} (hu : Denotes s p u)
    (hv : Denotes t q v) {k l : ℤ ×ₗ ℤ ×ₗ ℤ} (hk : rank u = some k) (hl : rank v = some l) (h : k < l) :
    signed s p < signed t q := by
  -- zeros rank as 0 whatever their sign; else the sign decides, then exponent and significand
  cases hu with
  | zero =>
    cases hk
    rw [signed_zero]
    cases hv with
    | zero =>
      cases hl
      exact absurd h (lt_irrefl _)
    | finite hn =>
      cases t with
      | negative =>
        cases hl
        simp [Prod.Lex.toLex_lt_toLex] at h
      | positive => exact hn.value_pos
  | finite hm =>
    cases hv with
    | zero =>
      cases hl
      rw [signed_zero]
      cases s with
      | negative => exact neg_neg_of_pos hm.value_pos
      | positive =>
        cases hk
        simp [Prod.Lex.toLex_lt_toLex] at h
    | finite hn =>
      cases s with
      | negative =>
        cases t with
        | negative =>
          cases hk
          cases hl
          simp only [Prod.Lex.toLex_lt_toLex, lt_self_iff_false, true_and, false_or, neg_lt_neg_iff,
            neg_inj, Nat.cast_lt] at h
          exact neg_lt_neg (hn.lt_of_lex hm (h.imp_right fun ⟨he, hlt⟩ => ⟨he.symm, hlt⟩))
        | positive => exact (neg_neg_of_pos hm.value_pos).trans hn.value_pos
      | positive =>
        cases hk
        cases t with
        | negative =>
          cases hl
          simp [Prod.Lex.toLex_lt_toLex] at h
        | positive =>
          cases hl
          simp only [Prod.Lex.toLex_lt_toLex, lt_self_iff_false, true_and, false_or, Nat.cast_lt] at h
          exact hm.lt_of_lex hn h

theorem rankOf_of_isFinite {x : Float} (h : isFinite x = true) : ∃ k, rankOf x = some k :=
  not_isNaN_iff.mp (not_isNaN_of_isFinite h)

variable {x y : Float}

/-- Finite doubles of one place have one value. -/
theorem value_eq_of_rankOf_eq (hx : isFinite x = true) (hy : isFinite y = true)
    (h : rankOf x = rankOf y) : value x = value y := by
  have hdx := denotes_unpack hx
  have hdy := denotes_unpack hy
  unfold rankOf at h
  unfold value
  generalize x.toModel.unpack = u at hdx h
  generalize y.toModel.unpack = v at hdy h
  generalize signOf x = s at hdx ⊢
  generalize signOf y = t at hdy ⊢
  generalize magnitude x = p at hdx ⊢
  generalize magnitude y = q at hdy ⊢
  -- ranks tell signs, exponents and significands apart, and only the two zeros share one
  cases hdx with
  | zero =>
    cases hdy with
    | zero => rw [signed_zero, signed_zero]
    | finite hn => cases t <;> simp [rank] at h
  | finite hm =>
    cases hdy with
    | zero => cases s <;> simp [rank] at h
    | finite hn =>
      cases s <;> cases t <;> simp [rank] at h <;> rw [h.1, h.2]

theorem lt_iff_of_rankOf {k l : ℤ ×ₗ ℤ ×ₗ ℤ} (hk : rankOf x = some k) (hl : rankOf y = some l) :
    x < y ↔ k < l := by
  simp [lt_iff, hk, hl]

theorem le_iff_of_rankOf {k l : ℤ ×ₗ ℤ ×ₗ ℤ} (hk : rankOf x = some k) (hl : rankOf y = some l) :
    x ≤ y ↔ k ≤ l := by
  rw [le_iff]
  constructor
  · rintro ⟨k', l', hk', hl', h⟩
    rw [hk] at hk'
    rw [hl] at hl'
    cases hk'
    cases hl'
    exact h
  · exact fun h => ⟨k, l, hk, hl, h⟩

theorem beq_iff_of_rankOf {k l : ℤ ×ₗ ℤ ×ₗ ℤ} (hk : rankOf x = some k) (hl : rankOf y = some l) :
    (x == y) = true ↔ k = l := by
  rw [beq_iff]
  constructor
  · rintro ⟨k', hk', hl'⟩
    rw [hk] at hk'
    rw [hl] at hl'
    cases hk'
    cases hl'
    rfl
  · rintro rfl
    exact ⟨k, hk, hl⟩

theorem le_iff_not_lt (hx : isNaN x = false) (hy : isNaN y = false) : x ≤ y ↔ ¬ y < x := by
  obtain ⟨k, hk⟩ := not_isNaN_iff.mp hx
  obtain ⟨l, hl⟩ := not_isNaN_iff.mp hy
  rw [lt_iff_of_rankOf hl hk, le_iff_of_rankOf hk hl, not_lt]

theorem trans_of_le {z : Float} (hxy : x ≤ y) (hyz : y ≤ z) : x ≤ z := by
  obtain ⟨k, l, hk, hl, hkl⟩ := le_iff.mp hxy
  obtain ⟨m, hm⟩ := not_isNaN_iff.mp (not_isNaN_of_le hyz).2
  exact (le_iff_of_rankOf hk hm).mpr (hkl.trans ((le_iff_of_rankOf hl hm).mp hyz))

theorem beq_iff_not_lt (hx : isNaN x = false) (hy : isNaN y = false) :
    (x == y) = true ↔ ¬ x < y ∧ ¬ y < x := by
  obtain ⟨k, hk⟩ := not_isNaN_iff.mp hx
  obtain ⟨l, hl⟩ := not_isNaN_iff.mp hy
  rw [beq_iff_of_rankOf hk hl, lt_iff_of_rankOf hk hl, lt_iff_of_rankOf hl hk, not_lt, not_lt, and_comm,
    ← le_antisymm_iff]

/-- Finite doubles are ordered by value. -/
theorem lt_iff_value (hx : isFinite x = true) (hy : isFinite y = true) : x < y ↔ value x < value y := by
  obtain ⟨k, hk⟩ := rankOf_of_isFinite hx
  obtain ⟨l, hl⟩ := rankOf_of_isFinite hy
  rw [lt_iff_of_rankOf hk hl]
  rcases lt_trichotomy k l with h | rfl | h
  · exact iff_of_true h ((denotes_unpack hx).signed_lt (denotes_unpack hy) hk hl h)
  · exact iff_of_false (lt_irrefl k) (value_eq_of_rankOf_eq hx hy (hk.trans hl.symm)).not_lt
  · exact iff_of_false h.not_gt ((denotes_unpack hy).signed_lt (denotes_unpack hx) hl hk h).not_gt

theorem le_iff_value (hx : isFinite x = true) (hy : isFinite y = true) : x ≤ y ↔ value x ≤ value y := by
  rw [le_iff_not_lt (not_isNaN_of_isFinite hx) (not_isNaN_of_isFinite hy), lt_iff_value hy hx, not_lt]

/-- Finite doubles are equal when their values are. -/
theorem beq_iff_value (hx : isFinite x = true) (hy : isFinite y = true) :
    (x == y) = true ↔ value x = value y := by
  rw [beq_iff_not_lt (not_isNaN_of_isFinite hx) (not_isNaN_of_isFinite hy), lt_iff_value hx hy,
    lt_iff_value hy hx, not_lt, not_lt]
  exact ⟨fun h => le_antisymm h.2 h.1, fun h => ⟨h.ge, h.le⟩⟩

/-! ## What is not rounded -/

/-- The number is the value of a double. -/
structure Exact (q : ℚ) : Prop where
  nearest_eq : nearest q = q
  lt_tooLarge : |q| < tooLarge

theorem Exact.neg {q : ℚ} (h : Exact q) : Exact (-q) :=
  ⟨by rw [nearest_neg, h.nearest_eq], by rw [abs_neg]; exact h.lt_tooLarge⟩

/-- What fits into 53 bits within the range of exponents is a double. -/
theorem exact_mul_zpow {m : ℕ} (hm : m < 2 ^ 53) {e : ℤ} (he : -1074 ≤ e) (he' : e ≤ 971) :
    Exact (m * 2 ^ e) := by
  have h0 : (0 : ℚ) ≤ m * 2 ^ e := mul_nonneg (Nat.cast_nonneg m) (zpow_pos two_pos e).le
  refine ⟨by rw [nearest_of_nonneg h0, rounded_eq_self hm he], ?_⟩
  rw [abs_of_nonneg h0]
  calc (m : ℚ) * 2 ^ e < 2 ^ (53 : ℤ) * 2 ^ e :=
        mul_lt_mul_of_pos_right (by exact_mod_cast hm) (zpow_pos two_pos e)
    _ = 2 ^ (53 + e) := (zpow_add₀ (by norm_num) _ _).symm
    _ ≤ tooLarge := zpow_le_zpow_right₀ one_le_two (by omega)

theorem exact_natCast {n : ℕ} (h : n < 2 ^ 53) : Exact n := by
  simpa using exact_mul_zpow h (by norm_num : (-1074 : ℤ) ≤ 0) (by norm_num)

theorem exact_zero : Exact 0 := exact_natCast (n := 0) (by norm_num)

theorem exact_one : Exact 1 := exact_natCast (n := 1) (by norm_num)

theorem Denotes.exact {s : Sign} {r : ℚ} {x : Float} (h : Denotes s r x.toModel.unpack) :
    Exact (signed s r) := by
  have h0 := h.nonneg
  have hr : Exact r :=
    ⟨(nearest_of_nonneg h0).trans h.rounded_eq, (abs_of_nonneg h0).trans_lt h.lt_tooLarge⟩
  cases s
  · exact hr.neg
  · exact hr

theorem exact_value (hx : isFinite x = true) : Exact (value x) := (denotes_unpack hx).exact

end FuzzyInference.Double

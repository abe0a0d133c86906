import FuzzyInference.Decimal.Style
import FuzzyInference.Proofs.Decimal.Shortest
import FuzzyInference.Proofs.Json.Numeral

/-!
# Written numbers read back

Documents write a double as the shortest decimal in one of three layouts. All of them are numerals, and
none of them changes the value of the decimal, so the numeral reads as the double.

## Contents
- `significant`: the digits of a decimal that are written.
- `exists_numeral`: every layout is a numeral of the decimal's value.
- `doubleOf?_render`: a finite double is read back from its text. `isFinite_of_toDouble?`: nothing else is.
-/

namespace FuzzyInference

open Json Float.Model.UnpackedFloat Double

/-! ## Digits -/

theorem natOfDigits_eq (digits : List Char) : natOfDigits digits = Nat.ofDigitChars 10 digits 0 :=
  Nat.ofDigitChars_eq_foldl.symm

theorem natOfDigits_zeros_append (k : ℕ) (digits : List Char) :
    natOfDigits (List.replicate k '0' ++ digits) = natOfDigits digits := by
  rw [natOfDigits_eq, Nat.ofDigitChars_append, Nat.ofDigitChars_replicate_zero, Nat.mul_zero,
    ← natOfDigits_eq]

/-- Trailing zeros multiply it by powers of ten. -/
theorem natOfDigits_append_zeros (digits : List Char) (k : ℕ) :
    natOfDigits (digits ++ List.replicate k '0') = natOfDigits digits * 10 ^ k := by
  rw [natOfDigits_eq, Nat.ofDigitChars_append, Nat.ofDigitChars_replicate_zero, ← natOfDigits_eq,
    Nat.mul_comm]

/-- A positive number does not start with a zero. -/
theorem head_toDigits {n : ℕ} (hn : n ≠ 0) : ∀ c ∈ (Nat.toDigits 10 n).head?, c ≠ '0' := by
  induction n using Nat.strong_induction_on with
  | _ n ih =>
    by_cases hlt : n < 10
    · rw [Nat.toDigits_of_lt_base hlt]
      intro c hc
      obtain rfl : n.digitChar = c := Option.some.inj hc
      intro heq
      have hcode := Nat.toNat_digitChar_of_lt_ten hlt
      rw [heq] at hcode
      change 48 = 48 + n at hcode
      omega
    · rw [Nat.toDigits_of_base_le (by norm_num) (by omega), List.head?_append_of_ne_nil _ Nat.toDigits_ne_nil]
      exact ih (n / 10) (by omega) (by omega)

theorem exists_zeros_append (cs : List Char) :
    ∃ k, cs = List.replicate k '0' ++ cs.dropWhile (· = '0') := by
  induction cs with
  | nil => exact ⟨0, rfl⟩
  | cons c cs ih =>
    by_cases hc : c = '0'
    · obtain ⟨k, hk⟩ := ih
      subst hc
      exact ⟨k + 1, congrArg ('0' :: ·) hk⟩
    · exact ⟨0, by rw [List.dropWhile_cons_of_neg (by simpa using hc)]; rfl⟩

namespace Decimal

/-- The digits of a decimal without the zeros at the end. -/
def significant (d : Decimal) : List Char := (d.digits.reverse.dropWhile (· = '0')).reverse

variable (d : Decimal)

/-- The digits of a decimal are its significant ones and zeros. -/
theorem digits_eq : ∃ k, d.digits = d.significant ++ List.replicate k '0' := by
  obtain ⟨k, hk⟩ := exists_zeros_append d.digits.reverse
  refine ⟨k, ?_⟩
  have hreverse := congrArg List.reverse hk
  rw [List.reverse_reverse, List.reverse_append, List.reverse_replicate] at hreverse
  exact hreverse

theorem isDigit_significant : ∀ c ∈ d.significant, c.isDigit = true := by
  obtain ⟨k, hk⟩ := d.digits_eq
  intro c hc
  apply Nat.isDigit_of_mem_toDigits (b := 10) (n := d.coefficient) (by norm_num) (by norm_num)
  show c ∈ d.digits
  rw [hk]
  exact List.mem_append_left _ hc

theorem coefficient_eq : d.coefficient = natOfDigits d.digits := by
  rw [natOfDigits_eq, digits, Nat.ofDigitChars_ten_toDigits]

theorem significant_ne_nil {d : Decimal} (h : d.coefficient ≠ 0) : d.significant ≠ [] := by
  obtain ⟨k, hk⟩ := d.digits_eq
  intro hnil
  apply h
  rw [coefficient_eq, hk, hnil, List.nil_append, natOfDigits_eq, Nat.ofDigitChars_replicate_zero,
    Nat.mul_zero]

/-- The first significant digit is not 0, so it can start a number. -/
theorem significant_eq_cons {d : Decimal} (h : d.coefficient ≠ 0) :
    ∃ c cs, d.significant = c :: cs ∧ c ≠ '0' := by
  obtain ⟨k, hk⟩ := d.digits_eq
  cases hs : d.significant with
  | nil => exact absurd hs (significant_ne_nil h)
  | cons c cs =>
    refine ⟨c, cs, rfl, ?_⟩
    apply head_toDigits h
    show c ∈ d.digits.head?
    rw [hk, hs]
    rfl

/-- The value, read off the digits that are written. -/
theorem value_eq : d.value = natOfDigits d.significant * 10 ^ (d.lead + 1 - d.significant.length) := by
  obtain ⟨k, hk⟩ := d.digits_eq
  have hlength : d.digits.length = d.significant.length + k := by
    rw [hk, List.length_append, List.length_replicate]
  rw [value, coefficient_eq, hk, natOfDigits_append_zeros, Nat.cast_mul, Nat.cast_pow, Nat.cast_ofNat,
    mul_assoc, ← zpow_natCast, ← zpow_add₀ (by norm_num), lead, hlength]
  congr 2
  push_cast
  ring

end Decimal

/-! ## Layouts -/

/-- A numeral has no sign. -/
theorem Numeral.doubleOf?_text (n : Numeral) : doubleOf? n.text = n.decimal.toDouble? := by
  obtain ⟨c, cs, htext, hc⟩ := n.text_eq_cons
  rw [← n.decimalOf_text, htext]
  unfold doubleOf?
  split
  next heq =>
    rw [(List.cons.inj heq).1] at hc
    exact absurd hc (by decide)
  next => rfl

/-- The value of a numeral that shows the digits of a decimal, with zeros behind them. -/
theorem Numeral.value_decimal_eq {n : Numeral} {d : Decimal} (k : ℕ)
    (hdigits : natOfDigits (n.whole ++ n.fraction) = natOfDigits (d.significant ++ List.replicate k '0'))
    (hexponent : k + exponentOf n.exponent - n.fraction.length = d.lead + 1 - d.significant.length) :
    n.decimal.value = d.value := by
  show ((natOfDigits (n.whole ++ n.fraction) : ℕ) : ℚ) * 10 ^ (exponentOf n.exponent - n.fraction.length) = _
  rw [hdigits, natOfDigits_append_zeros, d.value_eq, ← hexponent, Nat.cast_mul, Nat.cast_pow,
    Nat.cast_ofNat, mul_assoc, ← zpow_natCast, ← zpow_add₀ (by norm_num), add_sub_assoc]

theorem pointed_of_ne_nil {digits : List Char} (h : digits ≠ []) : pointed digits = '.' :: digits := by
  cases digits with
  | nil => exact absurd rfl h
  | cons d ds => rfl

namespace NumberStyle

theorem isDigit_zeros {k : ℕ} : ∀ c ∈ List.replicate k '0', c.isDigit = true := by
  intro c hc
  rw [(List.mem_replicate.mp hc).2]
  decide

variable {d : Decimal}

/-- Below one: zeros stand between the point and the digits. -/
theorem exists_numeral_small (h : d.coefficient ≠ 0) (hlead : d.lead < 0) :
    ∃ n : Numeral, (document.positional d.significant d.lead).toList = n.text ∧
      n.decimal.value = d.value := by
  have hne : List.replicate (-d.lead - 1).toNat '0' ++ d.significant ≠ [] := by
    intro hnil
    exact Decimal.significant_ne_nil h (List.append_eq_nil_iff.mp hnil).2
  refine ⟨{
    whole := ['0']
    fraction := List.replicate (-d.lead - 1).toNat '0' ++ d.significant
    exponent := []
    isDigit_whole := List.forall_mem_singleton.mpr rfl
    whole_eq := Or.inl rfl
    isDigit_fraction := List.forall_mem_append.mpr ⟨isDigit_zeros, d.isDigit_significant⟩
    exponent_eq := Or.inl rfl }, ?_, ?_⟩
  · rw [positional, if_pos hlead, Numeral.text, pointed_of_ne_nil hne]
    simp
  · apply Numeral.value_decimal_eq 0
    · rw [List.replicate_zero, List.append_nil]
      exact natOfDigits_zeros_append ((-d.lead - 1).toNat + 1) d.significant
    · show ((0 : ℕ) : ℤ) + 0 - ((List.replicate (-d.lead - 1).toNat '0' ++ d.significant).length : ℤ) = _
      rw [List.length_append, List.length_replicate]
      omega

/-- Whole numbers: zeros stand between the digits and the point, and one behind it. -/
theorem exists_numeral_whole (h : d.coefficient ≠ 0) (hlead : 0 ≤ d.lead)
    (hlength : d.significant.length ≤ d.lead.toNat + 1) :
    ∃ n : Numeral, (document.positional d.significant d.lead).toList = n.text ∧
      n.decimal.value = d.value := by
  obtain ⟨c, cs, hs, hc⟩ := Decimal.significant_eq_cons h
  generalize hk : d.lead.toNat + 1 - d.significant.length = k
  refine ⟨{
    whole := d.significant ++ List.replicate k '0'
    fraction := ['0']
    exponent := []
    isDigit_whole := List.forall_mem_append.mpr ⟨d.isDigit_significant, isDigit_zeros⟩
    whole_eq := Or.inr ⟨c, cs ++ List.replicate k '0', by rw [hs]; rfl, hc⟩
    isDigit_fraction := List.forall_mem_singleton.mpr rfl
    exponent_eq := Or.inl rfl }, ?_, ?_⟩
  · simp only [positional]
    rw [if_neg (by omega), List.take_of_length_le hlength, List.drop_of_length_le hlength, hk]
    simp [Numeral.text, pointed, document]
  · apply Numeral.value_decimal_eq (k + 1)
    · rw [List.replicate_succ', ← List.append_assoc]
    · show ((k + 1 : ℕ) : ℤ) + 0 - ((['0'] : List Char).length : ℤ) = _
      rw [List.length_singleton]
      omega

/-- The point stands between the digits. -/
theorem exists_numeral_split (h : d.coefficient ≠ 0) (hlead : 0 ≤ d.lead)
    (hlength : d.lead.toNat + 1 < d.significant.length) :
    ∃ n : Numeral, (document.positional d.significant d.lead).toList = n.text ∧
      n.decimal.value = d.value := by
  obtain ⟨c, cs, hs, hc⟩ := Decimal.significant_eq_cons h
  -- the point lies inside the digits, so there is a fraction
  have hne : d.significant.drop (d.lead.toNat + 1) ≠ [] := by
    intro hnil
    have := List.drop_eq_nil_iff.mp hnil
    omega
  refine ⟨{
    whole := d.significant.take (d.lead.toNat + 1)
    fraction := d.significant.drop (d.lead.toNat + 1)
    exponent := []
    isDigit_whole := fun c hc => d.isDigit_significant c (List.mem_of_mem_take hc)
    whole_eq := Or.inr ⟨c, cs.take d.lead.toNat, by rw [hs]; rfl, hc⟩
    isDigit_fraction := fun c hc => d.isDigit_significant c (List.mem_of_mem_drop hc)
    exponent_eq := Or.inl rfl }, ?_, ?_⟩
  · have hfull : (d.significant.take (d.lead.toNat + 1)).length = d.lead.toNat + 1 := by
      rw [List.length_take]
      omega
    simp only [positional]
    rw [if_neg (by omega), if_neg (by simpa using hne), hfull, Nat.sub_self, Numeral.text,
      pointed_of_ne_nil hne]
    simp
  · apply Numeral.value_decimal_eq 0
    · rw [List.replicate_zero, List.append_nil]
      exact congrArg natOfDigits (List.take_append_drop _ _)
    · show ((0 : ℕ) : ℤ) + 0 - ((d.significant.drop (d.lead.toNat + 1)).length : ℤ) = _
      rw [List.length_drop]
      omega

/-- One digit before the point, the others behind it, and an exponent. -/
theorem exists_numeral_scientific (h : d.coefficient ≠ 0) :
    ∃ n : Numeral, (document.scientific d.significant d.lead).toList = n.text ∧
      n.decimal.value = d.value := by
  obtain ⟨c, cs, hs, hc⟩ := Decimal.significant_eq_cons h
  have hdigits := d.isDigit_significant
  rw [hs] at hdigits
  have hexponent : ∀ e ∈ Nat.toDigits 10 d.lead.natAbs, e.isDigit = true :=
    fun e he => Nat.isDigit_of_mem_toDigits (by norm_num) (by norm_num) he
  -- one digit before the point, the others behind it, and the lead as exponent
  refine ⟨{
    whole := [c]
    fraction := cs
    exponent := 'e' :: (if d.lead < 0 then '-' else '+') :: Nat.toDigits 10 d.lead.natAbs
    isDigit_whole := fun e he => hdigits e (List.mem_cons.mpr (Or.inl (List.mem_singleton.mp he)))
    whole_eq := Or.inr ⟨c, [], rfl, hc⟩
    isDigit_fraction := fun e he => hdigits e (List.mem_cons_of_mem _ he)
    exponent_eq := Or.inr ⟨_, _, rfl, by split <;> simp, Nat.toDigits_ne_nil, hexponent⟩ }, ?_, ?_⟩
  · rw [hs]
    by_cases hlead : d.lead < 0 <;> cases cs <;>
      simp [scientific, document, Numeral.text, pointed, hlead]
  · apply Numeral.value_decimal_eq 0
    · rw [List.replicate_zero, List.append_nil, hs]
      rfl
    · rw [hs]
      show ((0 : ℕ) : ℤ) + exponentOf ('e' :: (if d.lead < 0 then '-' else '+') ::
        Nat.toDigits 10 d.lead.natAbs) - (cs.length : ℤ) = _
      have hwritten : natOfDigits (Nat.toDigits 10 d.lead.natAbs) = d.lead.natAbs := by
        rw [natOfDigits_eq, Nat.ofDigitChars_ten_toDigits]
      rw [List.length_cons]
      by_cases hlead : d.lead < 0
      · rw [if_pos hlead]
        show ((0 : ℕ) : ℤ) + -(natOfDigits (Nat.toDigits 10 d.lead.natAbs) : ℤ) - (cs.length : ℤ) = _
        omega
      · rw [if_neg hlead]
        show ((0 : ℕ) : ℤ) + (natOfDigits (Nat.toDigits 10 d.lead.natAbs) : ℤ) - (cs.length : ℤ) = _
        omega

/-- Every layout is a numeral of the decimal's value. -/
theorem exists_numeral (h : d.coefficient ≠ 0) :
    ∃ n : Numeral, (document.ofDecimal d).toList = n.text ∧ n.decimal.value = d.value := by
  show ∃ n : Numeral, (if document.isPositional d.lead then document.positional d.significant d.lead
    else document.scientific d.significant d.lead).toList = n.text ∧ n.decimal.value = d.value
  split
  · by_cases hlead : d.lead < 0
    · exact exists_numeral_small h hlead
    · by_cases hlength : d.significant.length ≤ d.lead.toNat + 1
      · exact exists_numeral_whole h (not_lt.mp hlead) hlength
      · exact exists_numeral_split h (not_lt.mp hlead) (not_le.mp hlength)
  · exact exists_numeral_scientific h

/-! ## Doubles -/

/-- The numeral of a zero. -/
def zeroNumeral : Numeral where
  whole := ['0']
  fraction := ['0']
  exponent := []
  isDigit_whole := List.forall_mem_singleton.mpr rfl
  whole_eq := Or.inl rfl
  isDigit_fraction := List.forall_mem_singleton.mpr rfl
  exponent_eq := Or.inl rfl

/-- What documents write behind the sign reads as the double without its sign. -/
theorem exists_numeral_magnitude {r : ℚ} {x : Float} (h : Denotes .positive r x.toModel.unpack) :
    ∃ n : Numeral, (if x == 0.0 then "0" ++ document.wholeMark
        else document.ofDecimal (Decimal.shortest document.tie x)).toList = n.text ∧
      n.decimal.toDouble? = some x := by
  split
  next hzero =>
    obtain rfl := (beq_zero_iff h).mp hzero
    refine ⟨zeroNumeral, rfl, ?_⟩
    have hvalue : zeroNumeral.decimal.value = 0 := by
      show ((0 : ℕ) : ℚ) * _ = 0
      rw [Nat.cast_zero, zero_mul]
    rw [Decimal.toDouble?_eq_some_iff, hvalue, rounded_zero]
    exact h
  next hzero =>
    have hshortest : (Decimal.shortest document.tie x).toDouble? = some x := Decimal.toDouble?_shortest h
    have hcoefficient : (Decimal.shortest document.tie x).coefficient ≠ 0 := by
      intro hcoefficient
      rw [Decimal.toDouble?, if_pos hcoefficient] at hshortest
      obtain rfl := Option.some.inj hshortest
      exact hzero ((beq_zero_iff denotes_zero).mpr rfl)
    obtain ⟨n, htext, hvalue⟩ := exists_numeral hcoefficient
    exact ⟨n, htext, (Decimal.toDouble?_congr hvalue).trans hshortest⟩

end NumberStyle

/-- A finite double is written as a numeral behind its sign. -/
theorem exists_numeral_render {x : Float} (hx : Scalar.isFinite x = true) :
    ∃ n : Numeral, (NumberStyle.document.render x).toList =
      (if (unpack x).negative then ['-'] else []) ++ n.text ∧ n.decimal.toDouble? = some x.abs := by
  have hfinite : x.isNaN = false ∧ x.isInf = false := by
    change (!x.isNaN && !x.isInf) = true at hx
    simpa using hx
  obtain ⟨n, htext, hread⟩ := NumberStyle.exists_numeral_magnitude (denotes_abs (denotes_unpack hx))
  refine ⟨n, ?_, hread⟩
  rw [← htext, NumberStyle.render, if_neg (Bool.eq_false_iff.mp hfinite.1),
    if_neg (Bool.eq_false_iff.mp hfinite.2)]
  cases (unpack x).negative <;> simp

/-- A finite double is read back from its text. -/
theorem doubleOf?_render {x : Float} (hx : Scalar.isFinite x = true) :
    doubleOf? (NumberStyle.document.render x).toList = some x := by
  obtain ⟨n, htext, hread⟩ := exists_numeral_render hx
  have hdenotes := denotes_unpack hx
  have habs := denotes_abs hdenotes
  rw [htext]
  -- the sign is read first and put back by a negation
  cases hnegative : (unpack x).negative with
  | true =>
    have hsign : signOf x = .negative := by
      rw [signOf, Unpacked.sign, hnegative]
      rfl
    rw [hsign] at hdenotes
    show (decimalOf n.text).toDouble?.map (-·) = some x
    rw [n.decimalOf_text, hread, Option.map_some, eq_of_denotes (denotes_neg habs) hdenotes]
  | false =>
    have hsign : signOf x = .positive := by
      rw [signOf, Unpacked.sign, hnegative]
      rfl
    rw [hsign] at hdenotes
    show doubleOf? n.text = some x
    rw [n.doubleOf?_text, hread, eq_of_denotes habs hdenotes]

/-- Only finite doubles are read. -/
theorem Json.isFinite_of_toDouble? {j : Json} {x : Float} (h : j.toDouble? = some x) : Scalar.isFinite x = true := by
  cases j with
  | number literal =>
    change doubleOf? literal = some x at h
    unfold doubleOf? at h
    split at h
    next magnitude =>
      obtain ⟨y, hy, rfl⟩ := Option.map_eq_some_iff.mp h
      have hdenotes := Double.denotes_neg (Decimal.toDouble?_eq_some_iff.mp hy)
      exact (Double.denotes_iff.mp hdenotes).1
    next => exact (Double.denotes_iff.mp (Decimal.toDouble?_eq_some_iff.mp h)).1
  | _ => cases h

end FuzzyInference

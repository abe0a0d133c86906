import FuzzyInference.Proofs.Double.Order
import FuzzyInference.Proofs.Scalar.Ordered

/-!
# Largest, smallest and total of doubles

The largest of some doubles and, where it is positive, the smallest of them do not depend on the order in
which they are compared: NaN gives way to every other number, and of the numbers that are not negative
only the two zeros compare as equal without being equal. A total of positive doubles depends on the
order, since every step rounds, but it is never zero.

## Contents
- `IsMagnitude.eq_of_not_lt`: numbers of which neither is smaller are equal.
- `foldl_greater_congr`, `foldl_lesser_congr`: the largest and the smallest.
- `add_pos`, `sum_pos`: totals.
-/

namespace FuzzyInference.Double

open Float.Model Float.Model.UnpackedFloat
open Scalar

/-! ## Doubles that are not negative -/

/-- Positive, or the positive zero. -/
def IsMagnitude (x : Float) : Prop := x = 0.0 ∨ 0.0 < x

/-- A magnitude ranks from 0 upwards. -/
theorem IsMagnitude.rankOf {x : Float} (h : IsMagnitude x) :
    ∃ k, rankOf x = some k ∧ toLex (0, toLex (0, 0)) ≤ k := by
  rcases h with rfl | h
  · exact ⟨_, rankOf_zero, le_rfl⟩
  · obtain ⟨k, l, hk, hl, hlt⟩ := lt_iff.mp h
    rw [rankOf_zero] at hk
    cases hk
    exact ⟨l, hl, hlt.le⟩

/-- Two such doubles of which neither is smaller are one double. -/
theorem IsMagnitude.eq_of_not_lt {x y : Float} (hx : IsMagnitude x) (hy : IsMagnitude y)
    (hxy : ¬ x < y) (hyx : ¬ y < x) : x = y := by
  rcases hx with rfl | hx
  · rcases hy with rfl | hy
    · rfl
    · exact absurd hy hxy
  · rcases hy with rfl | hy
    · exact absurd hx hyx
    · obtain ⟨-, k, -, hk, -⟩ := lt_iff.mp hx
      obtain ⟨-, l, -, hl, -⟩ := lt_iff.mp hy
      have hkl : k = l := le_antisymm
        (not_lt.mp fun h => hyx (lt_iff.mpr ⟨l, k, hl, hk, h⟩))
        (not_lt.mp fun h => hxy (lt_iff.mpr ⟨k, l, hk, hl, h⟩))
      exact eq_of_rankOf_eq hx hy (by rw [hk, hl, hkl])

/-- Not being less is transitive as long as the middle is a number. -/
theorem not_lt_trans {x y z : Float} (hy : isNaN y = false) (hxy : ¬ x < y) (hyz : ¬ y < z) :
    ¬ x < z := by
  obtain ⟨l, hl⟩ := not_isNaN_iff.mp hy
  intro h
  obtain ⟨k, m, hk, hm, hkm⟩ := lt_iff.mp h
  rcases lt_or_ge k l with hkl | hlk
  · exact hxy (lt_iff.mpr ⟨k, l, hk, hl, hkl⟩)
  · exact hyz (lt_iff.mpr ⟨l, m, hl, hm, lt_of_le_of_lt hlk hkm⟩)

theorem not_lt_self (x : Float) : ¬ x < x := by
  intro h
  obtain ⟨k, l, hk, hl, hkl⟩ := lt_iff.mp h
  rw [hk] at hl
  cases hl
  exact lt_irrefl _ hkl

theorem not_lt_of_lt {x y : Float} (h : x < y) : ¬ y < x := by
  obtain ⟨k, l, hk, hl, hkl⟩ := lt_iff.mp h
  intro hyx
  obtain ⟨l', k', hl', hk', hlk⟩ := lt_iff.mp hyx
  rw [hk] at hk'
  rw [hl] at hl'
  cases hk'
  cases hl'
  exact lt_asymm hkl hlk

theorem IsMagnitude.not_isNaN {x : Float} (h : IsMagnitude x) : isNaN x = false := by
  obtain ⟨k, hk, -⟩ := h.rankOf
  exact not_isNaN_iff.mpr ⟨k, hk⟩

/-! ## The largest of some numbers -/

/-- The greater of a number and anything, by one comparison. -/
theorem greater_eq {u v : Float} (hu : isNaN u = false) : greater u v = if u < v then v else u := by
  show (if (decide (u < v) || isNaN u) = true then v else u) = _
  rw [hu, Bool.or_false]
  by_cases h : u < v <;> simp [h]

/-- A running maximum that starts with a magnitude stays one, NaN or not on the way. -/
theorem IsMagnitude.greater {u v : Float} (hu : IsMagnitude u) : IsMagnitude (greater u v) := by
  rw [greater_eq hu.not_isNaN]
  split
  · rename_i huv
    obtain ⟨k, hk, h0⟩ := hu.rankOf
    obtain ⟨k', l, hk', hl, hkl⟩ := lt_iff.mp huv
    rw [hk] at hk'
    cases hk'
    exact Or.inr (lt_iff.mpr ⟨_, l, rankOf_zero, hl, lt_of_le_of_lt h0 hkl⟩)
  · exact hu

/-- The larger one is not below either. -/
theorem not_greater_lt {u v : Float} (hu : isNaN u = false) :
    ¬ greater u v < u ∧ ¬ greater u v < v := by
  rw [greater_eq hu]
  split
  · rename_i huv
    exact ⟨not_lt_of_lt huv, not_lt_self v⟩
  · rename_i huv
    exact ⟨not_lt_self u, huv⟩

/-- Folding leaves one of the numbers, and none of them above it. -/
theorem foldl_greater {a : Float} (ha : IsMagnitude a) (vs : List Float) :
    IsMagnitude (vs.foldl greater a) ∧ vs.foldl greater a ∈ a :: vs ∧
      ∀ v ∈ a :: vs, ¬ vs.foldl greater a < v := by
  induction vs generalizing a with
  | nil => exact ⟨ha, List.mem_singleton_self a, by simpa using not_lt_self a⟩
  | cons v vs ih =>
    obtain ⟨hmagnitude, -, hall⟩ := ih (ha.greater (v := v))
    obtain ⟨hstep, hvs⟩ := List.forall_mem_cons.mp hall
    obtain ⟨hau, hav⟩ := not_greater_lt (v := v) ha.not_isNaN
    have hnan := (ha.greater (v := v)).not_isNaN
    refine ⟨hmagnitude, foldl_pick_mem greater_cases a _, ?_⟩
    refine List.forall_mem_cons.mpr ⟨not_lt_trans hnan hstep hau, ?_⟩
    exact List.forall_mem_cons.mpr ⟨not_lt_trans hnan hstep hav, hvs⟩

/-- **The largest of some numbers does not depend on their order** or on how often they occur. -/
theorem foldl_greater_congr {a : Float} (ha : IsMagnitude a) {vs ws : List Float}
    (h : ∀ v, v ∈ vs ↔ v ∈ ws) : vs.foldl greater a = ws.foldl greater a := by
  obtain ⟨hv, hvmem, hvall⟩ := foldl_greater ha vs
  obtain ⟨hw, hwmem, hwall⟩ := foldl_greater ha ws
  have hcons : ∀ v, v ∈ a :: vs ↔ v ∈ a :: ws := by simp [h]
  exact hv.eq_of_not_lt hw (hvall _ ((hcons _).mpr hwmem)) (hwall _ ((hcons _).mp hvmem))

/-! ## The smallest of some numbers -/

/-- The lesser by one comparison, which gives way to the other operand at NaN. -/
theorem lesser_eq (u v : Float) : lesser u v = if v < u ∨ isNaN u = true then v else u := by
  show (if (decide (v < u) || isNaN u) = true then v else u) = _
  simp

/-- The smaller one is a number if there is one, and neither is below it. -/
theorem not_lt_lesser (u v : Float) : ∀ w ∈ [u, v], isNaN w = false →
    isNaN (lesser u v) = false ∧ ¬ w < lesser u v := by
  rw [List.forall_mem_cons, List.forall_mem_singleton, lesser_eq]
  by_cases h : v < u ∨ isNaN u = true
  · rw [if_pos h]
    refine ⟨fun hu => ?_, fun hv => ⟨hv, not_lt_self v⟩⟩
    have hvu := h.resolve_right (by simp [hu])
    exact ⟨(not_isNaN_of_lt hvu).1, not_lt_of_lt hvu⟩
  · rw [if_neg h]
    obtain ⟨hvu, hu⟩ := not_or.mp h
    exact ⟨fun hu => ⟨hu, not_lt_self u⟩, fun _ => ⟨by simpa using hu, hvu⟩⟩

/-- Folding leaves one of the numbers; it is a number if there is one, and none of them is below it. -/
theorem foldl_lesser (m : Float) (ms : List Float) :
    ms.foldl lesser m ∈ m :: ms ∧ ∀ v ∈ m :: ms, isNaN v = false →
      isNaN (ms.foldl lesser m) = false ∧ ¬ v < ms.foldl lesser m := by
  refine ⟨foldl_pick_mem lesser_cases m ms, ?_⟩
  induction ms generalizing m with
  | nil => simpa using fun h => ⟨h, not_lt_self m⟩
  | cons v ms ih =>
    obtain ⟨hstep, hms⟩ := List.forall_mem_cons.mp (ih (lesser m v))
    have hfirst : ∀ w ∈ [m, v], isNaN w = false →
        isNaN ((v :: ms).foldl lesser m) = false ∧ ¬ w < (v :: ms).foldl lesser m := by
      intro w hw hnan
      obtain ⟨hlesser, hwl⟩ := not_lt_lesser m v w hw hnan
      obtain ⟨hfold, hlf⟩ := hstep hlesser
      exact ⟨hfold, not_lt_trans hlesser hwl hlf⟩
    intro w hw
    rcases List.mem_cons.mp hw with rfl | hw
    · exact hfirst w (List.mem_cons_self ..)
    · rcases List.mem_cons.mp hw with rfl | hw
      · exact hfirst w (List.mem_cons_of_mem _ (List.mem_singleton_self w))
      · exact hms w hw

/-- **A smallest number that is positive does not depend on the order** of the numbers or on how often
    they occur. -/
theorem foldl_lesser_congr {m n : Float} {ms ns : List Float}
    (h : ∀ v, v ∈ m :: ms ↔ v ∈ n :: ns) (hpos : 0.0 < ms.foldl lesser m) :
    ns.foldl lesser n = ms.foldl lesser m := by
  obtain ⟨hmem, hall⟩ := foldl_lesser m ms
  obtain ⟨hmem', hall'⟩ := foldl_lesser n ns
  have hnan := (not_isNaN_of_lt hpos).2
  obtain ⟨hnan', hle⟩ := hall' _ ((h _).mp hmem) hnan
  obtain ⟨-, hge⟩ := hall _ ((h _).mpr hmem') hnan'
  -- not below a positive number, and so positive itself
  have hpos' : 0.0 < ns.foldl lesser n := by
    obtain ⟨k, l, hk, hl, hkl⟩ := lt_iff.mp hpos
    obtain ⟨l', hl'⟩ := not_isNaN_iff.mp hnan'
    have hll : l ≤ l' := not_lt.mp fun hlt => hge (lt_iff.mpr ⟨l', l, hl', hl, hlt⟩)
    exact lt_iff.mpr ⟨k, l', hk, hl', lt_of_lt_of_le hkl hll⟩
  exact IsMagnitude.eq_of_not_lt (Or.inr hpos') (Or.inr hpos) hge hle

/-! ## Totals -/

/-- A positive number that does not round to zero is positive as a double, or infinite. -/
theorem pos_of_isNearest {q : ℚ} {x : Float} (hq : 2 ^ (-1074 : ℤ) ≤ q)
    (h : IsNearest .positive q x) : 0.0 < x := by
  have hr : 0 < rounded q := lt_of_lt_of_le (zpow_pos two_pos _) (le_rounded le_rfl hq)
  unfold IsNearest at h
  split at h
  · rw [pos_iff]
    left
    generalize rounded q = r at h hr
    generalize x.toModel.unpack = u at h
    cases h with
    | zero => exact absurd hr (lt_irrefl 0)
    | finite hm => exact ⟨_, _, _, rfl⟩
  · exact pos_iff.mpr (Or.inr h)

/-- Two positive significands are aligned, added and rounded. -/
theorem add_eq_round {m n : ℕ} (hm : 0 < m) (hn : 0 < n) (e f : ℤ) :
    ∃ k : ℕ, 0 < k ∧ UnpackedFloat.add .binary64 (.finite .positive m e hm) (.finite .positive n f hn) =
      UnpackedFloat.round .binary64 .positive k (min e f) := by
  have hsum : UnpackedFloat.add .binary64 (.finite .positive m e hm) (.finite .positive n f hn) =
      UnpackedFloat.normalize .binary64
        (((m <<< (e - min e f).toNat + n <<< (f - min e f).toNat : ℕ)) : ℤ) (min e f) .positive := rfl
  have hpos : 0 < m <<< (e - min e f).toNat + n <<< (f - min e f).toNat := by
    rw [Nat.shiftLeft_eq]
    exact Nat.add_pos_left (Nat.mul_pos hm (Nat.two_pow_pos _)) _
  refine ⟨_, hpos, ?_⟩
  generalize m <<< (e - min e f).toNat + n <<< (f - min e f).toNat = k at hsum hpos ⊢
  have hcompare : compare (k : ℤ) 0 = .gt := by
    rw [Int.compare_eq_gt]
    omega
  rw [hsum, UnpackedFloat.normalize, hcompare]
  rfl

/-- The significand of a positive double is canonical. -/
theorem canonical_of_finite {x : Float} {m : ℕ} {e : ℤ} {hm : 0 < m}
    (h : x.toModel.unpack = .finite .positive m e hm) : Canonical m e := by
  have hfinite : Scalar.isFinite x = true := by
    show (!x.toModel.unpack.isNaN && !x.toModel.unpack.isInf) = true
    rw [h]
    rfl
  have hdenotes := denotes_unpack hfinite
  rw [h] at hdenotes
  generalize magnitude x = r at hdenotes
  generalize signOf x = s at hdenotes
  cases hdenotes with
  | finite hc => exact hc

/-- **A sum of positive doubles is positive.** -/
theorem add_pos {x y : Float} (hx : 0.0 < x) (hy : 0.0 < y) : 0.0 < x + y := by
  have hsum : (x + y).toModel.unpack =
      (Float.Model.pack (UnpackedFloat.add .binary64 x.toModel.unpack y.toModel.unpack)).unpack := rfl
  rcases pos_iff.mp hx with ⟨m, e, hm, hx'⟩ | hx' <;>
    rcases pos_iff.mp hy with ⟨n, f, hn, hy'⟩ | hy' <;> rw [hx', hy'] at hsum
  · obtain ⟨k, hk, hround⟩ := add_eq_round hm hn e f
    have hnearest : IsNearest .positive (k * 2 ^ min e f) (x + y) := by
      unfold IsNearest
      rw [hsum, hround]
      exact denotes_pack (denotes_round hk .positive (min e f))
    refine pos_of_isNearest ?_ hnearest
    have hmin : -1074 ≤ min e f :=
      le_min (canonical_of_finite hx').le (canonical_of_finite hy').le
    calc (2 : ℚ) ^ (-1074 : ℤ) ≤ 2 ^ min e f := zpow_le_zpow_right₀ one_le_two hmin
      _ ≤ k * 2 ^ min e f := le_mul_of_one_le_left (zpow_pos two_pos _).le (by exact_mod_cast hk)
  all_goals
    simp only [UnpackedFloat.add] at hsum
    exact pos_iff.mpr (Or.inr hsum)

/-- The negative zero adds nothing. -/
theorem neg_zero_add_pos {y : Float} (hy : 0.0 < y) : 0.0 < -0.0 + y := by
  have hzero : (-0.0 : Float).toModel.unpack = .zero .negative := by
    have hbits : (-0.0 : Float) = Float.ofBits 0x8000000000000000 := by decide +kernel
    rw [hbits]
    rfl
  have hsum : (-0.0 + y).toModel.unpack =
      (Float.Model.pack (UnpackedFloat.add .binary64 (-0.0 : Float).toModel.unpack y.toModel.unpack)).unpack :=
    rfl
  rcases pos_iff.mp hy with ⟨n, f, hn, hy'⟩ | hy' <;> rw [hzero, hy'] at hsum
  · have hc := canonical_of_finite hy'
    have hdenotes : Denotes .positive (n * 2 ^ f) (.finite .positive n f hn) := .finite hc
    have hlt : (n * 2 ^ f : ℚ) < tooLarge := by
      rw [← hy'] at hdenotes
      exact hdenotes.lt_tooLarge
    refine pos_iff.mpr (Or.inl ⟨n, f, hn, hsum.trans (unpack_pack hdenotes hlt)⟩)
  · exact pos_iff.mpr (Or.inr hsum)

/-- **The sum of positive doubles is not zero,** however it rounds. -/
theorem sum_pos {xs : List Float} (hne : xs ≠ []) (h : ∀ x ∈ xs, 0.0 < x) : 0.0 < Scalar.sum xs := by
  have hfold : ∀ (ys : List Float) (a : Float), 0.0 < a → (∀ y ∈ ys, 0.0 < y) →
      0.0 < ys.foldl (· + ·) a := by
    intro ys
    induction ys with
    | nil => exact fun a ha _ => ha
    | cons y ys ih =>
      intro a ha hys
      obtain ⟨hy, hys⟩ := List.forall_mem_cons.mp hys
      exact ih (a + y) (add_pos ha hy) hys
  cases xs with
  | nil => exact absurd rfl hne
  | cons x xs =>
    obtain ⟨hx, hxs⟩ := List.forall_mem_cons.mp h
    exact hfold xs (-0.0 + x) (neg_zero_add_pos hx) hxs

theorem beq_zero_of_pos {x : Float} (h : 0.0 < x) : (x == 0.0) = false := by
  rw [Bool.eq_false_iff]
  intro heq
  obtain ⟨k, l, hk, hl, hkl⟩ := lt_iff.mp h
  obtain ⟨k', hk', hl'⟩ := beq_iff.mp heq
  rw [hl] at hk'
  rw [hk] at hl'
  cases hk'
  cases hl'
  exact lt_irrefl _ hkl

end FuzzyInference.Double

import FuzzyInference.Proofs.Combinator.Reduction
import FuzzyInference.Proofs.Double.Complement

/-!
# Exclusive or of any number of operands

The exclusive or of several values is the best degree to which one of the distinct ones holds alone. It is
specified without sorting, over the values as they come; what the code does to the list first, to sort it and
to drop repetitions, changes none of the degrees that are attained. These are known in closed form: the
largest value has the second largest as its strongest rival, and all the others have the largest.

Only comparisons and complements occur, so all of this holds of any `Ordered` numbers, doubles among them.
Equality is that of numbers, for which the two zeros are one.

## Contents
- `exclusiveOr`: the specified value. `LargestTwo`: the two values that it depends on.
- `Attains`, `SameNumbers.attains_iff`: the degrees that are attained. They depend on the distinct values.
- `LargestTwo.attains_iff`, `attains_iff_of_forall_beq`: the degrees in closed form.
- `disjointSum_eq`: the code computes the specified value of the sorted distinct values.
- `reduce_simpleDisjointSum`: an exclusive or depends on the two largest distinct values alone.
-/

namespace FuzzyInference

open Scalar

/-! ## The specified value -/

section

variable {α : Type} [Scalar α]

/-- What a value is held against: the other values of the list, or itself where there is no other one. -/
def rivals (values : List α) (x : α) : List α :=
  match values.filter (· != x) with
  | [] => [x]
  | y :: ys => y :: ys

/-- How far a value of a list holds and none of its rivals does. -/
def aloneAmong (values : List α) (x : α) : α := lesser x (smallest ((rivals values x).map (1.0 - ·)))

/-- The best degree to which one of the values of a list holds alone. -/
def exclusiveOr (values : List α) : α := largest (values.map (aloneAmong values))

/-- The largest and the second largest of the distinct values of a list. -/
structure LargestTwo (values : List α) (a b : α) : Prop where
  mem_first : a ∈ values
  mem_second : b ∈ values
  lt : b < a
  below : ∀ v ∈ values, (v == a) = true ∨ v ≤ b

/-- A value is held against another one, and against itself where all values are equal. -/
def Rival (values : List α) (x y : α) : Prop :=
  y ∈ values ∧ ((y == x) = false ∨ ∀ v ∈ values, (v == x) = true)

/-- Some value is at least `z`, and the complements of its rivals are. -/
def Attains (values : List α) (z : α) : Prop :=
  ∃ x ∈ values, z ≤ x ∧ ∀ y, Rival values x y → z ≤ 1.0 - y

/-- Every number of one list is equal to one of the other. -/
structure SameNumbers (xs ys : List α) : Prop where
  forward : ∀ x ∈ xs, ∃ y ∈ ys, (y == x) = true
  backward : ∀ y ∈ ys, ∃ x ∈ xs, (x == y) = true

/-- Each entry comes with the entries that are not equal to it. -/
theorem withOthers_eq {xs : List α} (hself : ∀ x ∈ xs, (x == x) = true)
    (h : xs.Pairwise fun x y => (x == y) = false ∧ (y == x) = false) :
    withOthers xs = xs.map fun x => (x, xs.filter (· != x)) := by
  induction xs with
  | nil => rfl
  | cons x xs ih =>
    obtain ⟨hx, hxs⟩ := List.forall_mem_cons.mp hself
    obtain ⟨hapart, hrest⟩ := List.pairwise_cons.mp h
    have hkept : xs.filter (· != x) = xs :=
      List.filter_eq_self.mpr fun y hy => by simp [bne, (hapart y hy).2]
    have hdropped : (x :: xs).filter (· != x) = xs := by
      rw [List.filter_cons_of_neg (by simp [bne, hx]), hkept]
    rw [withOthers, ih hxs hrest, List.map_cons, hdropped, List.map_map]
    congr 1
    apply List.map_congr_left
    intro y hy
    show (y, x :: xs.filter (· != y)) = (y, (x :: xs).filter (· != y))
    rw [List.filter_cons_of_pos (by simp [bne, (hapart y hy).1])]

variable {values : List α} {x y : α}

theorem mem_others : y ∈ values.filter (· != x) ↔ y ∈ values ∧ (y == x) = false := by
  simp [List.mem_filter, bne]

theorem others_eq_nil_iff : values.filter (· != x) = [] ↔ ∀ v ∈ values, (v == x) = true := by
  simp [List.filter_eq_nil_iff, bne]

theorem mem_of_mem_rivals (hx : x ∈ values) (h : y ∈ rivals values x) : y ∈ values := by
  unfold rivals at h
  split at h
  next => exact List.mem_singleton.mp h ▸ hx
  next heq =>
    rw [← heq] at h
    exact (mem_others.mp h).1

theorem rivals_ne_nil (values : List α) (x : α) : rivals values x ≠ [] := by
  unfold rivals
  split
  · exact List.cons_ne_nil _ _
  · exact List.cons_ne_nil _ _

theorem holdsAlone_filter (values : List α) (x : α) :
    holdsAlone x (values.filter (· != x)) = aloneAmong values x := by
  unfold holdsAlone aloneAmong rivals
  cases values.filter (· != x) with
  | nil => rfl
  | cons y ys =>
    show lesser x (ys.foldl (fun least z => lesser least (1.0 - z)) (1.0 - y)) =
      lesser x ((ys.map (1.0 - ·)).foldl lesser (1.0 - y))
    rw [List.foldl_map]

end

open Ordered

variable {α : Type} [Scalar α] [Ordered α] {values others : List α} {a b x z : α}

/-- The bound on the list of rivals is one on the rivals in the plain sense. -/
theorem forall_rivals_iff (hx : x ∈ values) :
    (∀ y ∈ rivals values x, z ≤ 1.0 - y) ↔ ∀ y, Rival values x y → z ≤ 1.0 - y := by
  unfold rivals
  split
  next hnone =>
    -- all values are equal to `x`, which stands for them
    have hall := others_eq_nil_iff.mp hnone
    rw [List.forall_mem_singleton]
    constructor
    · rintro hz y ⟨hy, -⟩
      exact le_of_le_of_beq hz (complement_beq (beq_symm (hall y hy)))
    · intro h
      exact h x ⟨hx, Or.inr hall⟩
  next y ys hsome =>
    -- there is another value, so the values are not all equal
    have hmem : ∀ w, w ∈ y :: ys ↔ w ∈ values ∧ (w == x) = false := by
      intro w
      rw [← hsome, mem_others]
    constructor
    · rintro h w ⟨hw, hne | hall⟩
      · exact h w ((hmem w).mpr ⟨hw, hne⟩)
      · obtain ⟨hy, hne⟩ := (hmem y).mp (List.mem_cons_self ..)
        rw [hall y hy] at hne
        cases hne
    · intro h w hw
      obtain ⟨hw, hne⟩ := (hmem w).mp hw
      exact h w ⟨hw, Or.inl hne⟩

theorem not_isNaN_rivals (hvalues : ∀ v ∈ values, isNaN v = false) (hx : x ∈ values) :
    ∀ d ∈ (rivals values x).map ((1.0 : α) - ·), isNaN d = false := by
  rw [List.forall_mem_map]
  intro y hy
  exact not_isNaN_complement (hvalues y (mem_of_mem_rivals hx hy))

theorem not_isNaN_aloneAmong (hvalues : ∀ v ∈ values, isNaN v = false) (hx : x ∈ values) :
    isNaN (aloneAmong values x) = false := by
  have hne : (rivals values x).map ((1.0 : α) - ·) ≠ [] := by simpa using rivals_ne_nil values x
  exact not_isNaN_lesser (hvalues x hx) (not_isNaN_rivals hvalues hx _ (smallest_mem hne))

/-- A value holds alone to a degree that it has and that all rivals leave. -/
theorem le_aloneAmong_iff (hvalues : ∀ v ∈ values, isNaN v = false) (hx : x ∈ values) :
    z ≤ aloneAmong values x ↔ z ≤ x ∧ ∀ y, Rival values x y → z ≤ 1.0 - y := by
  have hne : (rivals values x).map ((1.0 : α) - ·) ≠ [] := by simpa using rivals_ne_nil values x
  have hnumbers := not_isNaN_rivals hvalues hx
  unfold aloneAmong
  rw [le_lesser_iff (hvalues x hx) (hnumbers _ (smallest_mem hne)), le_smallest_iff hne hnumbers,
    List.forall_mem_map, forall_rivals_iff hx]

theorem not_isNaN_exclusiveOr (hne : values ≠ []) (hvalues : ∀ v ∈ values, isNaN v = false) :
    isNaN (exclusiveOr values) = false := by
  have hne' : values.map (aloneAmong values) ≠ [] := by simpa using hne
  obtain ⟨x, hx, h⟩ := List.mem_map.mp (largest_mem hne')
  rw [exclusiveOr, ← h]
  exact not_isNaN_aloneAmong hvalues hx

/-- The exclusive or reaches a degree when some value holds alone to it. -/
theorem le_exclusiveOr_iff (hne : values ≠ []) (hvalues : ∀ v ∈ values, isNaN v = false) :
    z ≤ exclusiveOr values ↔ Attains values z := by
  unfold exclusiveOr
  rw [le_largest_iff]
  · simp only [List.mem_map, exists_exists_and_eq_and]
    exact exists_congr fun x => and_congr_right fun hx => le_aloneAmong_iff hvalues hx
  · simpa using hne
  · rw [List.forall_mem_map]
    intro x hx
    exact not_isNaN_aloneAmong hvalues hx

/-! ## Attained degrees -/

/-- What can be reached depends on the numbers, not on their order or repetition. -/
theorem SameNumbers.attains (h : SameNumbers values others) (hz : Attains values z) : Attains others z := by
  obtain ⟨x, hx, hzx, hrivals⟩ := hz
  obtain ⟨y, hy, hyx⟩ := h.forward x hx
  refine ⟨y, hy, le_of_le_of_beq hzx (beq_symm hyx), ?_⟩
  rintro v ⟨hv, hrival⟩
  obtain ⟨w, hw, hwv⟩ := h.backward v hv
  have hrival' : Rival values x w := by
    refine ⟨hw, hrival.imp ?apart ?equal⟩
    case apart =>
      intro hvy
      rw [Bool.eq_false_iff] at hvy ⊢
      intro hwx
      exact hvy (beq_trans (beq_symm hwv) (beq_trans hwx (beq_symm hyx)))
    case equal =>
      intro hall u hu
      obtain ⟨u', hu', huu⟩ := h.forward u hu
      exact beq_trans (beq_symm huu) (beq_trans (hall u' hu') hyx)
  exact le_of_le_of_beq (hrivals w hrival') (complement_beq hwv)

/-- Only the distinct values count. -/
theorem SameNumbers.attains_iff (h : SameNumbers values others) : Attains values z ↔ Attains others z :=
  ⟨h.attains, SameNumbers.attains ⟨h.backward, h.forward⟩⟩

/-- Equal values hold alone against each other. -/
theorem attains_iff_of_forall_beq (ha : a ∈ values) (hall : ∀ v ∈ values, (v == a) = true) :
    Attains values z ↔ z ≤ a ∧ z ≤ 1.0 - a := by
  constructor
  · rintro ⟨x, hx, hzx, hrivals⟩
    have hrival : Rival values x a :=
      ⟨ha, Or.inr fun v hv => beq_trans (hall v hv) (beq_symm (hall x hx))⟩
    exact ⟨le_of_le_of_beq hzx (hall x hx), hrivals a hrival⟩
  · rintro ⟨hza, hzc⟩
    refine ⟨a, ha, hza, ?_⟩
    rintro v ⟨hv, -⟩
    exact le_of_le_of_beq hzc (complement_beq (beq_symm (hall v hv)))

namespace LargestTwo

theorem not_le (h : LargestTwo values a b) (hvalues : ∀ v ∈ values, isNaN v = false) : ¬ a ≤ b :=
  (lt_iff (hvalues b h.mem_second) (hvalues a h.mem_first)).mp h.lt

theorem le_first (h : LargestTwo values a b) (hvalues : ∀ v ∈ values, isNaN v = false) {v : α}
    (hv : v ∈ values) : v ≤ a := by
  have hba : b ≤ a := le_of_lt (hvalues b h.mem_second) (hvalues a h.mem_first) h.lt
  rcases h.below v hv with hva | hvb
  · exact (beq_iff.mp hva).1
  · exact le_trans hvb hba

/-- The largest value is held against the second largest, and all the others against the largest. -/
theorem attains_iff (h : LargestTwo values a b) (hvalues : ∀ v ∈ values, isNaN v = false) :
    Attains values z ↔ (z ≤ a ∧ z ≤ 1.0 - b) ∨ (z ≤ b ∧ z ≤ 1.0 - a) := by
  have hab := h.not_le hvalues
  -- every rival bounds what is attained, and the largest one bounds it as much as all of them do
  constructor
  · rintro ⟨x, hx, hzx, hrivals⟩
    rcases h.below x hx with hxa | hxb
    · have hxb : ¬ x ≤ b := fun hxb => hab (le_trans (beq_iff.mp hxa).2 hxb)
      have hrival : Rival values x b := ⟨h.mem_second, Or.inl (beq_eq_false_of_not_le hxb).2⟩
      exact Or.inl ⟨le_of_le_of_beq hzx hxa, hrivals b hrival⟩
    · have hax : ¬ a ≤ x := fun hax => hab (le_trans hax hxb)
      have hrival : Rival values x a := ⟨h.mem_first, Or.inl (beq_eq_false_of_not_le hax).1⟩
      exact Or.inr ⟨le_trans hzx hxb, hrivals a hrival⟩
  · rintro (⟨hza, hzc⟩ | ⟨hzb, hzc⟩)
    · refine ⟨a, h.mem_first, hza, ?_⟩
      rintro v ⟨hv, hva | hall⟩
      · have hvb : v ≤ b := (h.below v hv).resolve_left (by simp [hva])
        exact le_trans hzc (complement_le hvb)
      · exact absurd (beq_iff.mp (hall b h.mem_second)).2 hab
    · refine ⟨b, h.mem_second, hzb, ?_⟩
      rintro v ⟨hv, -⟩
      exact le_trans hzc (complement_le (h.le_first hvalues hv))

end LargestTwo

/-- The values are all equal, or two of them are the largest ones. -/
theorem forall_beq_or_largestTwo (hne : values ≠ []) (hvalues : ∀ v ∈ values, isNaN v = false) :
    (∃ a ∈ values, ∀ v ∈ values, (v == a) = true) ∨ ∃ a b, LargestTwo values a b := by
  obtain ⟨a, ha, hmax⟩ := exists_largest hne hvalues
  rcases eq_or_ne (values.filter (· != a)) [] with hnone | hsome
  · refine Or.inl ⟨a, ha, ?_⟩
    exact others_eq_nil_iff.mp hnone
  · -- the second largest is the largest of the others
    obtain ⟨b, hb, hsecond⟩ := exists_largest hsome fun v hv => hvalues v (mem_others.mp hv).1
    obtain ⟨hb, hba⟩ := mem_others.mp hb
    refine Or.inr ⟨a, b, ha, hb, ?lt, ?below⟩
    case lt =>
      rw [lt_iff (hvalues b hb) (hvalues a ha)]
      intro hab
      rw [beq_iff.mpr ⟨hmax b hb, hab⟩] at hba
      cases hba
    case below =>
      intro v hv
      cases hva : v == a with
      | true => exact Or.inl rfl
      | false => exact Or.inr (hsecond v (mem_others.mpr ⟨hv, hva⟩))

/-! ## The code -/

/-- The distinct values in ascending order. -/
theorem sameNumbers_distinct (hvalues : ∀ v ∈ values, isNaN v = false) :
    SameNumbers (withoutRepeats (ascending values)) values where
  forward v hv := by
    have hmem := mem_of_mem_distinct hv
    exact ⟨v, hmem, beq_refl (hvalues v hmem)⟩
  backward v hv := by
    have hascending : ∀ w ∈ ascending values, isNaN w = false :=
      fun w hw => hvalues w ((ascending_perm values).subset hw)
    exact exists_mem_withoutRepeats hascending ((ascending_perm values).mem_iff.mpr hv)

/-- The code computes the specified value of the distinct values. -/
theorem disjointSum_eq (hvalues : ∀ v ∈ values, isNaN v = false) :
    disjointSum values = exclusiveOr (withoutRepeats (ascending values)) := by
  have hdistinct : ∀ v ∈ withoutRepeats (ascending values), isNaN v = false :=
    fun v hv => hvalues v (mem_of_mem_distinct hv)
  have hgrow : (withoutRepeats (ascending values)).Pairwise (· < ·) :=
    pairwise_withoutRepeats (fun v hv => hvalues v ((ascending_perm values).subset hv))
      (pairwise_ascending hvalues)
  have hapart : (withoutRepeats (ascending values)).Pairwise
      fun x y => (x == y) = false ∧ (y == x) = false := by
    apply hgrow.imp_of_mem
    intro x y hx hy hxy
    have hnot : ¬ y ≤ x := (lt_iff (hdistinct x hx) (hdistinct y hy)).mp hxy
    exact (beq_eq_false_of_not_le hnot).symm
  show largest ((withOthers (withoutRepeats (ascending values))).map fun p => holdsAlone p.1 p.2) = _
  rw [withOthers_eq (fun v hv => beq_refl (hdistinct v hv)) hapart, List.map_map]
  unfold exclusiveOr
  congr 1
  apply List.map_congr_left
  intro x _
  exact holdsAlone_filter _ x

/-- The computed sum reaches what the definition reaches. -/
theorem le_disjointSum_iff (hne : values ≠ []) (hvalues : ∀ v ∈ values, isNaN v = false) :
    z ≤ disjointSum values ↔ Attains values z := by
  have hsame := sameNumbers_distinct hvalues
  have hne' : withoutRepeats (ascending values) ≠ [] := by
    obtain ⟨v, hv⟩ := List.exists_mem_of_ne_nil values hne
    obtain ⟨w, hw, -⟩ := hsame.backward v hv
    exact List.ne_nil_of_mem hw
  have hvalues' : ∀ v ∈ withoutRepeats (ascending values), isNaN v = false :=
    fun v hv => hvalues v (mem_of_mem_distinct hv)
  rw [disjointSum_eq hvalues, le_exclusiveOr_iff hne' hvalues', hsame.attains_iff]

/-- A number that reaches what the definition reaches is equal to the computed sum. -/
theorem disjointSum_beq (hne : values ≠ []) (hvalues : ∀ v ∈ values, isNaN v = false) {c : α}
    (hc : isNaN c = false) (h : ∀ z, z ≤ c ↔ Attains values z) : (disjointSum values == c) = true := by
  apply beq_of_le_iff hc
  intro z
  rw [le_disjointSum_iff hne hvalues, h]

/-- **An exclusive or depends on the two largest distinct values alone.** -/
theorem reduce_simpleDisjointSum (hne : values ≠ []) (hvalues : ∀ v ∈ values, isNaN v = false) :
    (∀ a ∈ values, (∀ v ∈ values, (v == a) = true) →
      (Combinator.reduce .simpleDisjointSum values == lesser a (1.0 - a)) = true) ∧
    (∀ a b, LargestTwo values a b →
      (Combinator.reduce .simpleDisjointSum values ==
        greater (lesser a (1.0 - b)) (lesser b (1.0 - a))) = true) ∧
    ((∃ a ∈ values, ∀ v ∈ values, (v == a) = true) ∨ ∃ a b, LargestTwo values a b) ∧
    (∀ others : List α, (∀ v, v ∈ values ↔ v ∈ others) →
      (Combinator.reduce .simpleDisjointSum values == Combinator.reduce .simpleDisjointSum others) = true) ∧
    (Combinator.reduce .simpleDisjointSum values == exclusiveOr values) = true := by
  have hcomplement : ∀ v ∈ values, isNaN ((1.0 : α) - v) = false :=
    fun v hv => not_isNaN_complement (hvalues v hv)
  -- equality of numbers is by what lies below both: see `disjointSum_beq`
  refine ⟨?equal, ?apart, forall_beq_or_largestTwo hne hvalues, ?same, ?specified⟩
  case equal =>
    intro a ha hall
    apply disjointSum_beq hne hvalues (not_isNaN_lesser (hvalues a ha) (hcomplement a ha))
    intro z
    rw [attains_iff_of_forall_beq ha hall, le_lesser_iff (hvalues a ha) (hcomplement a ha)]
  case apart =>
    intro a b h
    have ha := hvalues a h.mem_first
    have hb := hvalues b h.mem_second
    have ha' := hcomplement a h.mem_first
    have hb' := hcomplement b h.mem_second
    have hfirst := not_isNaN_lesser ha hb'
    have hsecond := not_isNaN_lesser hb ha'
    apply disjointSum_beq hne hvalues (not_isNaN_greater hfirst hsecond)
    intro z
    rw [h.attains_iff hvalues, le_greater_iff hfirst hsecond, le_lesser_iff ha hb', le_lesser_iff hb ha']
  case same =>
    intro others hsame
    have hne' : others ≠ [] := by
      obtain ⟨v, hv⟩ := List.exists_mem_of_ne_nil values hne
      exact List.ne_nil_of_mem ((hsame v).mp hv)
    have hothers : ∀ v ∈ others, isNaN v = false := fun v hv => hvalues v ((hsame v).mpr hv)
    have hnumber := not_isNaN_exclusiveOr hne' hothers
    have hle : ∀ z, z ≤ exclusiveOr others ↔ Attains others z := fun z => le_exclusiveOr_iff hne' hothers
    have hself : ∀ v ∈ values, (v == v) = true := fun v hv => beq_refl (hvalues v hv)
    have hnumbers : SameNumbers others values :=
      ⟨fun v hv => ⟨v, (hsame v).mpr hv, hself v ((hsame v).mpr hv)⟩,
        fun v hv => ⟨v, (hsame v).mp hv, hself v hv⟩⟩
    exact beq_trans (disjointSum_beq hne hvalues hnumber fun z => (hle z).trans hnumbers.attains_iff)
      (beq_symm (disjointSum_beq hne' hothers hnumber hle))
  case specified =>
    exact disjointSum_beq hne hvalues (not_isNaN_exclusiveOr hne hvalues)
      fun z => le_exclusiveOr_iff hne hvalues

/-- An infinity and a repeated value, and zeros with different signs. -/
theorem reduce_simpleDisjointSum_infinity :
    let values : List Float := [0.25, 1.0 / 0.0, 0.75, 0.25]
    let others : List Float := values.reverse ++ values
    values ≠ [] ∧ (∀ v ∈ values, isNaN v = false) ∧ LargestTwo values (1.0 / 0.0) 0.75 ∧
      (Combinator.reduce .simpleDisjointSum values ==
        greater (lesser (1.0 / 0.0) (1.0 - 0.75)) (lesser 0.75 (1.0 - 1.0 / 0.0))) = true ∧
      (∀ v, v ∈ values ↔ v ∈ others) ∧
      (Combinator.reduce .simpleDisjointSum values == Combinator.reduce .simpleDisjointSum others) = true ∧
      (∀ v ∈ [0.0, -0.0], ((v : Float) == 0.0) = true) ∧
      (Combinator.reduce .simpleDisjointSum [(0.0 : Float), -0.0] == lesser 0.0 (1.0 - 0.0)) = true := by
  intro values others
  have hne : values ≠ [] := List.cons_ne_nil _ _
  have hvalues : ∀ v ∈ values, isNaN v = false := by decide +kernel
  have hlargest : LargestTwo values (1.0 / 0.0) 0.75 :=
    ⟨by simp [values], by simp [values], by decide +kernel, by decide +kernel⟩
  have hsame : ∀ v, v ∈ values ↔ v ∈ others := by
    intro v
    rw [List.mem_append, List.mem_reverse, or_self]
  have hzeros : ∀ v ∈ [0.0, -0.0], isNaN (v : Float) = false := by decide +kernel
  have hequal : ∀ v ∈ [0.0, -0.0], ((v : Float) == 0.0) = true := by decide +kernel
  obtain ⟨-, happart, -, hothers, -⟩ := reduce_simpleDisjointSum hne hvalues
  obtain ⟨hall, -⟩ := reduce_simpleDisjointSum (List.cons_ne_nil _ _) hzeros
  exact ⟨hne, hvalues, hlargest, happart _ _ hlargest, hsame, hothers others hsame, hequal,
    hall 0.0 (List.mem_cons_self ..) hequal⟩

end FuzzyInference

import FuzzyInference.Proofs.Exact.Scalar

/-!
# Triangular norms

A conjunction of degrees should be a triangular norm, a disjunction a triangular conorm: commutative,
associative and monotone, with truth or falsehood as the neutral degree. This decides what a fold over
several degrees can depend on. Operands may change places, and the result stays on one side of each of
them. The complement turns norms into conorms and back, so it is enough to look at norms.

## Contents
- `IsDegree`: the unit interval.
- `IsNorm`: norms and conorms, told apart by their neutral degree. `IsNorm.foldl_perm`,
  `IsNorm.foldl_le`: what a fold depends on and where it lies.
- `AreDual`: operations that the complement exchanges. `AreDual.isNorm`, `AreDual.foldl_eq`,
  `AreDual.le_foldl`: what is known of one is known of the other.
-/

set_option linter.unusedSectionVars false

namespace FuzzyInference

variable {K : Type} [Field K] [LinearOrder K] [IsStrictOrderedRing K] {u v w : K} {us vs : List K}

/-! ## Degrees -/

/-- A number of the closed unit interval. -/
structure IsDegree (u : K) : Prop where
  nonneg : 0 ≤ u
  le_one : u ≤ 1

theorem isDegree_zero : IsDegree (0 : K) := ⟨le_rfl, zero_le_one⟩

theorem isDegree_one : IsDegree (1 : K) := ⟨zero_le_one, le_rfl⟩

theorem IsDegree.complement (hu : IsDegree u) : IsDegree (1 - u) :=
  ⟨sub_nonneg.mpr hu.le_one, sub_le_self 1 hu.nonneg⟩

theorem isDegree_complements (hus : ∀ u ∈ us, IsDegree u) : ∀ u ∈ us.map (1 - ·), IsDegree u := by
  intro u hu
  obtain ⟨v, hv, rfl⟩ := List.mem_map.mp hu
  exact (hus v hv).complement

/-! ## Norms -/

/-- A commutative, associative and monotone operation on degrees with a neutral degree. If that is 1 the
    operation is a triangular norm, if it is 0 a triangular conorm. -/
structure IsNorm (neutral : K) (op : K → K → K) : Prop where
  neutral_isDegree : IsDegree neutral
  isDegree {u v : K} (hu : IsDegree u) (hv : IsDegree v) : IsDegree (op u v)
  comm {u v : K} (hu : IsDegree u) (hv : IsDegree v) : op u v = op v u
  assoc {u v w : K} (hu : IsDegree u) (hv : IsDegree v) (hw : IsDegree w) :
    op (op u v) w = op u (op v w)
  op_neutral {u : K} (hu : IsDegree u) : op u neutral = u
  mono {u v w : K} (hu : IsDegree u) (hv : IsDegree v) (hw : IsDegree w) (h : u ≤ v) : op u w ≤ op v w

namespace IsNorm

variable {neutral : K} {op : K → K → K}

/-- By commutativity a norm rises in its second operand too. -/
theorem mono_right (h : IsNorm neutral op) (hu : IsDegree u) (hv : IsDegree v) (hw : IsDegree w)
    (hvw : v ≤ w) : op u v ≤ op u w := by
  rw [h.comm hu hv, h.comm hu hw]
  exact h.mono hv hw hu hvw

/-- The last two operands may change places. -/
theorem right_comm (h : IsNorm neutral op) (hu : IsDegree u) (hv : IsDegree v) (hw : IsDegree w) :
    op (op u v) w = op (op u w) v := by
  calc op (op u v) w = op u (op v w) := h.assoc hu hv hw
    _ = op u (op w v) := by rw [h.comm hv hw]
    _ = op (op u w) v := (h.assoc hu hw hv).symm

theorem foldl_isDegree (h : IsNorm neutral op) (hu : IsDegree u) (hus : ∀ v ∈ us, IsDegree v) :
    IsDegree (us.foldl op u) :=
  List.foldlRecOn us op hu fun _ hacc v hv => h.isDegree hacc (hus v hv)

/-- The order of the operands does not matter. -/
theorem foldl_perm (h : IsNorm neutral op) (hperm : us.Perm vs) (hu : IsDegree u)
    (hus : ∀ v ∈ us, IsDegree v) : us.foldl op u = vs.foldl op u := by
  induction hperm generalizing u with
  | nil => rfl
  | cons v hperm ih =>
    obtain ⟨hv, hus⟩ := List.forall_mem_cons.mp hus
    exact ih (h.isDegree hu hv) hus
  | swap v w us =>
    obtain ⟨hw, hus⟩ := List.forall_mem_cons.mp hus
    obtain ⟨hv, -⟩ := List.forall_mem_cons.mp hus
    show us.foldl op (op (op u w) v) = us.foldl op (op (op u v) w)
    rw [h.right_comm hu hw hv]
  | trans hfirst hsecond ihfirst ihsecond =>
    rw [ihfirst hu hus]
    apply ihsecond hu
    intro v hv
    exact hus v (hfirst.mem_iff.mpr hv)

/-- A fold without a start, begun with the neutral degree. -/
theorem foldl_neutral (h : IsNorm neutral op) (hu : IsDegree u) (us : List K) :
    (u :: us).foldl op neutral = us.foldl op u := by
  rw [List.foldl_cons, h.comm h.neutral_isDegree hu, h.op_neutral hu]

/-- **The order of operands does not matter,** not even which one comes first. -/
theorem foldl_eq_of_perm (h : IsNorm neutral op) (hperm : (u :: us).Perm (v :: vs))
    (hus : ∀ w ∈ u :: us, IsDegree w) : us.foldl op u = vs.foldl op v := by
  have hu : IsDegree u := hus u (List.mem_cons_self ..)
  have hv : IsDegree v := hus v (hperm.mem_iff.mpr (List.mem_cons_self ..))
  rw [← h.foldl_neutral hu, ← h.foldl_neutral hv]
  exact h.foldl_perm hperm h.neutral_isDegree hus

/-! A norm lies below its operands, since it is monotone and has 1 as its neutral degree. -/

/-- A norm with unit 1 is at most either operand. -/
theorem le_left (h : IsNorm 1 op) (hu : IsDegree u) (hv : IsDegree v) : op u v ≤ u := by
  calc op u v ≤ op u 1 := h.mono_right hu hv isDegree_one hv.le_one
    _ = u := h.op_neutral hu

theorem le_right (h : IsNorm 1 op) (hu : IsDegree u) (hv : IsDegree v) : op u v ≤ v := by
  rw [h.comm hu hv]
  exact h.le_left hv hu

/-- A fold of a norm with unit 1 is at most each of its operands. -/
theorem foldl_le (h : IsNorm 1 op) (hus : ∀ v ∈ u :: us, IsDegree v) :
    ∀ v ∈ u :: us, us.foldl op u ≤ v := by
  induction us generalizing u with
  | nil => simp
  | cons w ws ih =>
    obtain ⟨hu, hus⟩ := List.forall_mem_cons.mp hus
    obtain ⟨hw, hws⟩ := List.forall_mem_cons.mp hus
    -- the first two operands are taken together
    have hfold := ih (List.forall_mem_cons.mpr ⟨h.isDegree hu hw, hws⟩)
    obtain ⟨hop, hrest⟩ := List.forall_mem_cons.mp hfold
    intro v hv
    rcases List.mem_cons.mp hv with rfl | hv
    · exact hop.trans (h.le_left hu hw)
    · rcases List.mem_cons.mp hv with rfl | hv
      · exact hop.trans (h.le_right hu hw)
      · exact hrest v hv

end IsNorm

/-! ## Duality -/

/-- The complement of what one operation makes of complements is what the other one makes. -/
structure AreDual (op co : K → K → K) : Prop where
  eq {u v : K} (hu : IsDegree u) (hv : IsDegree v) : co u v = 1 - op (1 - u) (1 - v)

namespace AreDual

variable {neutral : K} {op co : K → K → K}

theorem complement_eq (hdual : AreDual op co) (hu : IsDegree u) (hv : IsDegree v) :
    1 - co u v = op (1 - u) (1 - v) := by
  rw [hdual.eq hu hv, sub_sub_cancel]

/-- **The dual of a norm is a conorm,** and the other way round. -/
theorem isNorm (hdual : AreDual op co) (h : IsNorm neutral op) : IsNorm (1 - neutral) co := by
  have hclosed : ∀ {u v : K}, IsDegree u → IsDegree v → IsDegree (co u v) := by
    intro u v hu hv
    rw [hdual.eq hu hv]
    exact (h.isDegree hu.complement hv.complement).complement
  -- each law is the norm's own law, read at the complements
  refine ⟨h.neutral_isDegree.complement, hclosed, ?comm, ?assoc, ?op_neutral, ?mono⟩
  case comm =>
    intro u v hu hv
    rw [hdual.eq hu hv, hdual.eq hv hu, h.comm hu.complement hv.complement]
  case assoc =>
    intro u v w hu hv hw
    rw [hdual.eq (hclosed hu hv) hw, hdual.eq hu (hclosed hv hw), hdual.complement_eq hu hv,
      hdual.complement_eq hv hw, h.assoc hu.complement hv.complement hw.complement]
  case op_neutral =>
    intro u hu
    rw [hdual.eq hu h.neutral_isDegree.complement, sub_sub_cancel, h.op_neutral hu.complement, sub_sub_cancel]
  case mono =>
    intro u v w hu hv hw huv
    rw [hdual.eq hu hw, hdual.eq hv hw]
    apply sub_le_sub_left
    exact h.mono hv.complement hu.complement hw.complement (sub_le_sub_left huv 1)

/-- Duality holds of folds with it. -/
theorem foldl_eq (hdual : AreDual op co) (h : IsNorm neutral op) (hu : IsDegree u)
    (hus : ∀ v ∈ us, IsDegree v) : us.foldl co u = 1 - (us.map (1 - ·)).foldl op (1 - u) := by
  induction us generalizing u with
  | nil => simp
  | cons v vs ih =>
    obtain ⟨hv, hvs⟩ := List.forall_mem_cons.mp hus
    show vs.foldl co (co u v) = 1 - (vs.map (1 - ·)).foldl op (op (1 - u) (1 - v))
    rw [ih ((hdual.isNorm h).isDegree hu hv) hvs, hdual.complement_eq hu hv]

/-- By duality, the other fold is at least every operand. -/
theorem le_foldl (hdual : AreDual op co) (h : IsNorm 1 op) (hus : ∀ v ∈ u :: us, IsDegree v) :
    ∀ v ∈ u :: us, v ≤ us.foldl co u := by
  obtain ⟨hu, hrest⟩ := List.forall_mem_cons.mp hus
  intro v hv
  have hbelow : (us.map (1 - ·)).foldl op (1 - u) ≤ 1 - v :=
    h.foldl_le (isDegree_complements hus) (1 - v) (List.mem_map_of_mem hv)
  rw [hdual.foldl_eq h hu hrest]
  exact le_sub_comm.mp hbelow

end AreDual

end FuzzyInference

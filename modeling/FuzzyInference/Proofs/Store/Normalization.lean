import FuzzyInference.Proofs.Membership.Bounded
import FuzzyInference.Proofs.Store.Comparison

/-!
# Scaling a set twice

A set is scaled by the largest of its memberships at its sample points. The scaled set is no singleton, so
it is sampled on the grid of its domain alone. Where the largest membership was found on the grid, the
scaled set is 1 there, and scaling it again changes nothing. Where it was found at a spike between two points
of the grid only, the scaled set does not reach 1 at any sample point, and scaling it again does change it.

## Contents
- `normalized_eq_ok_iff`: when a set is scaled, and by what. `Scaled`: what is known afterwards.
- `scaled_beq_one_iff`: in machine numbers no quotient but that of the largest membership is 1.
- `ScaledForGood`, `scaledForGood_iff`: when scaling once is enough.
- `spikeOffGrid_scaledTwice`: a set for which it is not.
-/

namespace FuzzyInference

open Scalar Double

/-! ## Memberships divided by the largest -/

section Quotients

variable {u height : Float}

/-- A membership scaled by the height is the rounded quotient, as this cannot exceed 1. -/
theorem value_scaled (hu : Within 0 1 u) (h : isHeight height = true) (hle : value u ≤ value height) :
    isFinite (lesser (u / height) 1.0) = true ∧
      value (lesser (u / height) 1.0) = nearest (value u / value height) := by
  obtain ⟨hheight, hpos⟩ := within_of_isHeight h
  have hquotient := within_div hu.finite hheight.finite hu.le hle hpos
  have hcap : lesser (u / height) 1.0 = u / height := by
    rw [lesser_eq, if_neg]
    rw [lt_iff_value within_one.finite hquotient.finite, within_one.value_eq, hquotient.not_isNaN]
    simpa using hquotient.ge
  rw [hcap]
  exact ⟨hquotient.finite, (rounds_div hu.finite hheight.finite hpos.ne').value_eq hquotient.finite⟩

/-- Only the largest membership is scaled to 1: no other quotient is rounded up to it. -/
theorem scaled_beq_one_iff (hu : Within 0 1 u) (h : isHeight height = true) (hle : value u ≤ value height) :
    (lesser (u / height) 1.0 == 1.0) = true ↔ value u = value height := by
  obtain ⟨hfinite, hvalue⟩ := value_scaled hu h hle
  obtain ⟨hheight, hpos⟩ := within_of_isHeight h
  rw [beq_iff_value hfinite within_one.finite, within_one.value_eq]
  constructor
  · intro hone
    by_contra hne
    have hlt := value_div_lt_one hu.finite hheight.finite hu.le (lt_of_le_of_ne hle hne)
    have hquotient := within_div hu.finite hheight.finite hu.le hle hpos
    rw [(rounds_div hu.finite hheight.finite hpos.ne').value_eq hquotient.finite, ← hvalue, hone] at hlt
    exact lt_irrefl _ hlt
  · intro heq
    rw [hvalue, heq, div_self hpos.ne', exact_one.nearest_eq]

/-- Dividing by 1 changes nothing. -/
theorem scaled_by_one (hu : Within 0 1 u) (h : isHeight height = true) (hone : value height = 1) :
    (lesser (u / height) 1.0 == u) = true := by
  obtain ⟨hfinite, hvalue⟩ := value_scaled hu h (hone ▸ hu.ge)
  rw [beq_iff_value hfinite hu.finite, hvalue, hone, div_one, (exact_value hu.finite).nearest_eq]

end Quotients

namespace Store

/-! ## What scaling makes -/

section Scaling

variable {α : Type} [Scalar α] {store later : Store α} {s n : SetId} {d : DomainId}

omit [Scalar α] in
/-- Reshaping succeeds exactly when the change of the function does. -/
theorem reshaped_eq_ok_iff {change : Membership α → Except (FunctionFault α) (Membership α)} :
    reshaped s change store = (.ok n, later) ↔ ∃ func, change (store.setAt s).func = .ok func ∧
      (n, later) = store.addFresh func (store.setAt s).domain? := by
  unfold reshaped
  rw [Action.bind_of_ok (Action.get_apply store), Action.bind_eq_ok_iff]
  constructor
  · rintro ⟨func, between, hchange, hderive⟩
    obtain ⟨hfunc, rfl⟩ := Prod.ext_iff.mp hchange
    refine ⟨func, ofFault_eq_ok_iff.mp hfunc, ?_⟩
    cases hderive
    rfl
  · rintro ⟨func, hchange, hfresh⟩
    refine ⟨func, store, Prod.ext (ofFault_eq_ok_iff.mpr hchange) rfl, ?_⟩
    obtain ⟨rfl, rfl⟩ := Prod.ext_iff.mp hfresh
    rfl

/-- The largest membership at the sample points that a domain gives a set, or 0. -/
def heightIn (store : Store α) (d : DomainId) (s : SetId) : α := (store.curveIn d s).foldl greater 0.0

/-- A set is scaled by its height, if this is accepted as one, into a new set of the same domain. -/
theorem normalized_eq_ok_iff (h : store.Coherent) (hd : store.domainOf? s = some d) :
    normalized s store = (.ok n, later) ↔ ¬ store.heightIn d s ≤ 0.0 ∧
      (Membership.normalize (store.heightIn d s) (store.setAt s).func).validate = .ok () ∧
      (n, later) = (array s store).2.addFresh
        (.normalize (store.heightIn d s) (store.setAt s).func) (some d) := by
  have harray : array s store = (.ok (store.curveIn d s), (array s store).2) :=
    Prod.ext (array_of_coherent h hd) rfl
  have hframed := (quiet_array s store).framed
  have hbound : ((array s store).2.setAt s).domain? = some d :=
    (hframed.bound s).trans (domainOf?_eq_some_iff.mp hd).1
  have hfunc := hframed.func s
  unfold normalized
  rw [Action.bind_of_ok harray]
  generalize (array s store).2 = between at hbound hfunc
  change (ite (store.heightIn d s ≤ 0.0) _ _ : Action α SetId) between = _ ↔ _
  -- a height of 0 is refused before anything is built
  by_cases hzero : store.heightIn d s ≤ 0.0
  · rw [if_pos hzero, Action.bind_of_ok (Action.get_apply between),
      Action.bind_of_error (Action.throw_apply _ between)]
    exact iff_of_false (fun h => by cases h) fun h => h.1 hzero
  · rw [if_neg hzero]
    change reshaped s (Membership.normalized (store.heightIn d s)) between = _ ↔ _
    rw [reshaped_eq_ok_iff, hbound, hfunc]
    constructor
    · rintro ⟨func, hmade, hfresh⟩
      obtain ⟨hvalid, rfl⟩ := Membership.checked_eq_ok_iff.mp hmade
      exact ⟨hzero, hvalid, hfresh⟩
    · rintro ⟨-, hvalid, hfresh⟩
      exact ⟨_, Membership.checked_eq_ok_iff.mpr ⟨hvalid, rfl⟩, hfresh⟩

/-- What is known after a set has been scaled: the new set is in the same domain, the domain and the sets
    that were there are as before. -/
structure Scaled (store : Store α) (d : DomainId) (s : SetId) (later : Store α) (n : SetId) : Prop where
  func : (later.setAt n).func = .normalize (store.heightIn d s) (store.setAt s).func
  reached : later.domainOf? n = some d
  domainAt : later.domainAt d = store.domainAt d
  old : ∀ t, store.HasSet t →
    (later.setAt t).func = (store.setAt t).func ∧ later.domainOf? t = store.domainOf? t
  coherent : later.Coherent

/-- A successful scaling gives the set that has each membership divided by the height. -/
theorem scaled_of_normalized (h : store.Coherent) (hd : store.domainOf? s = some d)
    (hrun : normalized s store = (.ok n, later)) : store.Scaled d s later n := by
  obtain ⟨-, -, hfresh⟩ := (normalized_eq_ok_iff h hd).mp hrun
  have hquiet := quiet_array s store
  have hcoherent := (changes_normalized s store).coherent h
  rw [hrun] at hcoherent
  obtain ⟨rfl, rfl⟩ := Prod.ext_iff.mp hfresh
  generalize (array s store).2 = between at hquiet hcoherent
  have hnew := setAt_addFresh_self between (.normalize (store.heightIn d s) (store.setAt s).func) (some d)
  refine ⟨congrArg FuzzySet.func hnew, ?_, hquiet.framed.domainAt d, fun t ht => ?_, hcoherent⟩
  · refine domainOf?_eq_some_iff.mpr ⟨congrArg FuzzySet.domain? hnew, ?_⟩
    exact (hquiet.framed.isLive d).trans (domainOf?_eq_some_iff.mp hd).2
  · have hold := setAt_addFresh_of_hasSet ((hasSet_congr hquiet.sets).mpr ht)
      (.normalize (store.heightIn d s) (store.setAt s).func) (some d)
    refine ⟨(congrArg FuzzySet.func hold).trans (hquiet.framed.func t), ?_⟩
    refine Eq.trans ?_ (hquiet.framed.domainOf? t)
    unfold domainOf?
    rw [hold]
    rfl

/-- A scaled set is sampled on the grid alone. -/
theorem Scaled.pointsIn (h : store.Scaled d s later n) :
    later.pointsIn d n = (store.domainAt d).grid.points := by
  unfold Store.pointsIn pointsOf
  rw [h.func, h.domainAt]
  rfl

/-- The memberships of a scaled set, at every point and not on the grid only. -/
theorem Scaled.call (h : store.Scaled d s later n) (x : α) :
    later.call n x = lesser (store.call s x / store.heightIn d s) 1.0 := by
  unfold Store.call
  rw [h.func]
  rfl

/-- Scaling leaves the sets that were there as they were, in their points and memberships. -/
theorem Scaled.pointsIn_old (h : store.Scaled d s later n) {t : SetId} (ht : store.HasSet t) :
    later.pointsIn d t = store.pointsIn d t := by
  unfold Store.pointsIn
  rw [h.domainAt, (h.old t ht).1]

theorem Scaled.call_old (h : store.Scaled d s later n) {t : SetId} (ht : store.HasSet t) (x : α) :
    later.call t x = store.call t x := by
  unfold Store.call
  rw [(h.old t ht).1]

end Scaling

/-! ## The height in machine numbers -/

section Heights

variable {store later : Store Float} {s n : SetId} {d : DomainId}

/-- The height is not below any sampled membership, and is one of them if it is not 0. -/
theorem heightIn_spec (hunit : ∀ x ∈ store.pointsIn d s, Within 0 1 (store.call s x)) :
    Within 0 1 (store.heightIn d s) ∧
      (∀ x ∈ store.pointsIn d s, value (store.call s x) ≤ value (store.heightIn d s)) ∧
      (store.heightIn d s = 0.0 ∨ ∃ x ∈ store.pointsIn d s, store.call s x = store.heightIn d s) := by
  obtain ⟨-, hmem, hall⟩ := foldl_greater (a := 0.0) (Or.inl rfl) (store.curveIn d s)
  change store.heightIn d s ∈ _ at hmem
  change ∀ v ∈ _, ¬ store.heightIn d s < v at hall
  have hreached : store.heightIn d s = 0.0 ∨
      ∃ x ∈ store.pointsIn d s, store.call s x = store.heightIn d s :=
    (List.mem_cons.mp hmem).imp id List.mem_map.mp
  have hwithin : Within 0 1 (store.heightIn d s) := by
    rcases hreached with hzero | ⟨x, hx, heq⟩
    · rw [hzero]
      exact within_zero.mono le_rfl zero_le_one
    · exact heq ▸ hunit x hx
  refine ⟨hwithin, fun x hx => ?_, hreached⟩
  have hnot : ¬ store.heightIn d s < store.call s x :=
    hall _ (List.mem_cons_of_mem _ (List.mem_map_of_mem hx))
  rw [lt_iff_value hwithin.finite (hunit x hx).finite] at hnot
  exact not_lt.mp hnot

/-- A height that is accepted as one is reached. -/
theorem exists_call_eq_heightIn (hheight : isHeight (store.heightIn d s) = true)
    (hunit : ∀ x ∈ store.pointsIn d s, Within 0 1 (store.call s x)) :
    ∃ x ∈ store.pointsIn d s, store.call s x = store.heightIn d s := by
  refine (heightIn_spec hunit).2.2.resolve_left fun hzero => ?_
  have hpos := (within_of_isHeight hheight).2
  rw [hzero, within_zero.value_eq] at hpos
  exact lt_irrefl 0 hpos

/-! ## Scaling again -/

/-- The largest sampled membership of the set is 1, and scaling it again gives a set that compares as
    equal. -/
def ScaledForGood (store : Store Float) (n : SetId) : Prop :=
  (∃ values, (array n store).1 = .ok values ∧ (∀ v ∈ values, v ≤ 1.0) ∧ ∃ v ∈ values, (v == 1.0) = true) ∧
    ∃ t last, normalized n store = (.ok t, last) ∧ (compare .equal t n last).1 = .ok true

/-- Scaling succeeds only by a height that is a finite number above 0. -/
theorem isHeight_of_normalized (h : store.Coherent) (hd : store.domainOf? s = some d)
    (hrun : normalized s store = (.ok n, later)) : isHeight (store.heightIn d s) = true := by
  obtain ⟨-, hvalid, -⟩ := (normalized_eq_ok_iff h hd).mp hrun
  exact ensure_eq_ok_iff.mp (check_bind_eq_ok_iff.mp hvalid).1

section Again

variable (h : store.Scaled d s later n) (hheight : isHeight (store.heightIn d s) = true)
  (hunit : ∀ x ∈ store.pointsIn d s, Within 0 1 (store.call s x))
include h hheight hunit

/-- Scaled memberships are degrees again. -/
theorem Scaled.within : ∀ x ∈ later.pointsIn d n, Within 0 1 (later.call n x) := by
  rw [h.pointsIn]
  intro x hx
  rw [h.call]
  exact normalized_within (hunit x (mem_pointsOf hx _)) hheight

/-- A point of the grid where the scaled set is 1 is one where the set is at its height. -/
theorem Scaled.call_beq_one_iff {x : Float} (hx : x ∈ (store.domainAt d).grid.points) :
    (later.call n x == 1.0) = true ↔ ∀ y ∈ store.pointsIn d s, store.call s y ≤ store.call s x := by
  have hx := mem_pointsOf hx (store.setAt s).func
  obtain ⟨hwithin, hbelow, -⟩ := heightIn_spec hunit
  rw [h.call, scaled_beq_one_iff (hunit x hx) hheight (hbelow x hx)]
  constructor
  · intro heq y hy
    rw [le_iff_value (hunit y hy).finite (hunit x hx).finite, heq]
    exact hbelow y hy
  · intro hmax
    obtain ⟨y, hy, heq⟩ := exists_call_eq_heightIn hheight hunit
    have hle := hmax y hy
    rw [le_iff_value (hunit y hy).finite (hunit x hx).finite, heq] at hle
    exact le_antisymm (hbelow x hx) hle

/-- If the scaled set is 1 somewhere, its own height is 1. -/
theorem Scaled.heightIn_eq_one {x : Float} (hx : x ∈ later.pointsIn d n)
    (hone : (later.call n x == 1.0) = true) :
    Within 0 1 (later.heightIn d n) ∧ value (later.heightIn d n) = 1 := by
  have hunit' := h.within hheight hunit
  obtain ⟨hwithin, hbelow, -⟩ := heightIn_spec hunit'
  rw [beq_iff_value (hunit' x hx).finite within_one.finite, within_one.value_eq] at hone
  exact ⟨hwithin, le_antisymm hwithin.ge (hone ▸ hbelow x hx)⟩

/-- Then another scaling succeeds and changes nothing. -/
theorem Scaled.again {x : Float} (hvalid : (store.setAt s).func.validate = .ok ())
    (hx : x ∈ later.pointsIn d n) (hone : (later.call n x == 1.0) = true) :
    ∃ t last, normalized n later = (.ok t, last) ∧ (compare .equal t n last).1 = .ok true := by
  obtain ⟨hwithin, hvalue⟩ := h.heightIn_eq_one hheight hunit hx hone
  have hpos : ¬ later.heightIn d n ≤ 0.0 := by
    rw [le_iff_value hwithin.finite within_zero.finite, within_zero.value_eq, hvalue]
    norm_num
  have hone' : isHeight (later.heightIn d n) = true := isHeight_of_within hwithin (by rw [hvalue]; norm_num)
  have hfunc : (Membership.normalize (later.heightIn d n) (later.setAt n).func).validate = .ok () := by
    rw [h.func]
    exact check_bind_eq_ok_iff.mpr ⟨ensure_eq_ok_iff.mpr hone',
      check_bind_eq_ok_iff.mpr ⟨ensure_eq_ok_iff.mpr hheight, hvalid⟩⟩
  have hrun := (normalized_eq_ok_iff h.coherent h.reached).mpr ⟨hpos, hfunc, rfl⟩
  refine ⟨_, _, hrun, ?_⟩
  have hnext := scaled_of_normalized h.coherent h.reached hrun
  have hn := hasSet_of_domainOf? h.reached
  rw [compare_eq hnext.coherent hnext.reached ((hnext.old n hn).2.trans h.reached)]
  refine congrArg Except.ok ?_
  -- both sets are sampled on the grid alone
  unfold related
  rw [hnext.pointsIn, hnext.pointsIn_old hn, h.pointsIn, h.domainAt, if_pos rfl]
  simp only [List.zip_eq_zipWith, List.zipWith_self, List.all_map, List.all_eq_true]
  intro y hy
  show (Store.call _ _ y == Store.call _ _ y) = true
  rw [hnext.call, hnext.call_old hn]
  exact scaled_by_one (h.within hheight hunit y (h.pointsIn ▸ hy)) hone' hvalue

end Again

/-- Scaling is for good just when the largest sampled membership is also reached on the grid. -/
theorem Scaled.forGood_iff (h : store.Scaled d s later n) (hheight : isHeight (store.heightIn d s) = true)
    (hunit : ∀ x ∈ store.pointsIn d s, Within 0 1 (store.call s x))
    (hvalid : (store.setAt s).func.validate = .ok ()) :
    later.ScaledForGood n ↔ ∃ x ∈ (store.domainAt d).grid.points,
      ∀ y ∈ store.pointsIn d s, store.call s y ≤ store.call s x := by
  constructor
  · rintro ⟨⟨values, harray, -, v, hv, hone⟩, -⟩
    rw [array_of_coherent h.coherent h.reached] at harray
    cases harray
    obtain ⟨x, hx, rfl⟩ := List.mem_map.mp hv
    rw [h.pointsIn] at hx
    exact ⟨x, hx, (h.call_beq_one_iff hheight hunit hx).mp hone⟩
  · rintro ⟨x, hx, hmax⟩
    have hone := (h.call_beq_one_iff hheight hunit hx).mpr hmax
    have hx' : x ∈ later.pointsIn d n := h.pointsIn ▸ hx
    refine ⟨⟨_, array_of_coherent h.coherent h.reached, fun v hv => ?_, _, List.mem_map_of_mem hx', hone⟩,
      h.again hheight hunit hvalid hx' hone⟩
    obtain ⟨y, hy, rfl⟩ := List.mem_map.mp hv
    have hwithin := h.within hheight hunit y hy
    exact (le_iff_value hwithin.finite within_one.finite).mpr (within_one.value_eq ▸ hwithin.ge)

end Heights

/-! ## Spikes -/

section Spikes

variable {grid : Grid Float} {func : Membership Float} {c : Float}

/-- A spike inside the bounds is sampled. -/
theorem exists_mem_pointsOf_beq (hspike : func.spike? = some c) (hc : grid.contains c = true) :
    ∃ y ∈ pointsOf grid func, (y == c) = true := by
  have hnan : isNaN c = false := (not_isNaN_of_le (of_decide_eq_true (Bool.and_eq_true_iff.mp hc).1)).2
  unfold pointsOf
  rw [hspike]
  dsimp only
  rw [if_pos hc]
  exact exists_mem_insertPoint_beq ((beq_iff_not_lt hnan hnan).mpr ⟨not_lt_self c, not_lt_self c⟩) _

/-- Only at its spike a singleton that was accepted is as high as there. -/
theorem evaluate_spike (hspike : func.spike? = some c) (hvalid : func.validate = .ok ()) :
    ∃ elsewhere height : Float, elsewhere < height ∧
      ∀ x, func.evaluate x = if (x == c) = true then height else elsewhere := by
  obtain ⟨elsewhere, height, rfl⟩ : ∃ elsewhere height, func = .shape (.singleton c elsewhere height) := by
    unfold Membership.spike? at hspike
    split at hspike
    next location elsewhere height =>
      rw [Option.some.inj hspike]
      exact ⟨elsewhere, height, rfl⟩
    next => cases hspike
  exact ⟨elsewhere, height, (Shape.of_validate_singleton hvalid).1, fun x => rfl⟩

end Spikes

/-- **Scaling a set twice.** In every run, let a set reach a domain and have memberships between 0 and 1 at
    its sample points. If it can be scaled, then the scaled set has the largest membership 1, can be scaled
    again, and compares as equal to what that gives, unless the set is a singleton with its spike inside the
    bounds of the domain and at no point of the grid. Of such a one it never holds. -/
theorem scaledForGood_iff {store later : Store Float} (hstore : Reachable store) {s n : SetId}
    {d : DomainId} (hd : store.domainOf? s = some d)
    (hunit : ∀ x ∈ store.pointsIn d s, inUnit (store.call s x) = true)
    (hrun : normalized s store = (.ok n, later)) :
    later.ScaledForGood n ↔ ∀ c, (store.setAt s).func.spike? = some c →
      (store.domainAt d).grid.contains c = true →
        ∃ x ∈ (store.domainAt d).grid.points, (x == c) = true := by
  have hunit' : ∀ x ∈ store.pointsIn d s, Within 0 1 (store.call s x) := fun x hx =>
    inUnit_iff.mp (hunit x hx)
  have h := scaled_of_normalized hstore.coherent hd hrun
  have hheight := isHeight_of_normalized hstore.coherent hd hrun
  obtain ⟨-, hvalid, -⟩ := (normalized_eq_ok_iff hstore.coherent hd).mp hrun
  replace hvalid := (check_bind_eq_ok_iff.mp hvalid).2
  rw [h.forGood_iff hheight hunit' hvalid]
  constructor
  · -- a point of the grid that is as high as the spike has to be the spike
    rintro ⟨x, hx, hmax⟩ c hspike hc
    obtain ⟨y, hy, hyc⟩ := exists_mem_pointsOf_beq hspike hc
    obtain ⟨elsewhere, height, hlt, hevaluate⟩ := evaluate_spike hspike hvalid
    refine ⟨x, hx, ?_⟩
    by_contra hxc
    have hle : (store.setAt s).func.evaluate y ≤ (store.setAt s).func.evaluate x := hmax y hy
    rw [hevaluate, hevaluate, if_pos hyc, if_neg hxc] at hle
    exact (le_iff_not_lt (not_isNaN_of_lt hlt).2 (not_isNaN_of_lt hlt).1).mp hle hlt
  · intro hspikes
    rcases pointsOf_cases (store.domainAt d).grid (store.setAt s).func with hsame | ⟨c, ⟨hspike, hc, -⟩, -⟩
    · -- the sample points are those of the grid
      obtain ⟨x, hx, heq⟩ := exists_call_eq_heightIn hheight hunit'
      refine ⟨x, hsame ▸ hx, fun y hy => ?_⟩
      rw [le_iff_value (hunit' y hy).finite (hunit' x hx).finite, heq]
      exact (heightIn_spec hunit').2.1 y hy
    · obtain ⟨x, hx, hxc⟩ := hspikes c hspike hc
      obtain ⟨elsewhere, height, hlt, hevaluate⟩ := evaluate_spike hspike hvalid
      refine ⟨x, hx, fun y _ => ?_⟩
      show (store.setAt s).func.evaluate y ≤ (store.setAt s).func.evaluate x
      rw [hevaluate, hevaluate, if_pos hxc]
      split
      · exact (le_iff_not_lt (not_isNaN_of_lt hlt).2 (not_isNaN_of_lt hlt).2).mpr (not_lt_self height)
      · exact le_of_less hlt

/-- A singleton with its spike on the grid, at half height. -/
def spikeOnGrid : Store Float := empty.runAll [
  .newDomain "x" 0 10 none, .newSet (.shape (.singleton 3 0.25 0.5)), .bind ⟨0⟩ ⟨0⟩]

/-- A spike at a grid point is scaled for good, as the grid sees it. -/
theorem scaledForGood_spikeOnGrid :
    Reachable spikeOnGrid ∧ spikeOnGrid.domainOf? ⟨0⟩ = some ⟨0⟩ ∧
      (∀ x ∈ spikeOnGrid.pointsIn ⟨0⟩ ⟨0⟩, inUnit (spikeOnGrid.call ⟨0⟩ x) = true) ∧
      ∃ later, normalized ⟨0⟩ spikeOnGrid = (.ok ⟨1⟩, later) ∧ later.ScaledForGood ⟨1⟩ := by
  have hrun : Reachable spikeOnGrid := reachable_runAll (by decide +kernel)
  have hd : spikeOnGrid.domainOf? ⟨0⟩ = some ⟨0⟩ := by decide +kernel
  have hunit : ∀ x ∈ spikeOnGrid.pointsIn ⟨0⟩ ⟨0⟩, inUnit (spikeOnGrid.call ⟨0⟩ x) = true := by
    decide +kernel
  have hanswer : (normalized ⟨0⟩ spikeOnGrid).1 = .ok ⟨1⟩ := outcome_of_toOption (by decide +kernel)
  obtain ⟨later, hscaled⟩ : ∃ later, normalized ⟨0⟩ spikeOnGrid = (.ok ⟨1⟩, later) := by
    generalize normalized ⟨0⟩ spikeOnGrid = answer at hanswer ⊢
    exact ⟨answer.2, Prod.ext hanswer rfl⟩
  refine ⟨hrun, hd, hunit, later, hscaled, ?_⟩
  refine (scaledForGood_iff hrun hd hunit hscaled).mpr fun c hc _ => ?_
  have hspike : (spikeOnGrid.setAt ⟨0⟩).func.spike? = some 3 := by decide +kernel
  have hplace : ((spikeOnGrid.domainAt ⟨0⟩).grid.points)[3]? = some 3 := by decide +kernel
  refine ⟨3, List.mem_of_getElem? hplace, ?_⟩
  rw [← Option.some.inj (hspike.symm.trans hc)]
  decide +kernel

/-- A set that is 1 at a spike between grid points, and 0.2 everywhere else. -/
def spikeOffGrid : Store Float := empty.runAll [
  .newDomain "x" 0 10 none, .newSet (.shape (.singleton 2.5 0.2 1)), .bind ⟨0⟩ ⟨0⟩]

/-- **A spike between grid points is not sampled once the set was scaled.** The scaled set has the height 0.2,
    scaling it again gives one of height 1, and the two do not compare as equal. -/
theorem spikeOffGrid_scaledTwice :
    Reachable spikeOffGrid ∧ spikeOffGrid.domainOf? ⟨0⟩ = some ⟨0⟩ ∧
      (∀ x ∈ spikeOffGrid.pointsIn ⟨0⟩ ⟨0⟩, inUnit (spikeOffGrid.call ⟨0⟩ x) = true) ∧
      (normalized ⟨0⟩ spikeOffGrid).1 = .ok ⟨1⟩ ∧
      (array ⟨1⟩ (normalized ⟨0⟩ spikeOffGrid).2).1 = .ok (List.replicate 11 0.2) ∧
      (normalized ⟨1⟩ (normalized ⟨0⟩ spikeOffGrid).2).1 = .ok ⟨2⟩ ∧
      (compare .equal ⟨2⟩ ⟨1⟩ (normalized ⟨1⟩ (normalized ⟨0⟩ spikeOffGrid).2).2).1 = .ok false :=
  ⟨reachable_runAll (by decide +kernel), by decide +kernel, by decide +kernel,
    outcome_of_toOption (by decide +kernel), outcome_of_toOption (by decide +kernel),
    outcome_of_toOption (by decide +kernel), outcome_of_toOption (by decide +kernel)⟩

end Store

end FuzzyInference

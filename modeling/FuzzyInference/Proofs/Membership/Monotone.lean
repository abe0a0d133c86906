import FuzzyInference.Membership.Validate
import FuzzyInference.Proofs.Combinator.Norms
import FuzzyInference.Proofs.Store.Action
import Mathlib.Algebra.Order.Ring.Pow
import Mathlib.Analysis.SpecialFunctions.Pow.Real

/-!
# Positive expressions are monotone

An expression that uses no complement and no exclusive or never answers less when the functions it is built
from answer more. Every operator keeps a pair of degrees of which the second is not below the first; that the
larger result stays a degree is part of what it keeps, for the operators further out rely on it. A tree then
needs one case per operator, and its accepted parameters are what these cases ask for.

## Contents
- `Context`, `Context.fill`: an expression with places and what it becomes with functions in them.
- `Context.Positive`: the expressions without complement and exclusive or.
- `Rises`: a degree and another one that is not below it. `Rises.map`, `Rises.foldl`: what keeps it.
- `rises_clipped` and the like, `Combinator.rises_pair`, `Combinator.rises_reduce`: the operators.
- `Context.evaluate_fill_mono`: positive expressions are monotone.
-/

set_option linter.unusedSectionVars false

namespace FuzzyInference

open Scalar

/-! ## Expressions with places -/

/-- An expression with places for functions, of the operators other than the complement. -/
inductive Context (α ι : Type) where
  | place (i : ι)
  | alpha (floor ceiling floorClip ceilingClip : α) (inner : Context α ι)
  | normalize (height : α) (inner : Context α ι)
  | moderate (inner : Context α ι)
  | power (exponent : α) (inner : Context α ι)
  | intensify (inner : Context α ι)
  | combination (op : Combinator α) (operands : List (Context α ι))

namespace Context

variable {α ι : Type}

mutual

/-- The function that an expression becomes with functions in its places. -/
def fill (leaves : ι → Membership α) : Context α ι → Membership α
  | place i => leaves i
  | alpha floor ceiling floorClip ceilingClip inner =>
    .alpha floor ceiling floorClip ceilingClip (fill leaves inner)
  | normalize height inner => .normalize height (fill leaves inner)
  | moderate inner => .moderate (fill leaves inner)
  | power exponent inner => .power exponent (fill leaves inner)
  | intensify inner => .intensify (fill leaves inner)
  | combination op operands => .combination op (fillAll leaves operands)

/-- The functions that several expressions become. -/
def fillAll (leaves : ι → Membership α) : List (Context α ι) → List (Membership α)
  | [] => []
  | context :: contexts => fill leaves context :: fillAll leaves contexts

end

mutual

/-- Thresholds are clipped outwards, and no combination is an exclusive or. -/
def Positive [LE α] : Context α ι → Prop
  | place _ => True
  | alpha floor ceiling floorClip ceilingClip inner =>
    floorClip ≤ floor ∧ ceiling ≤ ceilingClip ∧ Positive inner
  | normalize _ inner | moderate inner | power _ inner | intensify inner => Positive inner
  | combination op operands => op ≠ .simpleDisjointSum ∧ AllPositive operands

/-- All of several expressions are positive. -/
def AllPositive [LE α] : List (Context α ι) → Prop
  | [] => True
  | context :: contexts => Positive context ∧ AllPositive contexts

end

end Context

variable {K : Type} [Field K] [LinearOrder K] [IsStrictOrderedRing K]

/-! ## Degrees that rise -/

/-- A degree and another one that is not below it. -/
structure Rises (u v : K) : Prop where
  nonneg : 0 ≤ u
  le : u ≤ v
  le_one : v ≤ 1

section Rising

variable {u v u' v' w : K} {us vs : List K} {f : K → K}

theorem Rises.left (h : Rises u v) : IsDegree u := ⟨h.nonneg, h.le.trans h.le_one⟩

theorem Rises.right (h : Rises u v) : IsDegree v := ⟨h.nonneg.trans h.le, h.le_one⟩

theorem IsDegree.rises (hu : IsDegree u) : Rises u u := ⟨hu.nonneg, le_rfl, hu.le_one⟩

/-- What rises and keeps the ends of the unit interval inside keeps all of it inside. -/
theorem Rises.map (hmono : ∀ {u v : K}, Rises u v → f u ≤ f v) (hzero : 0 ≤ f 0) (hone : f 1 ≤ 1)
    (h : Rises u v) : Rises (f u) (f v) := by
  have hlow : f 0 ≤ f u := hmono ⟨le_rfl, h.left.nonneg, h.left.le_one⟩
  have hhigh : f v ≤ f 1 := hmono ⟨h.right.nonneg, h.right.le_one, le_rfl⟩
  exact ⟨hzero.trans hlow, hmono h, hhigh.trans hone⟩

theorem IsNorm.rises {neutral : K} {op : K → K → K} (h : IsNorm neutral op) (hu : Rises u v)
    (hu' : Rises u' v') : Rises (op u u') (op v v') := by
  have hle : op u u' ≤ op v v' :=
    calc op u u' ≤ op v u' := h.mono hu.left hu.right hu'.left hu.le
      _ ≤ op v v' := h.mono_right hu.right hu'.left hu'.right hu'.le
  exact ⟨(h.isDegree hu.left hu'.left).nonneg, hle, (h.isDegree hu.right hu'.right).le_one⟩

/-- A mean with fixed weights rises with what it is taken of. -/
theorem Rises.mean (hw : IsDegree w) (hu : Rises u v) (hu' : Rises u' v') :
    Rises (w * u + (1 - w) * u') (w * v + (1 - w) * v') := by
  have hw' := hw.complement
  refine ⟨?_, ?_, ?_⟩
  · exact add_nonneg (mul_nonneg hw.nonneg hu.nonneg) (mul_nonneg hw'.nonneg hu'.nonneg)
  · apply add_le_add
    · exact mul_le_mul_of_nonneg_left hu.le hw.nonneg
    · exact mul_le_mul_of_nonneg_left hu'.le hw'.nonneg
  · calc w * v + (1 - w) * v' ≤ w * 1 + (1 - w) * 1 := by
          apply add_le_add
          · exact mul_le_mul_of_nonneg_left hu.le_one hw.nonneg
          · exact mul_le_mul_of_nonneg_left hu'.le_one hw'.nonneg
      _ = 1 := by ring

/-- A fold rises in all its operands when its operation does. The induction is on both lists at
once. -/
theorem Rises.foldl {op : K → K → K}
    (hop : ∀ {u v u' v' : K}, Rises u v → Rises u' v' → Rises (op u u') (op v v'))
    (hus : List.Forall₂ Rises us vs) (hu : Rises u v) : Rises (us.foldl op u) (vs.foldl op v) := by
  induction hus generalizing u v with
  | nil => exact hu
  | cons hfirst _ ih => exact ih (hop hu hfirst)

end Rising

/-! ## Operators -/

variable [FloorRing K] [Elementary K] {u v u' v' : K}

namespace Membership

/-- The moderated membership is a cubic about a half. -/
theorem moderated_eq (m : K) : moderated m = 1 / 2 + 4 * (m - 1 / 2) ^ 3 := by
  show (0.5 : K) + 4.0 * ((m - 0.5) * (m - 0.5) * (m - 0.5)) = _
  rw [half_literal, four_literal]
  ring

/-- The intensified membership is made of two parabolas that meet at a half. -/
theorem intensified_eq (m : K) :
    intensified m = if m < 1 / 2 then 2 * m ^ 2 else 1 - 2 * (1 - m) ^ 2 := by
  show (if m < (0.5 : K) then (2.0 : K) * (m * m) else (1.0 : K) - 2.0 * ((1.0 - m) * (1.0 - m))) = _
  rw [half_literal, two_literal, one_literal, pow_two, pow_two]

theorem clipped_eq (floor ceiling floorClip ceilingClip m : K) :
    clipped floor ceiling floorClip ceilingClip m =
      if ceiling ≤ m then ceilingClip else if m ≤ floor then floorClip else m := rfl

/-- What is cut off at a threshold is replaced by something further out. -/
theorem rises_clipped {floor ceiling floorClip ceilingClip : K} (hfloor : floorClip ≤ floor)
    (hceiling : ceiling ≤ ceilingClip) (hordered : floor ≤ ceiling) (hlow : IsDegree floorClip)
    (hhigh : IsDegree ceilingClip) (h : Rises u v) :
    Rises (clipped floor ceiling floorClip ceilingClip u) (clipped floor ceiling floorClip ceilingClip v) := by
  have hclips : floorClip ≤ ceilingClip := hfloor.trans (hordered.trans hceiling)
  refine h.map (f := clipped floor ceiling floorClip ceilingClip) ?mono ?zero ?one
  case mono =>
    intro u v h
    rw [clipped_eq, clipped_eq]
    -- by where the greater membership lies, then the smaller one
    by_cases hv : ceiling ≤ v
    · rw [if_pos hv]
      split_ifs with hu hu'
      · exact le_rfl
      · exact hclips
      · exact (not_le.mp hu).le.trans hceiling
    · have hu : ¬ ceiling ≤ u := fun hu => hv (hu.trans h.le)
      rw [if_neg hv, if_neg hu]
      by_cases hv' : v ≤ floor
      · rw [if_pos hv', if_pos (h.le.trans hv')]
      · rw [if_neg hv']
        split_ifs with hu'
        · exact hfloor.trans (not_le.mp hv').le
        · exact h.le
  case zero =>
    rw [clipped_eq]
    split_ifs
    exacts [hhigh.nonneg, hlow.nonneg, le_rfl]
  case one =>
    rw [clipped_eq]
    split_ifs
    exacts [hhigh.le_one, hlow.le_one, le_rfl]

/-- Scaling by a positive height and cutting at 1 keeps the order. -/
theorem rises_normalized {height : K} (hpos : 0 < height) (h : Rises u v) :
    Rises (lesser (u / height) 1.0) (lesser (v / height) 1.0) := by
  rw [lesser_eq, lesser_eq, one_literal]
  refine ⟨le_min (div_nonneg h.nonneg hpos.le) zero_le_one, ?_, min_le_right _ _⟩
  exact min_le_min_right 1 (div_le_div_of_nonneg_right h.le hpos.le)

theorem rises_moderated (h : Rises u v) : Rises (moderated u) (moderated v) := by
  refine h.map (f := moderated) ?_ ?_ ?_
  · intro u v h
    rw [moderated_eq, moderated_eq]
    have hodd : Odd 3 := by decide
    have hcube : (u - 1 / 2) ^ 3 ≤ (v - 1 / 2) ^ 3 := hodd.pow_le_pow.mpr (sub_le_sub_right h.le _)
    linarith
  · rw [moderated_eq]
    norm_num
  · rw [moderated_eq]
    norm_num

/-- The two branches meet at one half, where both are one half. -/
theorem rises_intensified (h : Rises u v) : Rises (intensified u) (intensified v) := by
  -- the two parabolas meet at a half, each on its own side of it
  have hlower : ∀ {m : K}, 0 ≤ m → m < 1 / 2 → 2 * m ^ 2 ≤ 1 / 2 := by
    intro m h0 hm
    have hsquare : m ^ 2 ≤ (1 / 2) ^ 2 := pow_le_pow_left₀ h0 hm.le 2
    linarith
  have hupper : ∀ {m : K}, 1 / 2 ≤ m → m ≤ 1 → 1 / 2 ≤ 1 - 2 * (1 - m) ^ 2 := by
    intro m hm h1
    have hsquare : (1 - m) ^ 2 ≤ (1 / 2) ^ 2 := pow_le_pow_left₀ (sub_nonneg.mpr h1) (by linarith) 2
    linarith
  refine h.map (f := intensified) ?mono ?zero ?one
  case mono =>
    intro u v h
    rw [intensified_eq, intensified_eq]
    split_ifs with hu hv hv
    · have hsquare : u ^ 2 ≤ v ^ 2 := pow_le_pow_left₀ h.nonneg h.le 2
      linarith
    · exact (hlower h.nonneg hu).trans (hupper (not_lt.mp hv) h.le_one)
    · exact absurd (h.le.trans_lt hv) hu
    · have hsquare : (1 - v) ^ 2 ≤ (1 - u) ^ 2 :=
        pow_le_pow_left₀ (sub_nonneg.mpr h.le_one) (sub_le_sub_left h.le 1) 2
      linarith
  case zero =>
    rw [intensified_eq]
    norm_num
  case one =>
    rw [intensified_eq]
    norm_num

end Membership

/-- Powers with exponents that are not negative: of degrees they are degrees, and they grow with the base. -/
structure GrowingPowers (K : Type) [Field K] [LinearOrder K] [IsStrictOrderedRing K] [Elementary K] :
    Prop where
  isDegree {base exponent : K} (hbase : IsDegree base) (hexponent : 0 ≤ exponent) :
    IsDegree (Elementary.pow base exponent)
  mono {base other exponent : K} (hbase : IsDegree base) (hother : IsDegree other) (h : base ≤ other)
    (hexponent : 0 ≤ exponent) : Elementary.pow base exponent ≤ Elementary.pow other exponent

/-- The functions of the real numbers. -/
noncomputable instance : Elementary ℝ := ⟨Real.exp, Real.log, Real.sqrt, fun x y => x ^ y⟩

/-- Powers of the real numbers grow as assumed. -/
theorem growingPowers_real : GrowingPowers ℝ where
  isDegree hbase hexponent :=
    ⟨Real.rpow_nonneg hbase.nonneg _, Real.rpow_le_one hbase.nonneg hbase.le_one hexponent⟩
  mono hbase _ h hexponent := Real.rpow_le_rpow hbase.nonneg h hexponent

theorem GrowingPowers.rises (hpow : GrowingPowers K) {exponent : K} (hexponent : 0 ≤ exponent)
    (h : Rises u v) : Rises (pow u exponent) (pow v exponent) :=
  ⟨(hpow.isDegree h.left hexponent).nonneg, hpow.mono h.left h.right h.le hexponent,
    (hpow.isDegree h.right hexponent).le_one⟩

namespace Combinator

/-- The lambda operator is a weighted arithmetic mean of product and bounded sum. -/
theorem pair_lambda (w u v : K) :
    pair (.lambda w) u v = w * pair .product u v + (1 - w) * pair .boundedSum u v := by
  show w * (u * v) + ((1.0 : K) - w) * (u + v - u * v) = _
  rw [one_literal]
  rfl

/-- The gamma operator is a weighted geometric mean of product and bounded sum. -/
theorem pair_gamma (w u v : K) : pair (.gamma w) u v =
    pair .product (pow (pair .product u v) (1 - w)) (pow (pair .boundedSum u v) w) := by
  have hsum : (1.0 : K) - (1.0 - u) * (1.0 - v) = u + v - u * v := by
    rw [one_literal]
    ring
  show pow (u * v) ((1.0 : K) - w) * pow ((1.0 : K) - (1.0 - u) * (1.0 - v)) w = _
  rw [hsum, one_literal]
  rfl

/-- Every connective but the exclusive or rises with its operands. -/
theorem rises_pair (hpow : GrowingPowers K) {op : Combinator K} (hop : op ≠ .simpleDisjointSum)
    (hweight : ∀ w ∈ op.weight?, IsDegree w) (h : Rises u v) (h' : Rises u' v') :
    Rises (op.pair u u') (op.pair v v') := by
  have hproduct := (isNorm_product (K := K)).rises h h'
  have hsum := (NormFamily.isNorm_disjunction (K := K) .product).rises h h'
  -- norms and their duals rise by their laws; the two compensatory operators are means of them
  cases op with
  | min => exact isNorm_min.rises h h'
  | max => exact (NormFamily.isNorm_disjunction .minimum).rises h h'
  | product => exact hproduct
  | boundedSum => exact hsum
  | lukasiewiczAnd => exact isNorm_lukasiewiczAnd.rises h h'
  | lukasiewiczOr => exact (NormFamily.isNorm_disjunction .lukasiewicz).rises h h'
  | einsteinProduct => exact isNorm_einsteinProduct.rises h h'
  | einsteinSum => exact (NormFamily.isNorm_disjunction .einstein).rises h h'
  | hamacherProduct => exact isNorm_hamacherProduct.rises h h'
  | hamacherSum => exact (NormFamily.isNorm_disjunction .hamacher).rises h h'
  | lambda w =>
    rw [pair_lambda, pair_lambda]
    exact Rises.mean (hweight w rfl) hproduct hsum
  | gamma w =>
    have hw := hweight w rfl
    rw [pair_gamma, pair_gamma]
    exact isNorm_product.rises (hpow.rises hw.complement.nonneg hproduct) (hpow.rises hw.nonneg hsum)
  | simpleDisjointSum => exact absurd rfl hop

theorem isDegree_ofNone (op : Combinator K) : IsDegree (op.ofNone : K) := by
  have hzero : IsDegree (0.0 : K) := by
    rw [zero_literal]
    exact isDegree_zero
  have hone : IsDegree (1.0 : K) := by
    rw [one_literal]
    exact isDegree_one
  cases op with
  | max => exact hone
  | _ => exact hzero

/-- Every operator but the exclusive or rises with its operands. -/
theorem rises_reduce (hpow : GrowingPowers K) {op : Combinator K} (hop : op ≠ .simpleDisjointSum)
    (hweight : ∀ w ∈ op.weight?, IsDegree w) {us vs : List K} (h : List.Forall₂ Rises us vs) :
    Rises (op.reduce us) (op.reduce vs) := by
  cases h with
  | nil =>
    have hnone : op.reduce [] = (op.ofNone : K) := by
      cases op with
      | simpleDisjointSum => exact absurd rfl hop
      | _ => rfl
    rw [hnone]
    exact (isDegree_ofNone op).rises
  | cons hfirst hrest =>
    rw [reduce_cons hop, reduce_cons hop]
    exact Rises.foldl (rises_pair hpow hop hweight) hrest hfirst

end Combinator

/-! ## Accepted parameters -/

theorem inUnit_iff_isDegree : inUnit u = true ↔ IsDegree u := by
  have hcompare : inUnit u = true ↔ (0.0 : K) ≤ u ∧ u ≤ (1.0 : K) :=
    Bool.and_eq_true_iff.trans (and_congr decide_eq_true_iff decide_eq_true_iff)
  rw [hcompare, zero_literal, one_literal]
  exact ⟨fun h => ⟨h.1, h.2⟩, fun h => ⟨h.nonneg, h.le_one⟩⟩

theorem Combinator.isDegree_weight {op : Combinator K} {operands : ℕ} (h : op.validate operands = .ok ()) :
    ∀ w ∈ op.weight?, IsDegree w := by
  obtain ⟨hweight, -⟩ := check_bind_eq_ok_iff.mp h
  intro w hw
  unfold checkWeight at hweight
  rw [Option.mem_def.mp hw] at hweight
  exact inUnit_iff_isDegree.mp (ensure_eq_ok_iff.mp hweight)

/-! ## Trees -/

namespace Context

variable {ι : Type} {x : K} {leaves f g : ι → Membership K}

mutual

/-- A positive context rises with what fills it. The induction is on the context and, for the
operands of a fold, on their list. -/
theorem rises_fill (hpow : GrowingPowers K) (context : Context K ι) (hpositive : context.Positive)
    (hvalid : (context.fill leaves).validate = .ok ())
    (h : ∀ i, Rises ((f i).evaluate x) ((g i).evaluate x)) :
    Rises ((context.fill f).evaluate x) ((context.fill g).evaluate x) := by
  -- validity is passed down to the operands along with positivity
  cases context with
  | place i => exact h i
  | alpha floor ceiling floorClip ceilingClip inner =>
    obtain ⟨hfloor, hceiling, hpositive⟩ := hpositive
    obtain ⟨hthresholds, hvalid⟩ := check_bind_eq_ok_iff.mp hvalid
    obtain ⟨hclips, hvalid⟩ := check_bind_eq_ok_iff.mp hvalid
    obtain ⟨hlow, hhigh⟩ := Bool.and_eq_true_iff.mp (ensure_eq_ok_iff.mp hclips)
    obtain ⟨hordered, -⟩ := Bool.and_eq_true_iff.mp (ensure_eq_ok_iff.mp hthresholds)
    have hordered : floor ≤ ceiling := of_decide_eq_true (Bool.and_eq_true_iff.mp hordered).2
    exact Membership.rises_clipped hfloor hceiling hordered (inUnit_iff_isDegree.mp hlow)
      (inUnit_iff_isDegree.mp hhigh) (rises_fill hpow inner hpositive hvalid h)
  | normalize height inner =>
    obtain ⟨hheight, hvalid⟩ := check_bind_eq_ok_iff.mp hvalid
    have hpos : (0.0 : K) < height :=
      of_decide_eq_true (Bool.and_eq_true_iff.mp (ensure_eq_ok_iff.mp hheight)).1
    rw [zero_literal] at hpos
    exact Membership.rises_normalized hpos (rises_fill hpow inner hpositive hvalid h)
  | moderate inner => exact Membership.rises_moderated (rises_fill hpow inner hpositive hvalid h)
  | power exponent inner =>
    obtain ⟨hexponent, hvalid⟩ := check_bind_eq_ok_iff.mp hvalid
    have hnonneg : (0.0 : K) ≤ exponent :=
      of_decide_eq_true (Bool.and_eq_true_iff.mp (ensure_eq_ok_iff.mp hexponent)).2
    rw [zero_literal] at hnonneg
    exact hpow.rises hnonneg (rises_fill hpow inner hpositive hvalid h)
  | intensify inner => exact Membership.rises_intensified (rises_fill hpow inner hpositive hvalid h)
  | combination op operands =>
    obtain ⟨hop, hpositive⟩ := hpositive
    obtain ⟨hcombinator, hvalid⟩ := check_bind_eq_ok_iff.mp hvalid
    exact Combinator.rises_reduce hpow hop (Combinator.isDegree_weight hcombinator)
      (rises_fillAll hpow operands hpositive hvalid h)

theorem rises_fillAll (hpow : GrowingPowers K) (contexts : List (Context K ι))
    (hpositive : AllPositive contexts)
    (hvalid : Membership.validateAll (fillAll leaves contexts) = .ok ())
    (h : ∀ i, Rises ((f i).evaluate x) ((g i).evaluate x)) :
    List.Forall₂ Rises (Membership.evaluateAll x (fillAll f contexts))
      (Membership.evaluateAll x (fillAll g contexts)) := by
  cases contexts with
  | nil => exact .nil
  | cons context contexts =>
    obtain ⟨hfirst, hrest⟩ := hpositive
    obtain ⟨hvalidfirst, hvalidrest⟩ := check_bind_eq_ok_iff.mp hvalid
    exact .cons (rises_fill hpow context hfirst hvalidfirst h)
      (rises_fillAll hpow contexts hrest hvalidrest h)

end

/-- **Positive expressions are monotone.** Where the functions in the places of an accepted expression give
way to functions with memberships that are not lower, the membership in the whole expression is not lower
either. A place that keeps its function is filled alike before and after. -/
theorem evaluate_fill_mono (hpow : GrowingPowers K) {context : Context K ι} (hpositive : context.Positive)
    (hvalid : (context.fill leaves).validate = .ok ()) (hf : ∀ i, 0 ≤ (f i).evaluate x)
    (hle : ∀ i, (f i).evaluate x ≤ (g i).evaluate x) (hg : ∀ i, (g i).evaluate x ≤ 1) :
    (context.fill f).evaluate x ≤ (context.fill g).evaluate x := by
  have h : ∀ i, Rises ((f i).evaluate x) ((g i).evaluate x) := by
    intro i
    exact ⟨hf i, hle i, hg i⟩
  exact (rises_fill hpow context hpositive hvalid h).le

/-- Every transformation under a compensatory combinator, over the identity and a constant that is raised. -/
theorem evaluate_fill_mono_gamma :
    let context : Context ℝ Bool := .combination (.gamma (1 / 2))
      [.power 2 (.place true),
        .normalize (1 / 2) (.alpha (1 / 4) (3 / 4) (1 / 8) 1 (.intensify (.moderate (.place false))))]
    let low (i : Bool) : Membership ℝ := .shape (if i then .identity else .constant (1 / 3))
    let high (i : Bool) : Membership ℝ := .shape (if i then .identity else .constant (2 / 3))
    context.Positive ∧ (context.fill low).validate = .ok () ∧
      (∀ i, 0 ≤ (low i).evaluate (1 / 2)) ∧ (∀ i, (low i).evaluate (1 / 2) ≤ (high i).evaluate (1 / 2)) ∧
      (∀ i, (high i).evaluate (1 / 2) ≤ 1) ∧
      (context.fill low).evaluate (1 / 2) ≤ (context.fill high).evaluate (1 / 2) := by
  intro context low high
  have hpositive : context.Positive := by
    refine ⟨nofun, trivial, ⟨?_, ?_, trivial⟩, trivial⟩
    · norm_num
    · norm_num
  have hdegree : ∀ {u : ℝ}, 0 ≤ u → u ≤ 1 → inUnit u = true := fun h0 h1 => inUnit_iff_isDegree.mpr ⟨h0, h1⟩
  have hheight : isHeight (1 / 2 : ℝ) = true := by
    show (decide ((0.0 : ℝ) < 1 / 2) && decide ((1 / 2 : ℝ) ≤ 1.0)) = true
    norm_num
  have hthresholds : (decide ((0.0 : ℝ) ≤ 1 / 4) && decide ((1 / 4 : ℝ) ≤ 3 / 4) &&
      decide ((3 / 4 : ℝ) ≤ 1.0)) = true := by
    norm_num
  have hexponent : (isFinite (2 : ℝ) && decide ((0.0 : ℝ) ≤ 2)) = true := by
    show decide ((0.0 : ℝ) ≤ 2) = true
    norm_num
  -- the checks of the composed function, from the outside in
  have hvalid : (context.fill low).validate = .ok () := by
    simp only [context, Context.fill, Context.fillAll, Membership.validate, Membership.validateAll,
      check_bind_eq_ok_iff, ensure_eq_ok_iff]
    refine ⟨?weight, ⟨hexponent, rfl⟩, ⟨hheight, hthresholds, ?clips, ?constant⟩, trivial⟩
    case weight =>
      exact check_bind_eq_ok_iff.mpr ⟨ensure_eq_ok_iff.mpr (hdegree (by norm_num) (by norm_num)), rfl⟩
    case clips =>
      apply Bool.and_eq_true_iff.mpr
      exact ⟨hdegree (by norm_num) (by norm_num), hdegree zero_le_one le_rfl⟩
    case constant =>
      exact ensure_eq_ok_iff.mpr (hdegree (by norm_num) (by norm_num))
  have hlow : ∀ i, 0 ≤ (low i).evaluate (1 / 2) := by
    rintro (_ | _)
    · show (0 : ℝ) ≤ 1 / 3
      norm_num
    · show (0 : ℝ) ≤ 1 / 2
      norm_num
  have hle : ∀ i, (low i).evaluate (1 / 2) ≤ (high i).evaluate (1 / 2) := by
    rintro (_ | _)
    · show (1 / 3 : ℝ) ≤ 2 / 3
      norm_num
    · exact le_rfl
  have hhigh : ∀ i, (high i).evaluate (1 / 2) ≤ 1 := by
    rintro (_ | _)
    · show (2 / 3 : ℝ) ≤ 1
      norm_num
    · show (1 / 2 : ℝ) ≤ 1
      norm_num
  exact ⟨hpositive, hvalid, hlow, hle, hhigh,
    evaluate_fill_mono growingPowers_real hpositive hvalid hlow hle hhigh⟩

end Context

end FuzzyInference

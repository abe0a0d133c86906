import FuzzyInference.Proofs.Store.Operation

/-!
# Questions that only keep what they computed

Asking a set for its memberships or its center, comparing sets and inferring leave a store as it is but
for what they keep: no set or domain comes or goes, and none changes its function, its binding or its
name. The one question that makes something is scaling a set to height 1, which asks for the
memberships first and then adds the scaled set.

## Contents
- `Quiet`: two stores that differ in kept values only, the later one keeping more.
- `quiet_andThen`: a row of quiet actions. One lemma for each question.
- `Operation.isQuiet`, `Operation.quiet`: the operations that are such questions.
-/

namespace FuzzyInference

namespace Store

variable {α β γ : Type} [Scalar α]

/-- The later store keeps what the earlier one does, perhaps more, and is else the same. -/
structure Quiet (before after : Store α) : Prop where
  framed : Framed before after
  changes : Changes before after
  sets : after.sets.size = before.sets.size
  domains : after.domains = before.domains

theorem Quiet.refl (store : Store α) : Quiet store store :=
  ⟨Framed.refl store, .refl, rfl, rfl⟩

/-- Quiet stretches of a run join into one. -/
theorem Quiet.trans {a b c : Store α} (h : Quiet a b) (k : Quiet b c) : Quiet a c :=
  ⟨h.framed.trans k.framed, h.changes.trans k.changes, k.sets.trans h.sets,
    k.domains.trans h.domains⟩

omit [Scalar α] in
theorem hasSet_congr {before after : Store α} (h : after.sets.size = before.sets.size) {s : SetId} :
    after.HasSet s ↔ before.HasSet s := by
  unfold HasSet
  rw [h]

/-! ## Rows of quiet actions -/

/-- A row of quiet actions is quiet: the first must be, and every continuation from wherever it
leaves off. -/
theorem quiet_andThen {act : Action α β} {next : β → Action α γ} {store : Store α}
    (first : Quiet store (act store).2) (rest : ∀ b later, Quiet later (next b later).2) :
    Quiet store ((act >>= next) store).2 :=
  Action.bind_preserves (P := Quiet store) first fun b later _ seen => seen.trans (rest b later)

theorem quiet_ofExcept (outcome : Except (FuzzyError α) β) (store : Store α) :
    Quiet store (Action.ofExcept outcome store).2 := .refl store

/-! ## Sampling -/

/-- Asking for a set's memberships adds at most the array it keeps. -/
theorem quiet_array (s : SetId) (store : Store α) : Quiet store (array s store).2 := by
  refine ⟨?_, changes_array s store, ?_, ?_⟩ <;> unfold array
  · split
    · exact .refl store
    · split
      · exact .refl store
      · exact framed_modifySet rfl rfl rfl
  all_goals
    split
    · rfl
    · split
      · rfl
      · simp [modifySet]

/-- Keeping a center touches nothing but the center. -/
theorem quiet_keepCenter {store : Store α} {s : SetId} {c : α}
    (h : Changes store (keepCenter s c store).2) : Quiet store (keepCenter s c store).2 :=
  ⟨framed_modifySet rfl rfl rfl, h, by simp [keepCenter, modifySet], rfl⟩

/-- Asking for a center keeps the center, and the memberships when it had to weigh the grid. -/
theorem quiet_centerOfGravity (s : SetId) (store : Store α) :
    Quiet store (centerOfGravity s store).2 := by
  have hchanges := changes_centerOfGravity s store
  cases hc : (store.setAt s).center? with
  | some c =>
    rw [centerOfGravity_of_kept hc]
    exact .refl store
  | none =>
    cases hs : (store.setAt s).func.spike? with
    | some c =>
      rw [centerOfGravity_of_spike hc hs] at hchanges ⊢
      exact quiet_keepCenter hchanges
    | none =>
      cases hp : store.samplePoints s with
      | error e =>
        rw [centerOfGravity_of_error hc hs hp]
        exact .refl store
      | ok points =>
        obtain ⟨values, later, ha, -, -, -⟩ := array_keeps hp
        have hfirst := quiet_array s store
        rw [ha] at hfirst
        rw [centerOfGravity_of_points hc hs hp ha] at hchanges ⊢
        -- one more write after the array, to the center alone
        exact ⟨hfirst.framed.trans (framed_withCenter later s _), hchanges,
          by simpa [withCenter, modifySet] using hfirst.sets, hfirst.domains⟩

theorem quiet_len (s : SetId) (store : Store α) : Quiet store (len s store).2 :=
  quiet_andThen (quiet_array s store) fun _ later => .refl later

theorem quiet_cardinality (s : SetId) (store : Store α) : Quiet store (cardinality s store).2 :=
  quiet_andThen (quiet_array s store) fun _ later => .refl later

theorem quiet_relativeCardinality (s : SetId) (store : Store α) :
    Quiet store (relativeCardinality s store).2 := by
  refine quiet_andThen (quiet_len s store) fun n later => ?_
  dsimp only
  split
  · exact .refl later
  · exact quiet_andThen (quiet_cardinality s later) fun _ last => .refl last

/-! ## Comparing -/

theorem quiet_boundArrays (s t : SetId) (store : Store α) :
    Quiet store (boundArrays s t store).2 := by
  refine quiet_andThen (.refl store) fun seen later => ?_
  dsimp only
  split
  · exact .refl later
  · exact quiet_andThen (quiet_array s later) fun _ last =>
      quiet_andThen (quiet_array t last) fun _ final => .refl final

/-- Either path of a pointwise comparison is quiet, the slow one since it evaluates functions alone.
-/
theorem quiet_holdsPointwise (holds : α → α → Bool) (s t : SetId) (store : Store α) :
    Quiet store (holdsPointwise holds s t store).2 := by
  refine quiet_andThen (quiet_boundArrays s t store) fun _ later => ?_
  refine quiet_andThen (.refl later) fun seen last => ?_
  refine quiet_andThen (quiet_ofExcept _ last) fun _ final => ?_
  dsimp only
  split
  · exact .refl final
  · exact quiet_andThen (quiet_ofExcept _ final) fun _ end_ =>
      quiet_andThen (quiet_ofExcept _ end_) fun _ rest => .refl rest

/-- No relation between two sets changes them. -/
theorem quiet_compare (rel : Relation) (s t : SetId) (store : Store α) :
    Quiet store (compare rel s t store).2 := by
  cases rel with
  | equal =>
    unfold compare isEqualTo
    exact quiet_andThen (quiet_boundArrays s t store) fun _ later => .refl later
  | _ =>
    unfold compare
    exact quiet_holdsPointwise _ s t store

/-! ## Inferring -/

/-- Weighing centers asks one set after another for its own. -/
theorem quiet_weightedCenters (total : α) (weighted : List (SetId × α)) (store : Store α) :
    Quiet store (weightedCenters total weighted store).2 := by
  induction weighted generalizing total store with
  | nil => exact .refl store
  | cons entry rest ih =>
    exact quiet_andThen (quiet_centerOfGravity entry.1 store) fun c later => ih _ later

theorem quiet_meanCenter (weighted : List (SetId × α)) (store : Store α) :
    Quiet store (meanCenter weighted store).2 := by
  unfold meanCenter
  dsimp only
  split
  · exact .refl store
  · exact quiet_andThen (quiet_weightedCenters _ weighted store) fun _ later => .refl later

/-- Every method is quiet: the curve methods read functions, the center method asks for centers. -/
theorem quiet_defuzzify (method : Method) (d : DomainId) (fired : List (SetId × α))
    (store : Store α) : Quiet store (defuzzify method d fired store).2 := by
  by_cases h : method = .cog
  · subst h
    exact quiet_meanCenter fired store
  · rw [defuzzify_curve h]
    exact .refl store

/-- Evaluating a rule keeps centers at most, however it ends. -/
theorem quiet_evaluate (rule : Rule) (inputs : Inputs α) (method : Method) (store : Store α) :
    Quiet store (rule.evaluate inputs method store).2 := by
  refine quiet_andThen (.refl store) fun seen later => ?_
  refine quiet_andThen (quiet_ofExcept _ later) fun target? last => ?_
  cases target? with
  | none => exact .refl last
  | some d =>
    refine quiet_andThen (quiet_ofExcept _ last) fun fired final => ?_
    cases fired with
    | nil => exact .refl final
    | cons entry rest =>
      exact quiet_andThen (quiet_defuzzify method d _ final) fun _ end_ => .refl end_

end Store

/-! ## Operations -/

namespace Operation

variable {α : Type}

/-- The operations that ask and make nothing. -/
def isQuiet : Operation α → Bool
  | array _ | centerOfGravity _ | len _ | cardinality _ | relativeCardinality _ | compare _ _ _
  | meanCenter _ | infer _ _ _ => true
  | _ => false

/-- Each operation counted as a question is quiet, on every store and whether or not it succeeds. -/
theorem quiet [Scalar α] {op : Operation α} (h : op.isQuiet = true) (store : Store α) :
    Store.Quiet store (op.run store) := by
  cases op with
  | array s => exact Store.quiet_array s store
  | centerOfGravity s => exact Store.quiet_centerOfGravity s store
  | len s => exact Store.quiet_len s store
  | cardinality s => exact Store.quiet_cardinality s store
  | relativeCardinality s => exact Store.quiet_relativeCardinality s store
  | compare rel s t => exact Store.quiet_compare rel s t store
  | meanCenter weighted => exact Store.quiet_meanCenter weighted store
  | infer rule inputs method => exact Store.quiet_evaluate rule inputs method store
  | _ => cases h

end Operation

end FuzzyInference

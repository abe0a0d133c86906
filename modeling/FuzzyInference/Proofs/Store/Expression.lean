import FuzzyInference.Proofs.Store.Acceptance

/-!
# Expressions over sets

Operators on sets are put together to expressions. Every operator looks at its own operands only: two of
them have to be bound alike, and what they make is bound like the left one. From this it follows that a
whole expression has a value just when all sets in it are bound alike, wherever they stand. What counts is
the domain that a set remembers; whether the domain still lives does not matter.

The one other condition is that of raising to a given power, which checks the function it makes as a whole.
Where functions are made by the constructors they always pass.

## Contents
- `SetExpression`, `SetExpression.derive`: the tree and its evaluation. `value`: the tree on memberships.
- `AddsSets`: sets were added and nothing else has changed. `deriveUnary_cases`, `deriveBinary_of_same`,
  `deriveBinary_of_not_same`: what one operator does.
- `Derived`: what an expression has derived. `derive_cases`, `derive_of_oneDomain`: what an expression does.
-/

namespace FuzzyInference

open Scalar

/-! ## The tree -/

/-- An operator that changes every membership by itself. -/
inductive PointwiseOperator (α : Type) where
  | complement
  | hedged (hedge : Hedge)
  | concentrated
  | dilated
  | intensified
  | raised (exponent : α)
  deriving Repr

namespace PointwiseOperator

variable {α : Type}

/-- The operator on sets. -/
def operator : PointwiseOperator α → UnaryOperator α
  | complement => .complement
  | hedged hedge => .hedged hedge
  | concentrated => .concentrated
  | dilated => .dilated
  | intensified => .intensified
  | raised exponent => .raised exponent

/-- Only a given power is checked, and then with the function that is raised to it. -/
def checks : PointwiseOperator α → Bool
  | raised _ => true
  | _ => false

variable [Scalar α]

/-- What is made of a function. -/
def build (op : PointwiseOperator α) (func : Membership α) : Membership α :=
  match op with
  | complement => .inv func
  | hedged hedge => func.hedged hedge
  | concentrated => .power 2.0 func
  | dilated => .power 0.5 func
  | intensified => .intensify func
  | raised exponent => .power exponent func

/-- What is made of a membership. -/
def apply (op : PointwiseOperator α) (m : α) : α :=
  match op with
  | complement => 1.0 - m
  | hedged hedge => pow m hedge.exponent
  | concentrated => pow m 2.0
  | dilated => pow m 0.5
  | intensified => Membership.intensified m
  | raised exponent => pow m exponent

/-- A given power is finite and not negative. -/
def Allowed (op : PointwiseOperator α) : Prop :=
  ∀ exponent, op = .raised exponent → isFinite exponent = true ∧ (0.0 : α) ≤ exponent

/-- A pointwise operator acts on the membership at each point. -/
theorem evaluate_build (op : PointwiseOperator α) (func : Membership α) (x : α) :
    (op.build func).evaluate x = op.apply (func.evaluate x) := by
  cases op <;> rfl

/-- What an operator makes of an accepted function is accepted, and of no other. -/
theorem validate_build {op : PointwiseOperator Float} (hop : op.Allowed) (func : Membership Float) :
    (op.build func).validate = .ok () ↔ func.validate = .ok () := by
  have hpower : ∀ {p : Float}, (isFinite p && (0.0 : Float) ≤ p) = true →
      ((Membership.power p func).validate = .ok () ↔ func.validate = .ok ()) := fun hp =>
    ⟨fun h => (check_bind_eq_ok_iff.mp h).2, Membership.validate_power hp⟩
  cases op with
  | complement | intensified => exact Iff.rfl
  | hedged hedge => cases hedge <;> exact hpower (by decide +kernel)
  | concentrated | dilated => exact hpower (by decide +kernel)
  | raised exponent =>
    obtain ⟨hfinite, hnonneg⟩ := hop exponent rfl
    exact hpower (by rw [hfinite, decide_eq_true hnonneg]; rfl)

end PointwiseOperator

/-- An expression over sets. -/
inductive SetExpression (α : Type) where
  | set (s : SetId)
  | unary (op : PointwiseOperator α) (operand : SetExpression α)
  | binary (op : Combinator α) (left right : SetExpression α)
  deriving Repr

namespace SetExpression

section Tree

variable {α : Type}

/-- The sets of an expression, from left to right. -/
def leaves : SetExpression α → List SetId
  | set s => [s]
  | unary _ e => e.leaves
  | binary _ e f => e.leaves ++ f.leaves

/-- The sets whose functions are checked, since they stand below a given power. -/
def checked : SetExpression α → List SetId
  | set _ => []
  | unary op e => if op.checks then e.leaves else e.checked
  | binary _ e f => e.checked ++ f.checked

/-- A set without any operator. -/
def isSet : SetExpression α → Bool
  | set _ => true
  | _ => false

theorem leaves_ne_nil (e : SetExpression α) : e.leaves ≠ [] := by
  induction e with
  | set s => exact List.cons_ne_nil s []
  | unary _ e ih => exact ih
  | binary _ e f ih _ => exact List.append_ne_nil_of_left_ne_nil ih f.leaves

/-- Only leaves are validated. -/
theorem mem_leaves_of_mem_checked {e : SetExpression α} {s : SetId} (h : s ∈ e.checked) :
    s ∈ e.leaves := by
  induction e with
  | set _ => cases h
  | unary op e ih =>
    rw [checked] at h
    split at h
    · exact h
    · exact ih h
  | binary _ e f ihe ihf => exact List.mem_append.mpr ((List.mem_append.mp h).imp ihe ihf)

variable [Scalar α]

/-- The set that an expression derives: operands first, the left one before the right one. -/
def derive : SetExpression α → Action α SetId
  | set s => pure s
  | unary op e => do Store.deriveUnary op.operator (← derive e)
  | binary op e f => do
    let s ← derive e
    Store.deriveBinary op s (← derive f)

/-- The function of an expression, from the functions of its sets. -/
def build (func : SetId → Membership α) : SetExpression α → Membership α
  | set s => func s
  | unary op e => op.build (build func e)
  | binary op e f => .combination op [build func e, build func f]

/-- The membership of an expression, from the memberships in its sets. -/
def value (membership : SetId → α) : SetExpression α → α
  | set s => membership s
  | unary op e => op.apply (value membership e)
  | binary op e f => op.pair (value membership e) (value membership f)

/-- Powers are finite and not negative, weights lie between 0 and 1. -/
def Sound : SetExpression α → Prop
  | set _ => True
  | unary op e => op.Allowed ∧ e.Sound
  | binary op e f => (∀ w, op.weight? = some w → inUnit w = true) ∧ e.Sound ∧ f.Sound

/-- All sets remember the same domain, or none does. -/
def OneDomain (store : Store α) (e : SetExpression α) : Prop :=
  ∀ s ∈ e.leaves, ∀ t ∈ e.leaves, (store.setAt s).domain? = (store.setAt t).domain?

instance (store : Store α) (e : SetExpression α) : Decidable (e.OneDomain store) :=
  inferInstanceAs (Decidable (∀ s ∈ e.leaves, ∀ t ∈ e.leaves, _))

/-- The functions that are checked are accepted. -/
def Passes (store : Store α) (e : SetExpression α) : Prop :=
  ∀ s ∈ e.checked, (store.setAt s).func.validate = .ok ()

end Tree

/-! ## The function of an expression -/

section Functions

variable {α : Type} [Scalar α]

/-- Folding two memberships is combining them. -/
theorem reduce_pair (op : Combinator α) (u v : α) : op.reduce [u, v] = op.pair u v := by
  cases op <;> rfl

/-- **The function of an expression is the expression of the functions.** -/
theorem evaluate_build (func : SetId → Membership α) (e : SetExpression α) (x : α) :
    (e.build func).evaluate x = e.value fun s => (func s).evaluate x := by
  induction e with
  | set s => rfl
  | unary op e ih => rw [build, op.evaluate_build, ih, value]
  | binary op e f ihe ihf =>
    rw [build, value, ← ihe, ← ihf, ← reduce_pair]
    rfl

/-- The function an expression builds depends on the functions of its leaves. -/
theorem build_congr {func other : SetId → Membership α} {e : SetExpression α}
    (h : ∀ s ∈ e.leaves, func s = other s) : e.build func = e.build other := by
  induction e with
  | set s => exact h s (List.mem_singleton_self s)
  | unary op e ih => exact congrArg op.build (ih h)
  | binary op e f ihe ihf =>
    obtain ⟨he, hf⟩ := List.forall_mem_append.mp h
    rw [build, build, ihe he, ihf hf]

/-- A combinator is accepted when its weight, if it has one, lies in the unit interval. -/
theorem checkWeight_eq_ok_iff {op : Combinator α} :
    op.checkWeight = .ok () ↔ ∀ w, op.weight? = some w → inUnit w = true := by
  unfold Combinator.checkWeight
  cases h : op.weight? with
  | none => simp
  | some w => simp [ensure_eq_ok_iff]

/-- Two operands are never too few. -/
theorem validate_two {op : Combinator α} (hop : ∀ w, op.weight? = some w → inUnit w = true) :
    op.validate 2 = .ok () :=
  check_bind_eq_ok_iff.mpr ⟨checkWeight_eq_ok_iff.mpr hop, ensure_eq_ok_iff.mpr rfl⟩

/-- The function of an expression is accepted if those of its sets are, and only then. -/
theorem validate_build {func : SetId → Membership Float} {e : SetExpression Float} (h : e.Sound) :
    (e.build func).validate = .ok () ↔ ∀ s ∈ e.leaves, (func s).validate = .ok () := by
  induction e with
  | set s => simp [build, leaves]
  | unary op e ih => rw [build, PointwiseOperator.validate_build h.1, ih h.2, leaves]
  | binary op e f ihe ihf =>
    obtain ⟨hop, he, hf⟩ := h
    have hnode : (build func (.binary op e f)).validate = .ok () ↔
        ∀ made ∈ [e.build func, f.build func], made.validate = .ok () := by
      rw [← Membership.validateAll_eq_ok_iff]
      exact check_bind_eq_ok_iff.trans (and_iff_right (validate_two hop))
    rw [hnode, List.forall_mem_cons, List.forall_mem_singleton, ihe he, ihf hf, leaves,
      List.forall_mem_append]

end Functions

end SetExpression

/-! ## One operator -/

namespace Store

section Growing

variable {α : Type}

/-- Sets were perhaps added. The domains and the sets that were there are as before, what they keep
    included. -/
structure AddsSets (before after : Store α) : Prop where
  domains : after.domains = before.domains
  hasSet : ∀ {s}, before.HasSet s → after.HasSet s
  setAt : ∀ {s}, before.HasSet s → after.setAt s = before.setAt s

theorem AddsSets.refl (store : Store α) : AddsSets store store := ⟨rfl, id, fun _ => rfl⟩

theorem AddsSets.trans {a b c : Store α} (h : AddsSets a b) (k : AddsSets b c) : AddsSets a c where
  domains := k.domains.trans h.domains
  hasSet hs := k.hasSet (h.hasSet hs)
  setAt hs := (k.setAt (h.hasSet hs)).trans (h.setAt hs)

theorem addsSets_addFresh (store : Store α) (func : Membership α) (domain? : Option DomainId) :
    AddsSets store (store.addFresh func domain?).2 where
  domains := rfl
  hasSet {s} hs := by
    simp only [HasSet, addFresh, Array.size_push] at hs ⊢
    omega
  setAt hs := setAt_addFresh_of_hasSet hs func domain?

end Growing

section Operators

variable {α : Type} [Scalar α] (store : Store α)

omit [Scalar α] in
/-- Reshaping fails with the change's fault or adds one set with the changed function. -/
theorem reshaped_apply (s : SetId)
    (change : Membership α → Except (FunctionFault α) (Membership α)) :
    reshaped s change store = match change (store.setAt s).func with
      | .ok func => (.ok ⟨store.sets.size⟩, (store.addFresh func (store.setAt s).domain?).2)
      | .error fault => (.error (.function fault), store) := by
  unfold reshaped
  rw [Action.bind_of_ok (Action.get_apply store), Action.bind_apply, Action.ofExcept_apply]
  cases change (store.setAt s).func <;> rfl

/-- The operators differ in what they make of a function, and in whether this is checked. -/
theorem deriveUnary_operator (op : PointwiseOperator α) (s : SetId) :
    deriveUnary op.operator s = reshaped s fun func =>
      if op.checks then (op.build func).checked else .ok (op.build func) := by
  cases op <;> rfl

/-- **One operand.** Unless the operator checks the function and it is not accepted, a set is added, bound
    like the operand. -/
theorem deriveUnary_cases (store : Store Float) {op : PointwiseOperator Float} (hop : op.Allowed)
    (s : SetId) :
    (op.checks = true → (store.setAt s).func.validate = .ok ()) ∧
      deriveUnary op.operator s store = (.ok ⟨store.sets.size⟩,
        (store.addFresh (op.build (store.setAt s).func) (store.setAt s).domain?).2) ∨
    op.checks = true ∧ (store.setAt s).func.validate ≠ .ok () ∧
      ∃ e, deriveUnary op.operator s store = (.error e, store) := by
  have hvalid := PointwiseOperator.validate_build hop (store.setAt s).func
  rw [deriveUnary_operator, reshaped_apply]
  cases op.checks with
  | false => exact Or.inl ⟨fun h => (by cases h), rfl⟩
  | true =>
    rw [if_pos rfl]
    cases hmade : (op.build (store.setAt s).func).checked with
    | ok made =>
      obtain ⟨hok, rfl⟩ := Membership.checked_eq_ok_iff.mp hmade
      exact Or.inl ⟨fun _ => hvalid.mp hok, rfl⟩
    | error fault =>
      refine Or.inr ⟨rfl, fun h => ?_, _, rfl⟩
      cases hmade.symm.trans (Membership.checked_eq_ok_iff.mpr ⟨hvalid.mpr h, rfl⟩)

/-- **Two operands.** If they remember the same domain, or both none, a set is added that is bound like
    them. -/
theorem deriveBinary_of_same {op : Combinator α}
    (hop : ∀ w, op.weight? = some w → inUnit w = true) {s t : SetId}
    (h : (store.setAt s).domain? = (store.setAt t).domain?) :
    deriveBinary op s t store = (.ok ⟨store.sets.size⟩,
      (store.addFresh (.combination op [(store.setAt s).func, (store.setAt t).func])
        (store.setAt s).domain?).2) := by
  have hsame : store.checkSameDomain s t = .ok () := ensure_eq_ok_iff.mpr (decide_eq_true h)
  have hmade : Membership.combined op [(store.setAt s).func, (store.setAt t).func] = .ok _ :=
    Membership.combined_eq_ok_iff.mpr ⟨SetExpression.validate_two hop, rfl⟩
  unfold deriveBinary
  rw [Action.bind_of_ok (Action.get_apply store), hsame, hmade]
  rfl

/-- If they do not, nothing happens. -/
theorem deriveBinary_of_not_same (op : Combinator α) {s t : SetId}
    (h : (store.setAt s).domain? ≠ (store.setAt t).domain?) :
    deriveBinary op s t store =
      (.error (.differentDomains (store.label s) (store.label t)), store) := by
  have hsame : store.checkSameDomain s t =
      .error (.differentDomains (store.label s) (store.label t)) := by
    unfold checkSameDomain ensure
    rw [if_neg (by simpa using h)]
  unfold deriveBinary
  rw [Action.bind_of_ok (Action.get_apply store), hsame]
  rfl

end Operators

end Store

/-! ## A whole expression -/

namespace SetExpression

open Store

section Growing

variable {α : Type} [Scalar α] {before after : Store α} {e : SetExpression α}

omit [Scalar α] in
/-- Sets added later do not show in whether the leaves share a domain. -/
theorem oneDomain_congr (h : AddsSets before after) (hleaves : ∀ s ∈ e.leaves, before.HasSet s) :
    e.OneDomain after ↔ e.OneDomain before := by
  refine forall₂_congr fun s hs => forall₂_congr fun t ht => ?_
  rw [h.setAt (hleaves s hs), h.setAt (hleaves t ht)]

theorem passes_congr (h : AddsSets before after) (hleaves : ∀ s ∈ e.leaves, before.HasSet s) :
    e.Passes after ↔ e.Passes before := by
  refine forall₂_congr fun s hs => ?_
  rw [h.setAt (hleaves s (mem_leaves_of_mem_checked hs))]

/-- Sets added later do not show in the function that an expression builds. -/
theorem build_of_addsSets (h : AddsSets before after) (hleaves : ∀ s ∈ e.leaves, before.HasSet s) :
    (e.build fun s => (after.setAt s).func) = e.build fun s => (before.setAt s).func :=
  build_congr fun s hs => by rw [h.setAt (hleaves s hs)]

/-- What an expression has derived. -/
structure Derived (before : Store α) (e : SetExpression α) (t : SetId) (after : Store α) : Prop where
  added : AddsSets before after
  hasSet : after.HasSet t
  func : (after.setAt t).func = e.build fun s => (before.setAt s).func
  domain : ∀ s ∈ e.leaves, (after.setAt t).domain? = (before.setAt s).domain?
  fresh : e.isSet = false → ¬ before.HasSet t ∧ (after.setAt t).name? = none

/-- An operator adds the set that it derives. -/
theorem derived_addFresh {between : Store α} (h : AddsSets before between) {func : Membership α}
    (hfunc : func = e.build fun s => (before.setAt s).func) {domain? : Option DomainId}
    (hdomain : ∀ s ∈ e.leaves, domain? = (before.setAt s).domain?) :
    Derived before e ⟨between.sets.size⟩ (between.addFresh func domain?).2 := by
  have hnew := setAt_addFresh_self between func domain?
  refine ⟨h.trans (addsSets_addFresh between func domain?), hasSet_addFresh_self between func domain?, ?_,
    fun s hs => ?_, fun _ => ⟨fun hs => ?_, ?_⟩⟩
  · rw [hnew]
    exact hfunc
  · rw [hnew]
    exact hdomain s hs
  · exact Nat.lt_irrefl _ (h.hasSet hs)
  · rw [hnew]
    rfl

end Growing

section Outcomes

variable {store : Store Float} {e f : SetExpression Float}

/-- Two operands that are each bound alike are bound alike if what they derived is. -/
theorem oneDomain_binary (op : Combinator Float) {d c : Option DomainId}
    (he : ∀ s ∈ e.leaves, d = (store.setAt s).domain?)
    (hf : ∀ s ∈ f.leaves, c = (store.setAt s).domain?) :
    (binary op e f).OneDomain store ↔ d = c := by
  constructor
  · intro h
    obtain ⟨s, hs⟩ := List.exists_mem_of_ne_nil _ e.leaves_ne_nil
    obtain ⟨t, ht⟩ := List.exists_mem_of_ne_nil _ f.leaves_ne_nil
    rw [he s hs, hf t ht]
    exact h s (List.mem_append_left _ hs) t (List.mem_append_right _ ht)
  · rintro rfl
    have hall : ∀ s ∈ (binary op e f).leaves, d = (store.setAt s).domain? :=
      List.forall_mem_append.mpr ⟨he, hf⟩
    exact fun s hs t ht => (hall s hs).symm.trans (hall t ht)

theorem OneDomain.left {op : Combinator Float} (h : (binary op e f).OneDomain store) : e.OneDomain store :=
  fun s hs t ht => h s (List.mem_append_left _ hs) t (List.mem_append_left _ ht)

theorem OneDomain.right {op : Combinator Float} (h : (binary op e f).OneDomain store) : f.OneDomain store :=
  fun s hs t ht => h s (List.mem_append_right _ hs) t (List.mem_append_right _ ht)

theorem passes_binary {op : Combinator Float} :
    (binary op e f).Passes store ↔ e.Passes store ∧ f.Passes store := List.forall_mem_append

/-- A unary operator that checks validates what it is given. -/
theorem passes_unary {op : PointwiseOperator Float} :
    (unary op e).Passes store ↔ e.Passes store ∧
      (op.checks = true → ∀ s ∈ e.leaves, (store.setAt s).func.validate = .ok ()) := by
  have hchecked : (unary op e).checked = if op.checks then e.leaves else e.checked := rfl
  unfold Passes
  rw [hchecked]
  cases op.checks with
  | false => simp
  | true =>
    rw [if_pos rfl]
    exact ⟨fun h => ⟨fun s hs => h s (mem_leaves_of_mem_checked hs), fun _ => h⟩, fun h => h.2 rfl⟩

/-- **One operand at the root.** The operator derives a set, or its check of the operand fails. -/
theorem Derived.unary_cases {op : PointwiseOperator Float} (hop : op.Allowed) (he : e.Sound) {s : SetId}
    {between : Store Float} (hs : Derived store e s between) (hpasses : e.Passes store) :
    ((unary op e).Passes store ∧ ∃ t later, deriveUnary op.operator s between = (.ok t, later) ∧
      Derived store (unary op e) t later) ∨
    ¬ (unary op e).Passes store ∧ ∃ err, deriveUnary op.operator s between = (.error err, between) := by
  have hvalid : (between.setAt s).func.validate = .ok () ↔
      ∀ s ∈ e.leaves, (store.setAt s).func.validate = .ok () := by
    rw [hs.func]
    exact validate_build he
  rcases deriveUnary_cases between hop s with ⟨hcheck, hstep⟩ | ⟨hchecks, hinvalid, err, hstep⟩
  · refine Or.inl ⟨passes_unary.mpr ⟨hpasses, fun h => hvalid.mp (hcheck h)⟩, _, _, hstep, ?_⟩
    exact derived_addFresh hs.added (congrArg op.build hs.func) hs.domain
  · exact Or.inr ⟨fun h => hinvalid (hvalid.mpr ((passes_unary.mp h).2 hchecks)), err, hstep⟩

/-- **Two operands at the root.** The operator derives a set just when the sets of both are bound alike. -/
theorem Derived.binary_cases {op : Combinator Float} (hop : ∀ w, op.weight? = some w → inUnit w = true)
    {s t : SetId} {first second : Store Float} (hs : Derived store e s first) (ht : Derived first f t second)
    (hleaves : ∀ r ∈ f.leaves, store.HasSet r) :
    ((binary op e f).OneDomain store ∧ ∃ r later, deriveBinary op s t second = (.ok r, later) ∧
      Derived store (binary op e f) r later) ∨
    ¬ (binary op e f).OneDomain store ∧
      ∃ err, deriveBinary op s t second = (.error err, second) ∧ err.kind = .domainMismatch := by
  -- the right operand has left alone what the left one derived
  have hold : second.setAt s = first.setAt s := ht.added.setAt hs.hasSet
  have hdomainE : ∀ r ∈ e.leaves, (second.setAt s).domain? = (store.setAt r).domain? := by
    rw [hold]
    exact hs.domain
  have hdomainF : ∀ r ∈ f.leaves, (second.setAt t).domain? = (store.setAt r).domain? := fun r hr =>
    (ht.domain r hr).trans (by rw [hs.added.setAt (hleaves r hr)])
  have hsame := oneDomain_binary op hdomainE hdomainF
  by_cases h : (second.setAt s).domain? = (second.setAt t).domain?
  · refine Or.inl ⟨hsame.mpr h, _, _, deriveBinary_of_same second hop h, ?_⟩
    refine derived_addFresh (hs.added.trans ht.added) ?_ (List.forall_mem_append.mpr ⟨hdomainE, h ▸ hdomainF⟩)
    rw [hold, hs.func, ht.func, build_of_addsSets hs.added hleaves]
    rfl
  · exact Or.inr ⟨fun hone => h (hsame.mp hone), _, deriveBinary_of_not_same second op h, rfl⟩

/-- An expression either derives a set, and then its sets are bound alike and what is checked is accepted,
    or it fails for one of these reasons. -/
theorem derive_cases (hleaves : ∀ s ∈ e.leaves, store.HasSet s) (hsound : e.Sound) :
    (∃ t later, e.derive store = (.ok t, later) ∧ Derived store e t later ∧ e.OneDomain store ∧
      e.Passes store) ∨
    ∃ err later, e.derive store = (.error err, later) ∧ AddsSets store later ∧
      (¬ e.OneDomain store ∧ err.kind = .domainMismatch ∨ ¬ e.Passes store) := by
  induction e generalizing store with
  | set s =>
    refine Or.inl ⟨s, store, rfl, ⟨.refl store, hleaves s (List.mem_singleton_self s), rfl, ?_,
      fun h => (by cases h)⟩, ?_, fun s hs => (by cases hs)⟩
    · simp [leaves]
    · simp [OneDomain, leaves]
  | unary op e ih =>
    obtain ⟨hop, he⟩ := hsound
    rcases ih hleaves he with ⟨s, between, hrun, hs, hone, hpasses⟩ | ⟨err, later, hrun, hadded, hwhy⟩
    · rcases hs.unary_cases hop he hpasses with ⟨hpasses, t, later, hstep, ht⟩ | ⟨hfails, err, hstep⟩
      · exact Or.inl ⟨t, later, (Action.bind_of_ok hrun).trans hstep, ht, hone, hpasses⟩
      · exact Or.inr ⟨err, between, (Action.bind_of_ok hrun).trans hstep, hs.added, Or.inr hfails⟩
    · exact Or.inr ⟨err, later, Action.bind_of_error hrun, hadded,
        hwhy.imp_right fun h hunary => h (passes_unary.mp hunary).1⟩
  | binary op e f ihe ihf =>
    obtain ⟨hop, he, hf⟩ := hsound
    obtain ⟨heLeaves, hfLeaves⟩ := List.forall_mem_append.mp hleaves
    rcases ihe heLeaves he with ⟨s, first, hrunE, hs, honeE, hpassesE⟩ | ⟨err, later, hrunE, hadded, hwhy⟩
    swap
    · exact Or.inr ⟨err, later, Action.bind_of_error hrunE, hadded,
        hwhy.imp (And.imp_left fun h hboth => h hboth.left) fun h hboth => h (passes_binary.mp hboth).1⟩
    -- the right operand is derived where the left one has added its sets
    rcases ihf (fun t ht => hs.added.hasSet (hfLeaves t ht)) hf with
      ⟨t, second, hrunF, ht, honeF, hpassesF⟩ | ⟨err, later, hrunF, hadded, hwhy⟩
    swap
    · rw [oneDomain_congr hs.added hfLeaves, passes_congr hs.added hfLeaves] at hwhy
      refine Or.inr ⟨err, later, ?_, hs.added.trans hadded,
        hwhy.imp (And.imp_left fun h hboth => h hboth.right) fun h hboth => h (passes_binary.mp hboth).2⟩
      exact (Action.bind_of_ok hrunE).trans (Action.bind_of_error hrunF)
    rw [passes_congr hs.added hfLeaves] at hpassesF
    have hrun : (binary op e f).derive store = deriveBinary op s t second :=
      (Action.bind_of_ok hrunE).trans (Action.bind_of_ok hrunF)
    rcases hs.binary_cases hop ht hfLeaves with ⟨hone, r, later, hstep, hr⟩ | ⟨hapart, err, hstep, hkind⟩
    · exact Or.inl ⟨r, later, hrun.trans hstep, hr, hone, passes_binary.mpr ⟨hpassesE, hpassesF⟩⟩
    · exact Or.inr ⟨err, second, hrun.trans hstep, hs.added.trans ht.added, Or.inl ⟨hapart, hkind⟩⟩

end Outcomes

/-- **Expressions over sets.** In any store, whatever its sets are bound to and whether or not these domains
    live, an expression has a value just when all its sets remember the same domain, or all none, and the
    functions of the sets below a given power are accepted, as those made by the constructors are. If only
    the domains are not the same, it fails for that reason. The derived set remembers what all the sets do;
    its memberships are the expression of theirs at every number; and unless the expression is a single
    set, it is new and has no name. No domain changes, and no set that was there, whatever the outcome. -/
theorem derive_of_oneDomain {store : Store Float} {e : SetExpression Float}
    (hleaves : ∀ s ∈ e.leaves, store.HasSet s) (hsound : e.Sound) :
    (Built store → e.Passes store) ∧
    ∃ outcome later, e.derive store = (outcome, later) ∧
      ((∃ t, outcome = .ok t) ↔ e.OneDomain store ∧ e.Passes store) ∧
      (e.Passes store → ¬ e.OneDomain store →
        ∃ err, outcome = .error err ∧ err.kind = .domainMismatch) ∧
      (∀ t, outcome = .ok t →
        (∀ s ∈ e.leaves, (later.setAt t).domain? = (store.setAt s).domain?) ∧
        (∀ x, later.call t x = e.value fun s => store.call s x) ∧
        (e.isSet = false → ¬ store.HasSet t ∧ (later.setAt t).name? = none)) ∧
      later.domains = store.domains ∧ ∀ s, store.HasSet s → later.setAt s = store.setAt s := by
  refine ⟨fun h s _ => h.accepted s, ?_⟩
  rcases derive_cases hleaves hsound with
    ⟨t, later, hrun, hderived, hone, hpasses⟩ | ⟨err, later, hrun, hadded, hwhy⟩
  · refine ⟨.ok t, later, hrun, iff_of_true ⟨t, rfl⟩ ⟨hone, hpasses⟩, fun _ h => absurd hone h,
      fun r hr => ?_, hderived.added.domains, fun s => hderived.added.setAt⟩
    cases hr
    refine ⟨hderived.domain, fun x => ?_, hderived.fresh⟩
    unfold Store.call
    rw [hderived.func, evaluate_build]
  · refine ⟨.error err, later, hrun, iff_of_false (fun ⟨t, ht⟩ => by cases ht) fun h => ?_,
      fun hpasses _ => ?_, fun t ht => (by cases ht), hadded.domains, fun s => hadded.setAt⟩
    · exact hwhy.elim (fun hapart => hapart.1 h.1) fun hfails => hfails h.2
    · exact ⟨err, rfl, (hwhy.resolve_right fun hfails => hfails hpasses).2⟩

/-- Two sets of a domain that is gone then, and one of another domain. -/
def bindings : List (Operation Float) := [
  .newDomain "x" 0 10 none, .newDomain "y" 0 5 none,
  .newSet (.shape (.rising 0 10)), .newSet (.shape (.singleton 2.5 0.25 0.5)),
  .newSet (.shape (.constant 0.5)),
  .bind ⟨0⟩ ⟨0⟩, .bind ⟨1⟩ ⟨0⟩, .bind ⟨2⟩ ⟨1⟩, .drop ⟨0⟩]

/-- The store after `bindings`. -/
def boundApart : Store Float := Store.empty.runAll bindings

/-- An expression over the sets of the domain that is gone. -/
def mixture : SetExpression Float :=
  .binary .simpleDisjointSum (.unary (.raised 3) (.set ⟨0⟩))
    (.unary (.hedged .very) (.binary (.lambda 0.25) (.set ⟨1⟩) (.set ⟨0⟩)))

/-- The same with a set of the other domain. -/
def oddMixture : SetExpression Float := .unary .complement (.binary .max mixture (.set ⟨2⟩))

/-- Sets of a domain that is gone still mix; with a set of another domain they do not. -/
theorem derive_of_oneDomain_mixture :
    Built boundApart ∧ boundApart.isLive ⟨0⟩ = false ∧
      (∀ s ∈ oddMixture.leaves, boundApart.HasSet s) ∧ oddMixture.Sound ∧
      (∃ t later, mixture.derive boundApart = (.ok t, later) ∧ (later.setAt t).domain? = some ⟨0⟩) ∧
      ∃ err later, oddMixture.derive boundApart = (.error err, later) ∧ err.kind = .domainMismatch := by
  -- three of the commands make sets from curves, which the constructors accept
  have hbuilt : Built boundApart := by
    refine built_runAll (fun op hop other => ?_) (by decide +kernel)
    have hcrafted : ∀ {curve : Shape Float}, curve.validate.toOption = some () →
        Crafted other.Known (.shape curve) := fun h =>
      .shape (Membership.checked_eq_ok_iff.mpr ⟨outcome_of_toOption h, rfl⟩)
    simp only [bindings, List.mem_cons, List.not_mem_nil, or_false] at hop
    rcases hop with rfl | rfl | rfl | rfl | rfl | rfl | rfl | rfl | rfl
    case inr.inr.inl | inr.inr.inr.inl | inr.inr.inr.inr.inl => exact hcrafted (by decide +kernel)
    all_goals trivial
  have hleaves : ∀ s ∈ oddMixture.leaves, boundApart.HasSet s := by decide +kernel
  have hleaves' : ∀ s ∈ mixture.leaves, boundApart.HasSet s := fun s hs =>
    hleaves s (List.mem_append_left _ hs)
  have hsound' : mixture.Sound := by
    refine ⟨fun w h => (by cases h), ⟨fun p h => ?_, trivial⟩, fun p h => (by cases h), fun w h => ?_,
      trivial, trivial⟩
    · cases h
      exact ⟨by decide +kernel, by decide +kernel⟩
    · cases h
      decide +kernel
  have hsound : oddMixture.Sound :=
    ⟨fun p h => (by cases h), fun w h => (by cases h), hsound', trivial⟩
  have hone : mixture.OneDomain boundApart := by decide +kernel
  have hodd : ¬ oddMixture.OneDomain boundApart := by decide +kernel
  refine ⟨hbuilt, by decide +kernel, hleaves, hsound, ?_, ?_⟩
  · obtain ⟨hpasses, outcome, later, hrun, hiff, -, hok, -⟩ := derive_of_oneDomain hleaves' hsound'
    obtain ⟨t, rfl⟩ := hiff.mpr ⟨hone, hpasses hbuilt⟩
    refine ⟨t, later, hrun, ((hok t rfl).1 ⟨0⟩ (by decide)).trans ?_⟩
    decide +kernel
  · obtain ⟨hpasses, outcome, later, hrun, -, herror, -⟩ := derive_of_oneDomain hleaves hsound
    obtain ⟨err, rfl, hkind⟩ := herror (hpasses hbuilt) hodd
    exact ⟨err, later, hrun, hkind⟩

end SetExpression

end FuzzyInference

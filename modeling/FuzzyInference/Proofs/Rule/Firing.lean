import FuzzyInference.Proofs.Rule.Evaluation

/-!
# What fires

`firings` carries a memo along, so that each set is evaluated once. The memo never shows: whatever is
in it is what evaluating the set again would give. So the firings of a rule are those of its conditions
one by one, and they fail just when a set of some antecedent cannot be evaluated: for the first such set,
in the order of the conditions and, within a condition, of the places of its sets.

## Contents
- `Antecedent.visited_spec`: the sets of an antecedent, in the order of their places.
- `inputMembership_eq_ok_iff`, `inputMembership_mismatch_iff`: one set.
- `Recorded`: what a memo may hold. `weakest_eq`, `firings_eq`: the memo does not show.
- `firings_eq_error_iff`, `firings_mismatch_iff`: when firing fails.
- `fired_of_firings`: what fired is a consequent, with a positive strength.
-/

namespace FuzzyInference

open Scalar

/-! ## The order of evaluation -/

namespace Antecedent

variable {α : Type} {store : Store α}

/-- Inserting by place loses no set and repeats none. -/
theorem perm_insertByPlace (s : SetId) (sets : List SetId) :
    (insertByPlace store s sets).Perm (s :: sets) := by
  induction sets with
  | nil => exact .refl _
  | cons t rest ih =>
    unfold insertByPlace
    split
    · exact .refl _
    · exact (ih.cons t).trans (.swap s t rest)

/-- Insertion keeps a list sorted by place. -/
theorem pairwise_insertByPlace (s : SetId) {sets : List SetId}
    (h : sets.Pairwise fun t u => store.place t ≤ store.place u) :
    (insertByPlace store s sets).Pairwise fun t u => store.place t ≤ store.place u := by
  induction sets with
  | nil => exact List.pairwise_singleton _ s
  | cons t rest ih =>
    obtain ⟨hfirst, hrest⟩ := List.pairwise_cons.mp h
    unfold insertByPlace
    split
    · rename_i hst
      refine List.pairwise_cons.mpr ⟨fun u hu => ?_, h⟩
      rcases List.mem_cons.mp hu with rfl | hu
      · exact hst
      · exact Nat.le_trans hst (hfirst u hu)
    · rename_i hst
      refine List.pairwise_cons.mpr ⟨fun u hu => ?_, ih hrest⟩
      rcases List.mem_cons.mp ((perm_insertByPlace s rest).mem_iff.mp hu) with rfl | hu
      · exact Nat.le_of_not_le hst
      · exact hfirst u hu

/-- Sorting by place visits every set of an antecedent once. -/
theorem perm_sortByPlace (store : Store α) (sets : List SetId) :
    (sortByPlace store sets).Perm sets := by
  induction sets with
  | nil => exact .refl _
  | cons s sets ih => exact (perm_insertByPlace s _).trans (ih.cons s)

theorem pairwise_sortByPlace (store : Store α) (sets : List SetId) :
    (sortByPlace store sets).Pairwise fun s t => store.place s ≤ store.place t := by
  induction sets with
  | nil => exact .nil
  | cons s sets ih => exact pairwise_insertByPlace s ih

/-- **All sets of an antecedent are evaluated,** each once, in the order of their places. -/
theorem visited_spec (store : Store α) (a : Antecedent) : (a.visited store).Perm a.sets ∧
    (a.visited store).Pairwise fun s t => store.place s ≤ store.place t :=
  ⟨perm_sortByPlace store a.sets, pairwise_sortByPlace store a.sets⟩

/-- Which sets are visited does not depend on the places. -/
theorem mem_visited {s : SetId} {a : Antecedent} : s ∈ a.visited store ↔ s ∈ a.sets :=
  (visited_spec store a).1.mem_iff

end Antecedent

variable {α : Type} [Scalar α] {store : Store α} {inputs : Inputs α}

/-! ## One set -/

/-- The set reaches a domain for which the inputs have a value in range. -/
def Given (store : Store α) (inputs : Inputs α) (s : SetId) : Prop :=
  ∃ d x, store.domainOf? s = some d ∧ inputs.get? d = some x ∧
    (store.domainAt d).grid.contains x = true

/-- A set without a living domain is reported by its label. -/
theorem inputMembership_of_unreached {s : SetId} (h : store.domainOf? s = none) :
    inputMembership store inputs s = .error (.unboundAntecedent (store.label s)) := by
  unfold inputMembership
  rw [h]
  rfl

/-- A domain without an input is reported by its name. -/
theorem inputMembership_of_missing {s : SetId} {d : DomainId} (h : store.domainOf? s = some d)
    (hx : inputs.get? d = none) :
    inputMembership store inputs s = .error (.noInput (store.domainAt d).name) := by
  unfold inputMembership
  rw [h]
  dsimp only
  rw [hx]
  rfl

/-- An input is checked against the domain's range before the function sees it. -/
theorem inputMembership_of_input {s : SetId} {d : DomainId} {x : α}
    (h : store.domainOf? s = some d) (hx : inputs.get? d = some x) :
    inputMembership store inputs s =
      ((store.domainAt d).checkRange x).map fun _ => store.call s x := by
  unfold inputMembership
  rw [h]
  dsimp only
  rw [hx]
  dsimp only
  cases (store.domainAt d).checkRange x <;> rfl

/-- A set answers exactly when its domain lives and has an input in range. -/
theorem inputMembership_eq_ok_iff {s : SetId} :
    (∃ m, inputMembership store inputs s = .ok m) ↔ Given store inputs s := by
  constructor
  · rintro ⟨m, hm⟩
    cases hd : store.domainOf? s with
    | none =>
      rw [inputMembership_of_unreached hd] at hm
      cases hm
    | some d =>
      cases hx : inputs.get? d with
      | none =>
        rw [inputMembership_of_missing hd hx] at hm
        cases hm
      | some x =>
        refine ⟨d, x, hd, hx, ?_⟩
        rw [inputMembership_of_input hd hx] at hm
        -- only the range check is left to fail
        by_cases hin : (store.domainAt d).grid.contains x = true
        · exact hin
        · simp [Domain.checkRange, ensure, hin, Except.map] at hm
  · rintro ⟨d, x, hd, hx, hin⟩
    refine ⟨store.call s x, ?_⟩
    rw [inputMembership_of_input hd hx]
    simp [Domain.checkRange, ensure, hin, Except.map]

/-- Of the ways in which evaluating a set fails, the one without a domain is a mismatch. -/
theorem inputMembership_mismatch_iff {s : SetId} :
    (∃ e, inputMembership store inputs s = .error e ∧ e.kind = .domainMismatch) ↔
      store.domainOf? s = none := by
  constructor
  · rintro ⟨e, he, hkind⟩
    cases hd : store.domainOf? s with
    | none => rfl
    | some d =>
      cases hx : inputs.get? d with
      | none =>
        rw [inputMembership_of_missing hd hx] at he
        cases he
        cases hkind
      | some x =>
        rw [inputMembership_of_input hd hx] at he
        -- an input outside the range is another kind of error
        by_cases hin : (store.domainAt d).grid.contains x = true
        · simp [Domain.checkRange, ensure, hin, Except.map] at he
        · simp only [Domain.checkRange, ensure, hin, Except.map] at he
          cases he
          cases hkind
  · intro hd
    exact ⟨_, inputMembership_of_unreached hd, rfl⟩

/-! ## The memo does not show -/

/-- The memo holds what evaluating its sets gives. -/
def Recorded (store : Store α) (inputs : Inputs α) (memo : Memo α) : Prop :=
  ∀ s m, memo.get? s = some m → inputMembership store inputs s = .ok m

theorem recorded_empty : Recorded store inputs .empty := by
  intro s m h
  rw [OrderedMap.get?_empty] at h
  cases h

/-- A memo stays truthful when a membership is added that was just computed. -/
theorem Recorded.insert {memo : Memo α} (h : Recorded store inputs memo) {s : SetId} {m : α}
    (hm : inputMembership store inputs s = .ok m) : Recorded store inputs (memo.insert s m) := by
  intro t u ht
  rw [OrderedMap.get?_insert] at ht
  split at ht
  · rename_i hst
    cases ht
    exact hst ▸ hm
  · exact h t u ht

/-- Recalling a set is evaluating it. -/
theorem remembered_eq {memo : Memo α} (h : Recorded store inputs memo) (s : SetId) :
    ∃ later, Recorded store inputs later ∧
      remembered store inputs memo s = (inputMembership store inputs s).map fun m => (m, later) := by
  unfold remembered
  cases hk : memo.get? s with
  | some m =>
    refine ⟨memo, h, ?_⟩
    rw [h s m hk]
    rfl
  | none =>
    cases hm : inputMembership store inputs s with
    | error e => exact ⟨memo, h, rfl⟩
    | ok m => exact ⟨memo.insert s m, h.insert hm, rfl⟩

/-- The smallest of some numbers and one before them. -/
def least? (least : Option α) (ms : List α) : Option α :=
  ms.foldl (fun least m => some (least.elim m fun u => lesser u m)) least

/-- Evaluating an antecedent with a memo gives what evaluating it plainly does, and a truthful memo.
-/
theorem weakest_eq {memo : Memo α} (h : Recorded store inputs memo) (least : Option α)
    (sets : List SetId) :
    ∃ later, Recorded store inputs later ∧
      weakest store inputs least memo sets =
        (sets.mapM (inputMembership store inputs)).map fun ms => (least? least ms, later) := by
  -- both what was found so far and the memo change along the sets
  induction sets generalizing least memo with
  | nil => exact ⟨memo, h, rfl⟩
  | cons s sets ih =>
    obtain ⟨later, hlater, hremembered⟩ := remembered_eq h s
    rw [weakest, hremembered, List.mapM_cons]
    cases hm : inputMembership store inputs s with
    | error e => exact ⟨memo, h, rfl⟩
    | ok m =>
      obtain ⟨last, hlast, hweakest⟩ := ih hlater (some (least.elim m fun u => lesser u m))
      refine ⟨last, hlast, hweakest.trans ?_⟩
      cases sets.mapM (inputMembership store inputs) <;> rfl

/-- The firings of conditions, each evaluated on its own. -/
def plainFirings (store : Store α) (inputs : Inputs α) :
    List (Antecedent × SetId) → Except (FuzzyError α) (List (SetId × α))
  | [] => return []
  | (antecedent, consequent) :: conditions => do
    let ms ← (antecedent.visited store).mapM (inputMembership store inputs)
    let later ← plainFirings store inputs conditions
    let strength := (least? none ms).getD 0.0
    return if (0.0 : α) < strength then (consequent, strength) :: later else later

/-- The memo does not show in what fires. The induction is on the conditions, from any memo. -/
theorem firingsFrom_eq {memo : Memo α} (h : Recorded store inputs memo)
    (conditions : List (Antecedent × SetId)) :
    firingsFrom store inputs memo conditions = plainFirings store inputs conditions := by
  induction conditions generalizing memo with
  | nil => rfl
  | cons condition conditions ih =>
    obtain ⟨antecedent, consequent⟩ := condition
    obtain ⟨later, hlater, hweakest⟩ := weakest_eq h none (antecedent.visited store)
    rw [firingsFrom, plainFirings, hweakest]
    cases (antecedent.visited store).mapM (inputMembership store inputs) with
    | error e => rfl
    | ok ms =>
      show (firingsFrom store inputs later conditions >>= _) = _
      rw [ih hlater]
      rfl

/-- Firing is the plain evaluation of the conditions one after the other. -/
theorem firings_eq (store : Store α) (inputs : Inputs α) (rule : Rule) :
    firings store inputs rule = plainFirings store inputs rule.conditions.entries :=
  firingsFrom_eq recorded_empty rule.conditions.entries

/-! ## When firing fails -/

/-- A traversal fails at the first element that fails. -/
theorem mapM_eq_error_iff {β γ ε : Type} {f : β → Except ε γ} {xs : List β} {e : ε} :
    xs.mapM f = .error e ↔ ∃ before x after, xs = before ++ x :: after ∧
      (∀ y ∈ before, ∃ c, f y = .ok c) ∧ f x = .error e := by
  induction xs with
  | nil =>
    constructor
    · intro h
      cases h
    · rintro ⟨before, x, after, h, -⟩
      simp at h
  | cons x xs ih =>
    rw [List.mapM_cons, bind_eq_error_iff]
    constructor
    · -- either the head fails, or the head is fine and the first failure lies in the tail
      rintro (h | ⟨c, hc, h⟩)
      · exact ⟨[], x, xs, rfl, by simp, h⟩
      · rcases bind_eq_error_iff.mp h with h | ⟨cs, -, h⟩
        · obtain ⟨before, y, after, rfl, hbefore, hy⟩ := ih.mp h
          refine ⟨x :: before, y, after, rfl, ?_, hy⟩
          intro z hz
          rcases List.mem_cons.mp hz with rfl | hz
          · exact ⟨c, hc⟩
          · exact hbefore z hz
        · cases h
    · rintro ⟨before, y, after, h, hbefore, hy⟩
      cases before with
      | nil =>
        obtain ⟨rfl, rfl⟩ := List.cons.inj h
        exact Or.inl hy
      | cons z before =>
        obtain ⟨rfl, rfl⟩ := List.cons.inj h
        obtain ⟨c, hc⟩ := hbefore x (List.mem_cons_self ..)
        have htail := ih.mpr ⟨before, y, after, rfl,
          fun z hz => hbefore z (List.mem_cons_of_mem _ hz), hy⟩
        exact Or.inr ⟨c, hc, bind_eq_error_iff.mpr (Or.inl htail)⟩

/-- Firing fails as its visits, all in one row, fail. -/
theorem plainFirings_eq_error_iff {conditions : List (Antecedent × SetId)} {e : FuzzyError α} :
    plainFirings store inputs conditions = .error e ↔
      (conditions.flatMap fun condition => condition.1.visited store).mapM (inputMembership store inputs) =
        .error e := by
  induction conditions with
  | nil =>
    constructor
    · intro h
      cases h
    · intro h
      cases h
  | cons condition conditions ih =>
    obtain ⟨antecedent, consequent⟩ := condition
    -- either the first condition fails, on both sides alike, or a later one does
    rw [plainFirings, List.flatMap_cons, List.mapM_append, bind_eq_error_iff, bind_eq_error_iff]
    refine or_congr_right (exists_congr fun ms => and_congr_right fun _ => ?_)
    rw [bind_eq_error_iff, bind_eq_error_iff, ih]
    refine or_congr_right ⟨?_, ?_⟩
    · rintro ⟨_, _, h⟩
      cases h
    · rintro ⟨_, _, h⟩
      cases h

namespace Rule

/-- The sets of all antecedents. -/
def antecedentSets (rule : Rule) : List SetId := rule.conditions.keys.flatMap Antecedent.sets

/-- The sets of all antecedents, in the order in which they are evaluated. -/
def visited {α : Type} (store : Store α) (rule : Rule) : List SetId :=
  rule.conditions.keys.flatMap fun antecedent => antecedent.visited store

end Rule

/-- The error is that of the first visited set without membership. -/
theorem firings_eq_error_iff {rule : Rule} {e : FuzzyError α} :
    firings store inputs rule = .error e ↔ ∃ before s after,
      rule.visited store = before ++ s :: after ∧ (∀ t ∈ before, Given store inputs t) ∧
        inputMembership store inputs s = .error e := by
  rw [firings_eq, plainFirings_eq_error_iff]
  have hsets : (rule.conditions.entries.flatMap fun condition => condition.1.visited store) =
      rule.visited store := by
    rw [Rule.visited, OrderedMap.keys, List.flatMap_map]
  rw [hsets, mapM_eq_error_iff]
  simp only [inputMembership_eq_ok_iff]

/-- Firing fails for want of a domain just when the first set that cannot be evaluated has none. -/
theorem firings_mismatch_iff {rule : Rule} :
    (∃ e, firings store inputs rule = .error e ∧ e.kind = .domainMismatch) ↔
      ∃ before s after, rule.visited store = before ++ s :: after ∧
        (∀ t ∈ before, Given store inputs t) ∧ store.domainOf? s = none := by
  constructor
  · rintro ⟨e, he, hkind⟩
    obtain ⟨before, s, after, hsets, hbefore, hs⟩ := firings_eq_error_iff.mp he
    exact ⟨before, s, after, hsets, hbefore, inputMembership_mismatch_iff.mp ⟨e, hs, hkind⟩⟩
  · rintro ⟨before, s, after, hsets, hbefore, hs⟩
    obtain ⟨e, he, hkind⟩ := inputMembership_mismatch_iff.mpr hs
    exact ⟨e, firings_eq_error_iff.mpr ⟨before, s, after, hsets, hbefore, he⟩, hkind⟩

/-! ## What fired -/

/-- What fires is a consequent, with a positive strength. -/
theorem mem_of_plainFirings {conditions : List (Antecedent × SetId)} {fired : List (SetId × α)}
    (h : plainFirings store inputs conditions = .ok fired) {s : SetId} {w : α}
    (hmem : (s, w) ∈ fired) : s ∈ conditions.map Prod.snd ∧ (0.0 : α) < w := by
  induction conditions generalizing fired s w with
  | nil =>
    cases h
    cases hmem
  | cons condition conditions ih =>
    obtain ⟨antecedent, consequent⟩ := condition
    rw [plainFirings] at h
    obtain ⟨ms, -, h⟩ := bind_eq_ok_iff.mp h
    obtain ⟨later, hlater, h⟩ := bind_eq_ok_iff.mp h
    have hfired := Except.ok.inj h
    have htail : (s, w) ∈ later →
        s ∈ ((antecedent, consequent) :: conditions).map Prod.snd ∧ (0.0 : α) < w := by
      intro ht
      obtain ⟨hmem, hpos⟩ := ih hlater ht
      exact ⟨List.mem_cons_of_mem _ hmem, hpos⟩
    -- a condition of strength 0 does not fire
    split at hfired
    · rename_i hpos
      rw [← hfired] at hmem
      rcases List.mem_cons.mp hmem with he | hmem
      · cases he
        exact ⟨List.mem_cons_self .., hpos⟩
      · exact htail hmem
    · rw [← hfired] at hmem
      exact htail hmem

/-- What fired is a consequent of the rule, with a positive strength. -/
theorem fired_of_firings {rule : Rule} {fired : List (SetId × α)}
    (h : firings store inputs rule = .ok fired) {s : SetId} {w : α} (hmem : (s, w) ∈ fired) :
    s ∈ rule.consequents ∧ (0.0 : α) < w :=
  mem_of_plainFirings ((firings_eq store inputs rule).symm.trans h) hmem

end FuzzyInference

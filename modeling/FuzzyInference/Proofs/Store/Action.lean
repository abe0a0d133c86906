import FuzzyInference.Membership.Validate
import FuzzyInference.Store.Basic

/-!
# Running actions

What the pieces of an action do to a store: a step that succeeds hands its result and its store to the
next one, a failure ends the action and leaves the store as it is then.
-/

namespace FuzzyInference

/-! ## Outcomes -/

section Outcomes

variable {ε β γ : Type}

/-- A sequence succeeds exactly when both of its steps do. -/
theorem bind_eq_ok_iff {outcome : Except ε β} {next : β → Except ε γ} {c : γ} :
    (outcome >>= next) = .ok c ↔ ∃ b, outcome = .ok b ∧ next b = .ok c := by
  cases outcome with
  | error e => exact ⟨fun h => (by cases h), fun ⟨_, h, _⟩ => (by cases h)⟩
  | ok b => exact ⟨fun h => ⟨b, rfl, h⟩, fun ⟨_, hb, h⟩ => (by cases hb; exact h)⟩

/-- A sequence fails with what its first failing step reports. -/
theorem bind_eq_error_iff {outcome : Except ε β} {next : β → Except ε γ} {e : ε} :
    (outcome >>= next) = .error e ↔
      outcome = .error e ∨ ∃ b, outcome = .ok b ∧ next b = .error e := by
  cases outcome with
  | error f =>
    refine ⟨fun h => Or.inl (by cases h; rfl), fun h => ?_⟩
    rcases h with h | ⟨_, h, _⟩
    · cases h
      rfl
    · cases h
  | ok b =>
    refine ⟨fun h => Or.inr ⟨b, rfl, h⟩, fun h => ?_⟩
    rcases h with h | ⟨_, hb, h⟩
    · cases h
    · cases hb
      exact h

/-- Passing a check and going on: the check answers nothing that the rest could use. -/
theorem check_bind_eq_ok_iff {check : Except ε Unit} {next : Unit → Except ε γ} {c : γ} :
    (check >>= next) = .ok c ↔ check = .ok () ∧ next () = .ok c := by
  rw [bind_eq_ok_iff]
  exact ⟨fun ⟨⟨⟩, h⟩ => h, fun h => ⟨(), h⟩⟩

theorem ensure_eq_ok_iff {condition : Bool} {fault : ε} :
    ensure condition fault = .ok () ↔ condition = true := by
  cases condition <;> simp [ensure]

/-- Reporting a function's fault as an error of the library turns no failure into a success. -/
theorem ofFault_eq_ok_iff {α : Type} {outcome : Except (FunctionFault α) β} {b : β} :
    ofFault outcome = .ok b ↔ outcome = .ok b := by
  cases outcome with
  | error e => constructor <;> intro h <;> cases h
  | ok c => constructor <;> intro h <;> cases h <;> rfl

/-- An outcome read off what can be compared. -/
theorem outcome_of_toOption {outcome : Except ε β} {b : β} (h : outcome.toOption = some b) :
    outcome = .ok b := by
  cases outcome with
  | error e => cases h
  | ok c =>
    cases h
    rfl

end Outcomes

/-! ## Actions -/

namespace Action

variable {α β γ : Type}

/-- An action whose first step succeeds runs on from the store that step left. -/
theorem bind_of_ok {act : Action α β} {next : β → Action α γ} {store later : Store α} {b : β}
    (h : act store = (.ok b, later)) : (act >>= next) store = next b later := by
  simp only [bind, ExceptT.bind, ExceptT.mk, StateT.bind]
  rw [h]
  rfl

/-- A failing first step ends the action, in the store it left. -/
theorem bind_of_error {act : Action α β} {next : β → Action α γ} {store later : Store α}
    {e : FuzzyError α} (h : act store = (.error e, later)) :
    (act >>= next) store = (.error e, later) := by
  simp only [bind, ExceptT.bind, ExceptT.mk, StateT.bind]
  rw [h]
  rfl

/-- What a later step sees of an earlier one is its outcome and its store. -/
theorem bind_apply (act : Action α β) (next : β → Action α γ) (store : Store α) :
    (act >>= next) store =
      match act store with
      | (.ok b, later) => next b later
      | (.error e, later) => (.error e, later) := by
  rcases h : act store with ⟨e | b, later⟩
  · exact bind_of_error h
  · exact bind_of_ok h

/-- What is so of the store that one action leaves, and stays so through the next one, is so of the store
    that both leave. -/
theorem bind_preserves {P : Store α → Prop} {act : Action α β} {next : β → Action α γ}
    {store : Store α} (first : P (act store).2)
    (rest : ∀ b later, act store = (.ok b, later) → P later → P (next b later).2) :
    P ((act >>= next) store).2 := by
  rcases h : act store with ⟨e | b, later⟩
  · rw [bind_of_error h]
    rwa [h] at first
  · rw [bind_of_ok h]
    rw [h] at first
    exact rest b later h first

/-- What is made of a result afterwards changes neither whether there is one nor the store. -/
theorem toOption_bind_pure (act : Action α β) (f : β → γ) (store : Store α) :
    ((act >>= fun b => pure (f b)) store).1.toOption = (act store).1.toOption.map f := by
  rw [bind_apply]
  rcases act store with ⟨e | b, later⟩ <;> rfl

/-- A row of actions succeeds if each of them does, where the one before has left the store. -/
theorem bind_eq_ok_iff {act : Action α β} {next : β → Action α γ} {store later : Store α} {c : γ} :
    (act >>= next) store = (.ok c, later) ↔
      ∃ b between, act store = (.ok b, between) ∧ next b between = (.ok c, later) := by
  rw [bind_apply]
  rcases act store with ⟨e | b, between⟩
  · exact ⟨fun h => (by cases h), fun ⟨_, _, h, _⟩ => (by cases h)⟩
  · exact ⟨fun h => ⟨b, between, rfl, h⟩, fun ⟨_, _, hb, h⟩ => (by cases hb; exact h)⟩

@[simp] theorem pure_apply (b : β) (store : Store α) : (pure b : Action α β) store = (.ok b, store) :=
  rfl

@[simp] theorem throw_apply (e : FuzzyError α) (store : Store α) :
    (throw e : Action α β) store = (.error e, store) := rfl

@[simp] theorem get_apply (store : Store α) : (get : Action α (Store α)) store = (.ok store, store) :=
  rfl

@[simp] theorem ofExcept_apply (outcome : Except (FuzzyError α) β) (store : Store α) :
    ofExcept outcome store = (outcome, store) := rfl

/-- A handler sees the store as the failure has left it. -/
theorem tryCatch_apply (act : Action α β) (handler : FuzzyError α → Action α β)
    (store : Store α) :
    (tryCatch act handler) store =
      match act store with
      | (.ok b, later) => (.ok b, later)
      | (.error e, later) => handler e later := by
  show ExceptT.tryCatch act handler store = _
  simp only [ExceptT.tryCatch, ExceptT.mk, bind, StateT.bind]
  rcases h : act store with ⟨e | b, later⟩ <;> rfl

end Action

end FuzzyInference

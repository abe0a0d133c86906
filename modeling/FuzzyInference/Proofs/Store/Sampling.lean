import FuzzyInference.Proofs.Store.Action
import FuzzyInference.Proofs.Store.Change
import FuzzyInference.Store.Sampling

/-!
# What sampling answers

The cases of `samplePoints`, `array` and `centerOfGravity`, each as an equation: what was kept before
is answered as it is; otherwise the answer is computed from the domain that the set can reach, and
kept; without such a domain the answer is a failure that changes nothing.
-/

namespace FuzzyInference

namespace Store

variable {α : Type} [Scalar α]

/-! ## The domain that a set can reach -/

theorem domainOf?_eq_some_iff {store : Store α} {s : SetId} {d : DomainId} :
    store.domainOf? s = some d ↔ (store.setAt s).domain? = some d ∧ store.isLive d = true := by
  simp [domainOf?, Option.filter_eq_some_iff]

/-- Only a set of the store reaches a domain. -/
theorem hasSet_of_domainOf? {store : Store α} {s : SetId} {d : DomainId}
    (h : store.domainOf? s = some d) : store.HasSet s :=
  hasSet_of_bound (domainOf?_eq_some_iff.mp h).1

/-- The points of a bound set: its domain's grid with the spike put in. -/
theorem samplePoints_of_reached {store : Store α} {s : SetId} {d : DomainId}
    (h : store.domainOf? s = some d) :
    store.samplePoints s = .ok (pointsOf (store.domainAt d).grid (store.setAt s).func) := by
  unfold samplePoints reachedDomain
  rw [h]
  rfl

/-- A set without a living domain has no points, and the error names it. -/
theorem samplePoints_of_unreached {store : Store α} {s : SetId} (h : store.domainOf? s = none) :
    store.samplePoints s = .error (.unbound (store.label s)) := by
  unfold samplePoints reachedDomain
  rw [h]
  rfl

/-- A set has sample points just when it can reach a domain. -/
theorem samplePoints_eq_ok_iff {store : Store α} {s : SetId} {points : List α} :
    store.samplePoints s = .ok points ↔ ∃ d, store.domainOf? s = some d ∧
      points = pointsOf (store.domainAt d).grid (store.setAt s).func := by
  constructor
  · intro h
    cases hd : store.domainOf? s with
    | none =>
      rw [samplePoints_of_unreached hd] at h
      cases h
    | some d =>
      rw [samplePoints_of_reached hd] at h
      exact ⟨d, rfl, (Except.ok.inj h).symm⟩
  · rintro ⟨d, hd, rfl⟩
    exact samplePoints_of_reached hd

/-! ## What keeping a value leaves alone -/

/-- Two stores that differ in kept values only. -/
structure Framed (before after : Store α) : Prop where
  func : ∀ t, (after.setAt t).func = (before.setAt t).func
  bound : ∀ t, (after.setAt t).domain? = (before.setAt t).domain?
  named : ∀ t, (after.setAt t).name? = (before.setAt t).name?
  domainAt : ∀ d, after.domainAt d = before.domainAt d

theorem Framed.refl (store : Store α) : Framed store store :=
  ⟨fun _ => rfl, fun _ => rfl, fun _ => rfl, fun _ => rfl⟩

theorem Framed.trans {a b c : Store α} (h : Framed a b) (k : Framed b c) : Framed a c where
  func t := (k.func t).trans (h.func t)
  bound t := (k.bound t).trans (h.bound t)
  named t := (k.named t).trans (h.named t)
  domainAt d := (k.domainAt d).trans (h.domainAt d)

/-- A write to one set that keeps its function, its domain and its name. -/
theorem framed_modifySet {store : Store α} {s : SetId} {f : FuzzySet α → FuzzySet α}
    (func : (f (store.setAt s)).func = (store.setAt s).func)
    (bound : (f (store.setAt s)).domain? = (store.setAt s).domain?)
    (named : (f (store.setAt s)).name? = (store.setAt s).name?) :
    Framed store (store.modifySet s f) where
  func t := by
    rcases setAt_modifySet_cases store t s f with h | ⟨rfl, _, h⟩ <;> rw [h]
    exact func
  bound t := by
    rcases setAt_modifySet_cases store t s f with h | ⟨rfl, _, h⟩ <;> rw [h]
    exact bound
  named t := by
    rcases setAt_modifySet_cases store t s f with h | ⟨rfl, _, h⟩ <;> rw [h]
    exact named
  domainAt _ := rfl

theorem Framed.isLive {before after : Store α} (h : Framed before after) (d : DomainId) :
    after.isLive d = before.isLive d := by
  unfold Store.isLive
  rw [h.domainAt]

theorem Framed.domainOf? {before after : Store α} (h : Framed before after) (t : SetId) :
    after.domainOf? t = before.domainOf? t := by
  unfold Store.domainOf?
  rw [h.bound, funext h.isLive]

/-- Points once given are given again in every framed later store. -/
theorem Framed.samplePoints {before after : Store α} (h : Framed before after) {s : SetId}
    {points : List α} (hp : before.samplePoints s = .ok points) :
    after.samplePoints s = .ok points := by
  obtain ⟨d, hd, rfl⟩ := samplePoints_eq_ok_iff.mp hp
  refine samplePoints_eq_ok_iff.mpr ⟨d, (h.domainOf? s).trans hd, ?_⟩
  rw [h.domainAt, h.func]

/-! ## The array -/

/-- The store that keeps an array. -/
def withArray (store : Store α) (s : SetId) (values : List α) : Store α :=
  store.modifySet s fun set => { set with array? := some values }

theorem framed_withArray (store : Store α) (s : SetId) (values : List α) :
    Framed store (store.withArray s values) := framed_modifySet rfl rfl rfl

/-- The memberships of a set at some points. -/
def sampled (store : Store α) (s : SetId) (points : List α) : List α :=
  points.map fun x => (store.setAt s).func.evaluate x

/-- A kept array is answered as it is, with nothing computed and nothing changed. -/
theorem array_of_kept {store : Store α} {s : SetId} {values : List α}
    (h : (store.setAt s).array? = some values) : array s store = (.ok values, store) := by
  unfold array
  rw [h]

/-- The first successful request computes the array and keeps it. -/
theorem array_of_points {store : Store α} {s : SetId} {points : List α}
    (h : (store.setAt s).array? = none) (hp : store.samplePoints s = .ok points) :
    array s store = (.ok (store.sampled s points), store.withArray s (store.sampled s points)) := by
  unfold array
  rw [h, hp]
  rfl

/-- A request that fails to get points reports their error and keeps nothing. -/
theorem array_of_error {store : Store α} {s : SetId} {e : FuzzyError α}
    (h : (store.setAt s).array? = none) (hp : store.samplePoints s = .error e) :
    array s store = (.error e, store) := by
  unfold array
  rw [h, hp]

omit [Scalar α] in
theorem setAt_withArray_self {store : Store α} {s : SetId} (hs : store.HasSet s)
    (values : List α) :
    (store.withArray s values).setAt s = { store.setAt s with array? := some values } :=
  setAt_modifySet_self _ hs

/-- A set that has sample points has an array, kept from then on, and nothing else changes. -/
theorem array_keeps {store : Store α} {s : SetId} {points : List α}
    (hp : store.samplePoints s = .ok points) :
    ∃ values later, array s store = (.ok values, later) ∧
      later.setAt s = { store.setAt s with array? := some values } ∧
      Framed store later ∧ (∀ t, t ≠ s → later.setAt t = store.setAt t) := by
  obtain ⟨d, hd, -⟩ := samplePoints_eq_ok_iff.mp hp
  cases hk : (store.setAt s).array? with
  | some values =>
    exact ⟨values, store, array_of_kept hk, by rw [← hk], Framed.refl store, fun _ _ => rfl⟩
  | none =>
    exact ⟨_, _, array_of_points hk hp, setAt_withArray_self (hasSet_of_domainOf? hd) _,
      framed_withArray store s _, fun t ht => setAt_modifySet_ne _ ht⟩

/-! ## The center of gravity -/

/-- The store that keeps a center. -/
def withCenter (store : Store α) (s : SetId) (c : α) : Store α :=
  store.modifySet s fun set => { set with center? := some c }

theorem framed_withCenter (store : Store α) (s : SetId) (c : α) :
    Framed store (store.withCenter s c) := framed_modifySet rfl rfl rfl

/-- A set whose center is neither kept nor at a spike and that cannot reach a domain to find it. -/
def Unmeasured (store : Store α) (s : SetId) : Prop :=
  (store.setAt s).center? = none ∧ (store.setAt s).func.spike? = none ∧ store.domainOf? s = none

omit [Scalar α] in
theorem hasSet_of_spike {store : Store α} {s : SetId} {c : α}
    (h : (store.setAt s).func.spike? = some c) : store.HasSet s := by
  apply Classical.byContradiction
  intro hn
  rw [setAt_of_not_hasSet hn] at h
  cases h

/-- A kept center is answered as it is. -/
theorem centerOfGravity_of_kept {store : Store α} {s : SetId} {c : α}
    (h : (store.setAt s).center? = some c) : centerOfGravity s store = (.ok c, store) := by
  unfold centerOfGravity
  rw [Action.bind_of_ok (Action.get_apply store), h]
  rfl

/-- A spike is its own center, and is kept as such with no array computed. -/
theorem centerOfGravity_of_spike {store : Store α} {s : SetId} {c : α}
    (h : (store.setAt s).center? = none) (hs : (store.setAt s).func.spike? = some c) :
    centerOfGravity s store = (.ok c, store.withCenter s c) := by
  unfold centerOfGravity
  rw [Action.bind_of_ok (Action.get_apply store), h, hs]
  rfl

/-- Without spike and points there is no center, and the points' error is reported. -/
theorem centerOfGravity_of_error {store : Store α} {s : SetId} {e : FuzzyError α}
    (h : (store.setAt s).center? = none) (hs : (store.setAt s).func.spike? = none)
    (hp : store.samplePoints s = .error e) : centerOfGravity s store = (.error e, store) := by
  unfold centerOfGravity
  rw [Action.bind_of_ok (Action.get_apply store), h, hs]
  exact Action.bind_of_error (by rw [hp]; rfl)

/-- Without a kept center the array is asked for, and the centroid of its curve is kept. -/
theorem centerOfGravity_of_points {store later : Store α} {s : SetId} {points values : List α}
    (h : (store.setAt s).center? = none) (hs : (store.setAt s).func.spike? = none)
    (hp : store.samplePoints s = .ok points) (ha : array s store = (.ok values, later)) :
    centerOfGravity s store =
      (.ok ((centroid points values).getD 0.0),
        later.withCenter s ((centroid points values).getD 0.0)) := by
  unfold centerOfGravity
  rw [Action.bind_of_ok (Action.get_apply store), h, hs]
  have hpoints : (Action.ofExcept (store.samplePoints s) : Action α _) store =
      (.ok points, store) := by rw [hp]; rfl
  exact (Action.bind_of_ok hpoints).trans (Action.bind_of_ok ha)

/-- A set that keeps nothing and reaches no domain cannot be weighed. -/
theorem centerOfGravity_of_unmeasured {store : Store α} {s : SetId} (h : store.Unmeasured s) :
    centerOfGravity s store = (.error (.unbound (store.label s)), store) :=
  centerOfGravity_of_error h.1 h.2.1 (samplePoints_of_unreached h.2.2)

/-- Any other set has a center, kept from then on, and nothing else changes but its array. -/
theorem centerOfGravity_keeps {store : Store α} {s : SetId} (h : ¬ store.Unmeasured s) :
    ∃ c later, centerOfGravity s store = (.ok c, later) ∧ (later.setAt s).center? = some c ∧
      Framed store later ∧ (∀ t, t ≠ s → later.setAt t = store.setAt t) := by
  cases hc : (store.setAt s).center? with
  | some c =>
    exact ⟨c, store, centerOfGravity_of_kept hc, hc, Framed.refl store, fun _ _ => rfl⟩
  | none =>
    cases hs : (store.setAt s).func.spike? with
    | some c =>
      refine ⟨c, _, centerOfGravity_of_spike hc hs, ?_, framed_withCenter store s c,
        fun t ht => setAt_modifySet_ne _ ht⟩
      rw [withCenter, setAt_modifySet_self _ (hasSet_of_spike hs)]
    | none =>
      cases hd : store.domainOf? s with
      | none => exact absurd ⟨hc, hs, hd⟩ h
      | some d =>
        -- two writes to the set: its array, unless it has one, and its center
        have hp := samplePoints_of_reached hd
        obtain ⟨values, later, ha, -, hframed, hrest⟩ := array_keeps hp
        have hset : later.HasSet s := hasSet_of_domainOf? ((hframed.domainOf? s).trans hd)
        refine ⟨_, _, centerOfGravity_of_points hc hs hp ha, ?_,
          hframed.trans (framed_withCenter later s _),
          fun t ht => (setAt_modifySet_ne _ ht).trans (hrest t ht)⟩
        rw [withCenter, setAt_modifySet_self _ hset]

end Store

end FuzzyInference

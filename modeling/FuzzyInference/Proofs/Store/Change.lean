import FuzzyInference.Store.Registry
import FuzzyInference.Store.Sampling
import Mathlib.Logic.Relation

/-!
# Elementary changes of a store

Whatever is done to a store is made of a few elementary changes: a domain or a set is added, a set is
bound or named, a name is entered in a registry or leaves it, an owner comes or goes, a computed value
is kept. `Change` lists them, each under the condition that the code has checked by then. An invariant
is proved once for each elementary change, not for each action.

## Contents
- `HasSet`, `HasDomain`: identities that were handed out. Lookup after each kind of write.
- `Change`, `Changes`: one elementary change, and a row of them.
- `Extends`: what no change takes back. What is bound, named or kept stays so; a function and the
  parameters of a domain stay what they were; a domain that is gone stays gone.
-/

namespace FuzzyInference

namespace Store

variable {α : Type}

/-- The identity was handed out to a set. -/
def HasSet (store : Store α) (s : SetId) : Prop := s.index < store.sets.size

/-- The identity was handed out to a domain. -/
def HasDomain (store : Store α) (d : DomainId) : Prop := d.index < store.domains.size

/-! ## Lookup after a write -/

section Sets

/-- An id out of range reads as the nameless, unbound identity. -/
theorem setAt_of_not_hasSet {store : Store α} {s : SetId} (h : ¬ store.HasSet s) :
    store.setAt s = .fresh (.shape .identity) none := by
  simp only [HasSet, Nat.not_lt] at h
  simp [setAt, h]

/-- A bound set is there: what was never handed out reads as unbound. -/
theorem hasSet_of_bound {store : Store α} {s : SetId} {d : DomainId}
    (h : (store.setAt s).domain? = some d) : store.HasSet s := by
  apply Classical.byContradiction
  intro hn
  rw [setAt_of_not_hasSet hn] at h
  simp [FuzzySet.fresh] at h

theorem setAt_modifySet_self {store : Store α} {s : SetId} (f : FuzzySet α → FuzzySet α)
    (h : store.HasSet s) : (store.modifySet s f).setAt s = f (store.setAt s) := by
  have hi : s.index < store.sets.size := h
  simp [modifySet, setAt, hi, Array.getElem_modify]

theorem setAt_modifySet_ne {store : Store α} {s t : SetId} (f : FuzzySet α → FuzzySet α)
    (h : s ≠ t) : (store.modifySet t f).setAt s = store.setAt s := by
  have hi : ¬ t.index = s.index := fun e => h (by cases s; cases t; simpa using e.symm)
  simp [modifySet, setAt, Array.getElem?_modify, hi]

/-- A write to one set either changes that set or nothing. -/
theorem setAt_modifySet_cases (store : Store α) (s t : SetId) (f : FuzzySet α → FuzzySet α) :
    (store.modifySet t f).setAt s = store.setAt s ∨
      s = t ∧ store.HasSet s ∧ (store.modifySet t f).setAt s = f (store.setAt s) := by
  by_cases hst : s = t
  · subst hst
    by_cases hs : store.HasSet s
    · exact Or.inr ⟨rfl, hs, setAt_modifySet_self f hs⟩
    · have hs' : ¬ (store.modifySet s f).HasSet s := by simpa [HasSet, modifySet] using hs
      exact Or.inl (by rw [setAt_of_not_hasSet hs', setAt_of_not_hasSet hs])
  · exact Or.inl (setAt_modifySet_ne f hst)

/-- A write to one set is not seen where it changes nothing. -/
theorem read_modifySet {β : Type} (read : FuzzySet α → β) {f : FuzzySet α → FuzzySet α}
    (hf : ∀ set, read (f set) = read set) (store : Store α) (s t : SetId) :
    read ((store.modifySet t f).setAt s) = read (store.setAt s) := by
  rcases setAt_modifySet_cases store s t f with h | ⟨rfl, _, h⟩ <;> rw [h]
  exact hf (store.setAt s)

/-- A fresh set takes a new id, so no set there before reads differently. -/
theorem setAt_addFresh_of_hasSet {store : Store α} {s : SetId} (h : store.HasSet s)
    (func : Membership α) (domain? : Option DomainId) :
    (store.addFresh func domain?).2.setAt s = store.setAt s := by
  have hi : s.index ≠ store.sets.size := Nat.ne_of_lt h
  simp [addFresh, setAt, Array.getElem?_push, hi]

/-- A new set has nothing but its function and perhaps a domain; the other sets stay. -/
theorem setAt_addFresh_cases (store : Store α) (func : Membership α) (domain? : Option DomainId)
    (s : SetId) :
    (store.addFresh func domain?).2.setAt s = store.setAt s ∨
      s = (store.addFresh func domain?).1 ∧
        (store.addFresh func domain?).2.setAt s = .fresh func domain? := by
  by_cases hi : s.index = store.sets.size
  · refine Or.inr ⟨?_, by simp [addFresh, setAt, hi]⟩
    cases s
    exact congrArg SetId.mk hi
  · exact Or.inl (by simp [addFresh, setAt, Array.getElem?_push, hi])

theorem setAt_addFresh_self (store : Store α) (func : Membership α) (domain? : Option DomainId) :
    (store.addFresh func domain?).2.setAt ⟨store.sets.size⟩ = .fresh func domain? := by
  simp [addFresh, setAt]

theorem hasSet_addFresh_self (store : Store α) (func : Membership α) (domain? : Option DomainId) :
    (store.addFresh func domain?).2.HasSet (store.addFresh func domain?).1 := by
  simp [HasSet, addFresh]

@[simp] theorem hasSet_modifySet {store : Store α} {s t : SetId} {f : FuzzySet α → FuzzySet α} :
    (store.modifySet t f).HasSet s ↔ store.HasSet s := by simp [HasSet, modifySet]

@[simp] theorem hasDomain_modifySet {store : Store α} {d : DomainId} {t : SetId}
    {f : FuzzySet α → FuzzySet α} :
    (store.modifySet t f).HasDomain d ↔ store.HasDomain d := Iff.rfl

@[simp] theorem setAt_modifyDomain (store : Store α) (s : SetId) (d : DomainId)
    (f : Domain α → Domain α) : (store.modifyDomain d f).setAt s = store.setAt s := rfl

@[simp] theorem setAt_addDomain (store : Store α) (s : SetId) (domain : Domain α) :
    (store.addDomain domain).2.setAt s = store.setAt s := rfl

@[simp] theorem hasDomain_modifyDomain {store : Store α} {d e : DomainId}
    {f : Domain α → Domain α} :
    (store.modifyDomain e f).HasDomain d ↔ store.HasDomain d := by simp [HasDomain, modifyDomain]

end Sets

section Domains

variable [Scalar α]

@[simp] theorem domainAt_modifySet (store : Store α) (d : DomainId) (t : SetId)
    (f : FuzzySet α → FuzzySet α) : (store.modifySet t f).domainAt d = store.domainAt d := rfl

@[simp] theorem domainAt_addFresh (store : Store α) (func : Membership α)
    (domain? : Option DomainId) (d : DomainId) :
    (store.addFresh func domain?).2.domainAt d = store.domainAt d := rfl

/-- An id out of range reads as a nameless, empty domain. -/
theorem domainAt_of_not_hasDomain {store : Store α} {d : DomainId} (h : ¬ store.HasDomain d) :
    store.domainAt d = ⟨"", ⟨0.0, 0.0, 0⟩, 0.0, .empty, 0⟩ := by
  simp only [HasDomain, Nat.not_lt] at h
  simp [domainAt, h]

theorem domainAt_modifyDomain_self {store : Store α} {d : DomainId} (f : Domain α → Domain α)
    (h : store.HasDomain d) : (store.modifyDomain d f).domainAt d = f (store.domainAt d) := by
  have hi : d.index < store.domains.size := h
  simp [modifyDomain, domainAt, hi, Array.getElem_modify]

theorem domainAt_modifyDomain_ne {store : Store α} {d e : DomainId} (f : Domain α → Domain α)
    (h : d ≠ e) : (store.modifyDomain e f).domainAt d = store.domainAt d := by
  have hi : ¬ e.index = d.index := fun i => h (by cases d; cases e; simpa using i.symm)
  simp [modifyDomain, domainAt, Array.getElem?_modify, hi]

/-- A write to one domain either changes that domain or nothing. -/
theorem domainAt_modifyDomain_cases (store : Store α) (d e : DomainId) (f : Domain α → Domain α) :
    (store.modifyDomain e f).domainAt d = store.domainAt d ∨
      d = e ∧ store.HasDomain d ∧
        (store.modifyDomain e f).domainAt d = f (store.domainAt d) := by
  by_cases hde : d = e
  · subst hde
    by_cases hd : store.HasDomain d
    · exact Or.inr ⟨rfl, hd, domainAt_modifyDomain_self f hd⟩
    · have hd' : ¬ (store.modifyDomain d f).HasDomain d := by simpa using hd
      exact Or.inl (by rw [domainAt_of_not_hasDomain hd', domainAt_of_not_hasDomain hd])
  · exact Or.inl (domainAt_modifyDomain_ne f hde)

/-- A new domain has the next identity; the other domains stay. -/
theorem domainAt_addDomain_cases (store : Store α) (domain : Domain α) (d : DomainId) :
    (store.addDomain domain).2.domainAt d = store.domainAt d ∨
      ¬ store.HasDomain d ∧ (store.addDomain domain).2.domainAt d = domain := by
  by_cases hi : d.index = store.domains.size
  · exact Or.inr ⟨by simp [HasDomain, hi], by simp [addDomain, domainAt, hi]⟩
  · exact Or.inl (by simp [addDomain, domainAt, Array.getElem?_push, hi])

/-- A domain id that is new after an addition is the added one's. -/
theorem domainAt_addDomain_of_new {store : Store α} {domain : Domain α} {d : DomainId}
    (hnew : ¬ store.HasDomain d) (h : (store.addDomain domain).2.HasDomain d) :
    (store.addDomain domain).2.domainAt d = domain := by
  simp only [HasDomain, addDomain, Array.size_push] at hnew h
  have hi : d.index = store.domains.size := by omega
  simp [addDomain, domainAt, hi]

omit [Scalar α] in
theorem hasDomain_addDomain_self (store : Store α) (domain : Domain α) :
    (store.addDomain domain).2.HasDomain (store.addDomain domain).1 := by
  simp [HasDomain, addDomain]

theorem domainAt_addDomain_self (store : Store α) (domain : Domain α) :
    (store.addDomain domain).2.domainAt (store.addDomain domain).1 = domain :=
  domainAt_addDomain_of_new (by simp [HasDomain, addDomain]) (hasDomain_addDomain_self store domain)

/-- Only a domain of the store has references left, since the default has none. -/
theorem hasDomain_of_isLive {store : Store α} {d : DomainId} (h : store.isLive d) :
    store.HasDomain d := by
  apply Classical.byContradiction
  intro hn
  simp [isLive, domainAt_of_not_hasDomain hn] at h

end Domains

/-! ## The changes -/

section Changes

variable [Scalar α]

/-- **One write.** Each comes with what was checked before it. A value is kept only where none was,
    and is the one that is computed from the store as it is. -/
inductive Change : Store α → Store α → Prop where
  | makeDomain {store : Store α} {name : String} {low high res : α} {domain : Domain α}
      (h : Domain.make name low high res = .ok domain) :
      Change store (store.addDomain domain).2
  | makeSet {store : Store α} (func : Membership α) : Change store (store.addFresh func none).2
  | deriveSet {store : Store α} (s : SetId) (func : Membership α) :
      Change store (store.addFresh func (store.setAt s).domain?).2
  | bind {store : Store α} {s : SetId} {d : DomainId}
      (h : store.checkDomainBinding s d = .ok ()) : Change store (store.bound s d)
  | call {store : Store α} {s : SetId} {name : String}
      (h : store.checkNameBinding s name = .ok ()) : Change store (store.called s name)
  | enter {store : Store α} {s : SetId} {d : DomainId} {name : String}
      (identifier : Text.isIdentifier name = true)
      (bound : (store.setAt s).domain? = some d) (named : (store.setAt s).name? = some name) :
      Change store (store.modifyDomain d fun domain =>
        { domain with sets := domain.sets.insert name s })
  | leave {store : Store α} (d : DomainId) (name : String) :
      Change store (store.modifyDomain d fun domain =>
        { domain with sets := domain.sets.erase name })
  | retain {store : Store α} (d : DomainId) : Change store (store.retain d)
  | release {store : Store α} (d : DomainId) : Change store (store.release d)
  | keepArray {store : Store α} {s : SetId} {points : List α}
      (empty : (store.setAt s).array? = none) (sampled : store.samplePoints s = .ok points) :
      Change store (store.modifySet s fun set =>
        { set with array? := some (points.map fun x => (store.setAt s).func.evaluate x) })
  | keepSpike {store : Store α} {s : SetId} {c : α}
      (empty : (store.setAt s).center? = none) (spike : (store.setAt s).func.spike? = some c) :
      Change store (store.modifySet s fun set => { set with center? := some c })
  | keepCentroid {store : Store α} {s : SetId} {points values : List α}
      (empty : (store.setAt s).center? = none) (spike : (store.setAt s).func.spike? = none)
      (sampled : store.samplePoints s = .ok points)
      (array : (store.setAt s).array? = some values) :
      Change store (store.modifySet s fun set =>
        { set with center? := some ((centroid points values).getD 0.0) })

/-- A row of changes. -/
abbrev Changes : Store α → Store α → Prop := Relation.ReflTransGen Change

/-- **What no change takes back.** -/
structure Extends (before after : Store α) : Prop where
  hasSet : ∀ {s}, before.HasSet s → after.HasSet s
  hasDomain : ∀ {d}, before.HasDomain d → after.HasDomain d
  func : ∀ {s}, before.HasSet s → (after.setAt s).func = (before.setAt s).func
  bound : ∀ {s d}, (before.setAt s).domain? = some d → (after.setAt s).domain? = some d
  named : ∀ {s name}, (before.setAt s).name? = some name → (after.setAt s).name? = some name
  array : ∀ {s values}, (before.setAt s).array? = some values →
    (after.setAt s).array? = some values
  center : ∀ {s c}, (before.setAt s).center? = some c → (after.setAt s).center? = some c
  domainName : ∀ {d}, before.HasDomain d → (after.domainAt d).name = (before.domainAt d).name
  grid : ∀ {d}, before.HasDomain d → (after.domainAt d).grid = (before.domainAt d).grid
  res : ∀ {d}, before.HasDomain d → (after.domainAt d).res = (before.domainAt d).res
  gone : ∀ {d}, before.HasDomain d → before.isLive d = false → after.isLive d = false

theorem Extends.refl (store : Store α) : Extends store store :=
  ⟨id, id, fun _ => rfl, id, id, id, id, fun _ => rfl, fun _ => rfl, fun _ => rfl, fun _ => id⟩

/-- Extensions compose, so a whole run extends its start when each step does. -/
theorem Extends.trans {a b c : Store α} (h : Extends a b) (k : Extends b c) : Extends a c where
  hasSet hs := k.hasSet (h.hasSet hs)
  hasDomain hd := k.hasDomain (h.hasDomain hd)
  func hs := (k.func (h.hasSet hs)).trans (h.func hs)
  bound hs := k.bound (h.bound hs)
  named hs := k.named (h.named hs)
  array hs := k.array (h.array hs)
  center hs := k.center (h.center hs)
  domainName hd := (k.domainName (h.hasDomain hd)).trans (h.domainName hd)
  grid hd := (k.grid (h.hasDomain hd)).trans (h.grid hd)
  res hd := (k.res (h.hasDomain hd)).trans (h.res hd)
  gone hd hl := k.gone (h.hasDomain hd) (h.gone hd hl)

/-- A write to one set that keeps its function and fills only what is empty. -/
theorem extends_modifySet {store : Store α} {s : SetId} {f : FuzzySet α → FuzzySet α}
    (func : (f (store.setAt s)).func = (store.setAt s).func)
    (bound : ∀ d, (store.setAt s).domain? = some d → (f (store.setAt s)).domain? = some d)
    (named : ∀ n, (store.setAt s).name? = some n → (f (store.setAt s)).name? = some n)
    (array : ∀ vs, (store.setAt s).array? = some vs → (f (store.setAt s)).array? = some vs)
    (center : ∀ c, (store.setAt s).center? = some c → (f (store.setAt s)).center? = some c) :
    Extends store (store.modifySet s f) where
  hasSet hs := hasSet_modifySet.mpr hs
  hasDomain hd := hd
  func {t} _ := by
    rcases setAt_modifySet_cases store t s f with h | ⟨rfl, _, h⟩ <;> rw [h]
    exact func
  bound {t d} ht := by
    rcases setAt_modifySet_cases store t s f with h | ⟨rfl, _, h⟩ <;> rw [h]
    · exact ht
    · exact bound d ht
  named {t n} ht := by
    rcases setAt_modifySet_cases store t s f with h | ⟨rfl, _, h⟩ <;> rw [h]
    · exact ht
    · exact named n ht
  array {t vs} ht := by
    rcases setAt_modifySet_cases store t s f with h | ⟨rfl, _, h⟩ <;> rw [h]
    · exact ht
    · exact array vs ht
  center {t c} ht := by
    rcases setAt_modifySet_cases store t s f with h | ⟨rfl, _, h⟩ <;> rw [h]
    · exact ht
    · exact center c ht
  domainName _ := rfl
  grid _ := rfl
  res _ := rfl
  gone _ hl := hl

/-- A write to one domain that keeps its parameters and brings no domain back. -/
theorem extends_modifyDomain {store : Store α} {d : DomainId} {f : Domain α → Domain α}
    (name : (f (store.domainAt d)).name = (store.domainAt d).name)
    (grid : (f (store.domainAt d)).grid = (store.domainAt d).grid)
    (res : (f (store.domainAt d)).res = (store.domainAt d).res)
    (gone : (store.domainAt d).owners = 0 → (f (store.domainAt d)).owners = 0) :
    Extends store (store.modifyDomain d f) where
  hasSet hs := hs
  hasDomain hd := hasDomain_modifyDomain.mpr hd
  func _ := rfl
  bound h := h
  named h := h
  array h := h
  center h := h
  domainName {e} _ := by
    rcases domainAt_modifyDomain_cases store e d f with h | ⟨rfl, _, h⟩ <;> rw [h]
    exact name
  grid {e} _ := by
    rcases domainAt_modifyDomain_cases store e d f with h | ⟨rfl, _, h⟩ <;> rw [h]
    exact grid
  res {e} _ := by
    rcases domainAt_modifyDomain_cases store e d f with h | ⟨rfl, _, h⟩ <;> rw [h]
    exact res
  gone {e} _ hl := by
    simp only [isLive, decide_eq_false_iff_not, Nat.not_lt, Nat.le_zero] at hl ⊢
    rcases domainAt_modifyDomain_cases store e d f with h | ⟨rfl, _, h⟩ <;> rw [h]
    · exact hl
    · exact gone hl

/-- Adding a set leaves the others as they are. -/
theorem extends_addFresh (store : Store α) (func : Membership α) (domain? : Option DomainId) :
    Extends store (store.addFresh func domain?).2 := by
  have old : ∀ {s}, store.HasSet s → (store.addFresh func domain?).2.setAt s = store.setAt s :=
    fun hs => setAt_addFresh_of_hasSet hs func domain?
  -- what has a domain, a name or a kept value was there before
  have old' : ∀ s, store.setAt s ≠ .fresh (.shape .identity) none →
      (store.addFresh func domain?).2.setAt s = store.setAt s := fun s hs =>
    old (Classical.byContradiction fun hn => hs (setAt_of_not_hasSet hn))
  refine ⟨fun {s} hs => ?_, id, fun hs => by rw [old hs], fun {s d} h => ?_, fun {s n} h => ?_,
    fun {s vs} h => ?_, fun {s c} h => ?_, fun _ => rfl, fun _ => rfl, fun _ => rfl, fun _ => id⟩
  · simp only [HasSet, addFresh, Array.size_push] at hs ⊢
    omega
  all_goals
    rw [old' s (fun he => by simp [he, FuzzySet.fresh] at h)]
    exact h

/-- Adding a domain leaves the others as they are. -/
theorem extends_addDomain (store : Store α) (domain : Domain α) :
    Extends store (store.addDomain domain).2 := by
  have old : ∀ {d}, store.HasDomain d →
      (store.addDomain domain).2.domainAt d = store.domainAt d := fun {d} hd => by
    rcases domainAt_addDomain_cases store domain d with h | ⟨hn, _⟩
    · exact h
    · exact absurd hd hn
  refine ⟨id, fun {d} hd => ?_, fun _ => rfl, id, id, id, id, fun hd => by rw [old hd],
    fun hd => by rw [old hd], fun hd => by rw [old hd], fun hd hl => ?_⟩
  · simp only [HasDomain, addDomain, Array.size_push] at hd ⊢
    omega
  · simpa only [isLive, old hd] using hl

/-- Binding and naming fill what is empty. -/
theorem extends_bound (store : Store α) (s : SetId) (d : DomainId) :
    Extends store (store.bound s d) :=
  extends_modifySet rfl (fun e he => by rw [he]; rfl) (fun _ => id) (fun _ => id) (fun _ => id)

/-- Naming a set changes neither functions nor bindings nor what is kept. -/
theorem extends_called (store : Store α) (s : SetId) (name : String) :
    Extends store (store.called s name) :=
  extends_modifySet rfl (fun _ => id) (fun n hn => by rw [hn]; rfl) (fun _ => id) (fun _ => id)

/-- **A change extends the store.** -/
theorem Change.extends {before after : Store α} (h : Change before after) :
    Extends before after := by
  -- what is kept is kept for good: the three last changes need that nothing was kept before
  cases h with
  | makeDomain _ => exact extends_addDomain _ _
  | makeSet func => exact extends_addFresh _ _ _
  | deriveSet s func => exact extends_addFresh _ _ _
  | bind _ => exact extends_bound _ _ _
  | call _ => exact extends_called _ _ _
  | enter _ _ _ => exact extends_modifyDomain rfl rfl rfl id
  | leave d name => exact extends_modifyDomain rfl rfl rfl id
  | retain d =>
    refine extends_modifyDomain ?_ ?_ ?_ (fun h0 => ?_)
    · split <;> rfl
    · split <;> rfl
    · split <;> rfl
    · -- a domain that is gone is not counted up again
      rw [if_neg (by omega)]
      exact h0
  | release d => exact extends_modifyDomain rfl rfl rfl (fun h0 => by simp [h0])
  | keepArray empty _ =>
    exact extends_modifySet rfl (fun _ => id) (fun _ => id)
      (fun vs hvs => by simp [empty] at hvs) (fun _ => id)
  | keepSpike empty _ =>
    exact extends_modifySet rfl (fun _ => id) (fun _ => id) (fun _ => id)
      (fun c hc => by simp [empty] at hc)
  | keepCentroid empty _ _ _ =>
    exact extends_modifySet rfl (fun _ => id) (fun _ => id) (fun _ => id)
      (fun c hc => by simp [empty] at hc)

/-- A row of changes extends the store. -/
theorem Changes.extends {before after : Store α} (h : Changes before after) :
    Extends before after := by
  induction h with
  | refl => exact Extends.refl _
  | tail _ h ih => exact ih.trans h.extends

end Changes

end Store

end FuzzyInference

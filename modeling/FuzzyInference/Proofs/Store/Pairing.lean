import FuzzyInference.Proofs.Store.Measure
import Mathlib.Data.List.Forall2

/-!
# Stores that mirror each other

In two runs that do the same, but for questions asked in one of them alone, the same sets may have
different identities, since a question can make a set of its own. A pairing says which set of the one
run is which of the other. Stores mirror each other under a pairing if paired sets have the same
function, binding and name and if their domains are the same, up to the pairing in what they register.
Kept values do not count.

## Contents
- `Pairing`, `Pairing.Links`, `Pairing.grown`: sets made by two steps are paired in order.
- `Mirror`: its consequences for what is read of a set and of a domain.
- `Keeps`, `Mirror.keeps`: steps in one of the runs that a mirror does not show.
- `Mirror.addFresh`, `Mirror.modifySet`, `Mirror.modifyDomain`, `Mirror.addDomain`: the same write in
  both runs.
-/

namespace FuzzyInference

/-- The sets of one run beside those of another. -/
abbrev Pairing := List (SetId × SetId)

namespace Pairing

/-- Two sets stand for each other. -/
def Links (pairs : Pairing) (s t : SetId) : Prop := (s, t) ∈ pairs

instance (pairs : Pairing) (s t : SetId) : Decidable (pairs.Links s t) :=
  inferInstanceAs (Decidable ((s, t) ∈ pairs))

/-- Every member of the second of two corresponding lists has its partner in the first. -/
theorem exists_partner {pairs : Pairing} {xs ys : List SetId} (h : List.Forall₂ pairs.Links xs ys)
    {t : SetId} (ht : t ∈ ys) : ∃ s ∈ xs, pairs.Links s t := by
  induction h with
  | nil => cases ht
  | cons hst _ ih =>
    rcases List.mem_cons.mp ht with rfl | ht
    · exact ⟨_, List.mem_cons_self .., hst⟩
    · obtain ⟨s, hs, hst⟩ := ih ht
      exact ⟨s, List.mem_cons_of_mem _ hs, hst⟩

end Pairing

namespace Store

variable {α : Type}

/-- The sets that were made between two stores, in order. -/
def made (before after : Store α) : List SetId :=
  (List.range' before.sets.size (after.sets.size - before.sets.size)).map SetId.mk

end Store

namespace Pairing

variable {α : Type} {pairs : Pairing} {a b a' b' : Store α}

/-- The pairing after a step in each run: the sets that the steps made are paired in order. -/
def grown (pairs : Pairing) (a b a' b' : Store α) : Pairing := pairs ++ (a.made a').zip (b.made b')

/-- A step that adds no set made none. -/
theorem made_of_size (h : a'.sets.size = a.sets.size) : a.made a' = [] := by
  simp [Store.made, h]

/-- Where the first store got no new set, no pair is added. -/
theorem grown_of_left (h : a'.sets.size = a.sets.size) : pairs.grown a b a' b' = pairs := by
  simp [grown, made_of_size h]

/-- Nor where the second got none. -/
theorem grown_of_right (h : b'.sets.size = b.sets.size) : pairs.grown a b a' b' = pairs := by
  simp [grown, made_of_size h]

/-- Where both steps made as many sets, pairing them at once or step by step is the same. -/
theorem grown_grown {a'' b'' : Store α} {k l m : ℕ} (ha : a'.sets.size = a.sets.size + k)
    (hb : b'.sets.size = b.sets.size + k) (ha' : a''.sets.size = a'.sets.size + l)
    (hb' : b''.sets.size = b'.sets.size + m) :
    (pairs.grown a b a' b').grown a' b' a'' b'' = pairs.grown a b a'' b'' := by
  have hmade : ∀ {x x' x'' : Store α} {i j : ℕ}, x'.sets.size = x.sets.size + i →
      x''.sets.size = x'.sets.size + j → x.made x'' = x.made x' ++ x'.made x'' := by
    intro x x' x'' i j hx hx'
    unfold Store.made
    rw [hx', hx, ← List.map_append]
    congr 1
    rw [show x.sets.size + i + j - x.sets.size = i + j by omega, Nat.add_sub_cancel_left,
      Nat.add_sub_cancel_left, ← List.range'_append_1]
  have hlength : (a.made a').length = (b.made b').length := by
    simp [Store.made, ha, hb]
  unfold grown
  rw [hmade ha ha', hmade hb hb', List.zip_append hlength, List.append_assoc]

/-- Sets once paired stay paired. -/
theorem Links.grown {s t : SetId} (h : pairs.Links s t) : (pairs.grown a b a' b').Links s t :=
  List.mem_append_left _ h

/-- The one set that each of two steps has made. -/
theorem grown_one (ha : a'.sets.size = a.sets.size + 1) (hb : b'.sets.size = b.sets.size + 1) :
    pairs.grown a b a' b' = pairs ++ [(⟨a.sets.size⟩, ⟨b.sets.size⟩)] := by
  simp [Pairing.grown, Store.made, ha, hb]

end Pairing

/-! ## Mirrors -/

/-- Two domains have the same parameters and owners, and register paired sets under the same names. -/
structure Domain.Mirrors {α : Type} (pairs : Pairing) (x y : Domain α) : Prop where
  name : y.name = x.name
  grid : y.grid = x.grid
  res : y.res = x.res
  owners : y.owners = x.owners
  sets : List.Forall₂ (fun e f => e.1 = f.1 ∧ pairs.Links e.2 f.2) x.sets.entries y.sets.entries

/-- Paired sets agree in all but what they keep, and so do all domains. Pairs are in the order in which
    their sets were made. -/
structure Mirror {α : Type} [Scalar α] (pairs : Pairing) (a b : Store α) : Prop where
  hasSet : ∀ {s t}, pairs.Links s t → a.HasSet s ∧ b.HasSet t
  func : ∀ {s t}, pairs.Links s t → (b.setAt t).func = (a.setAt s).func
  bound : ∀ {s t}, pairs.Links s t → (b.setAt t).domain? = (a.setAt s).domain?
  named : ∀ {s t}, pairs.Links s t → (b.setAt t).name? = (a.setAt s).name?
  ascending : ∀ {s t u v}, pairs.Links s t → pairs.Links u v →
    (s.index < u.index ↔ t.index < v.index)
  size : b.domains.size = a.domains.size
  domains : ∀ d, (a.domainAt d).Mirrors pairs (b.domainAt d)

namespace Mirror

variable {α : Type} [Scalar α] {pairs : Pairing} {a b : Store α}

/-- Pairs are one to one: two sets are the same exactly when their partners are. -/
theorem eq_iff (h : Mirror pairs a b) {s t u v : SetId} (hst : pairs.Links s t)
    (huv : pairs.Links u v) : s = u ↔ t = v := by
  have hsu := h.ascending hst huv
  have hus := h.ascending huv hst
  obtain ⟨s⟩ := s
  obtain ⟨t⟩ := t
  obtain ⟨u⟩ := u
  obtain ⟨v⟩ := v
  simp only [SetId.mk.injEq] at *
  omega

theorem isLive (h : Mirror pairs a b) (d : DomainId) : b.isLive d = a.isLive d := by
  unfold Store.isLive
  rw [(h.domains d).owners]

section Linked

variable {s t : SetId}

theorem domainOf? (h : Mirror pairs a b) (hst : pairs.Links s t) :
    b.domainOf? t = a.domainOf? s := by
  unfold Store.domainOf?
  rw [h.bound hst, funext h.isLive]

theorem label (h : Mirror pairs a b) (hst : pairs.Links s t) : b.label t = a.label s := by
  have hname : ∀ d, (b.domainAt d).name = (a.domainAt d).name := fun d => (h.domains d).name
  unfold Store.label
  simp only [h.domainOf? hst, h.named hst, h.func hst, hname]

theorem call (h : Mirror pairs a b) (hst : pairs.Links s t) (x : α) : b.call t x = a.call s x := by
  unfold Store.call
  rw [h.func hst]

theorem checkRange (h : Mirror pairs a b) (d : DomainId) (x : α) :
    (b.domainAt d).checkRange x = (a.domainAt d).checkRange x := by
  unfold Domain.checkRange
  rw [(h.domains d).grid, (h.domains d).name]

/-- Paired sets are sampled at the same points, or refuse with the same error. -/
theorem samplePoints (h : Mirror pairs a b) (hst : pairs.Links s t) :
    b.samplePoints t = a.samplePoints s := by
  unfold Store.samplePoints Store.reachedDomain
  rw [h.domainOf? hst, h.label hst, h.func hst]
  cases a.domainOf? s with
  | none => rfl
  | some d =>
    show Except.ok _ = Except.ok _
    rw [(h.domains d).grid]

theorem pointsIn (h : Mirror pairs a b) (hst : pairs.Links s t) (d : DomainId) :
    b.pointsIn d t = a.pointsIn d s := by
  unfold Store.pointsIn
  rw [(h.domains d).grid, h.func hst]

/-- Paired sets have the same curve over a domain's points. -/
theorem curveIn (h : Mirror pairs a b) (hst : pairs.Links s t) (d : DomainId) :
    b.curveIn d t = a.curveIn d s := by
  unfold Store.curveIn Store.sampled
  rw [h.pointsIn hst, h.func hst]

theorem centerIn (h : Mirror pairs a b) (hst : pairs.Links s t) (d : DomainId) :
    b.centerIn d t = a.centerIn d s := by
  unfold Store.centerIn
  rw [h.func hst, h.pointsIn hst, h.curveIn hst]

end Linked

/-- The runs may start in different memories. -/
theorem placed (p q : SetId → ℕ) : Mirror [] (Store.placed p : Store α) (Store.placed q) where
  hasSet h := absurd h List.not_mem_nil
  func h := absurd h List.not_mem_nil
  bound h := absurd h List.not_mem_nil
  named h := absurd h List.not_mem_nil
  ascending h := absurd h List.not_mem_nil
  size := rfl
  domains d := by
    refine ⟨rfl, rfl, rfl, rfl, ?_⟩
    rw [Store.domainAt_of_not_hasDomain (by simp [Store.HasDomain, Store.placed])]
    exact .nil

end Mirror

/-! ## Steps that a mirror does not show -/

/-- The later store has the sets of the earlier one, changed in kept values only, and its domains. -/
structure Keeps {α : Type} (before after : Store α) : Prop where
  hasSet : ∀ {s}, before.HasSet s → after.HasSet s
  func : ∀ {s}, before.HasSet s → (after.setAt s).func = (before.setAt s).func
  bound : ∀ {s}, before.HasSet s → (after.setAt s).domain? = (before.setAt s).domain?
  named : ∀ {s}, before.HasSet s → (after.setAt s).name? = (before.setAt s).name?
  domains : after.domains = before.domains

namespace Keeps

variable {α : Type} {a b c : Store α}

theorem refl (store : Store α) : Keeps store store :=
  ⟨id, fun _ => rfl, fun _ => rfl, fun _ => rfl, rfl⟩

theorem trans (h : Keeps a b) (k : Keeps b c) : Keeps a c where
  hasSet hs := k.hasSet (h.hasSet hs)
  func hs := (k.func (h.hasSet hs)).trans (h.func hs)
  bound hs := (k.bound (h.hasSet hs)).trans (h.bound hs)
  named hs := (k.named (h.hasSet hs)).trans (h.named hs)
  domains := k.domains.trans h.domains

/-- A quiet stretch keeps all that pairs depend on. -/
theorem of_quiet [Scalar α] (h : Store.Quiet a b) : Keeps a b where
  hasSet hs := (Store.hasSet_congr h.sets).mpr hs
  func _ := h.framed.func _
  bound _ := h.framed.bound _
  named _ := h.framed.named _
  domains := h.domains

/-- Adding a set keeps every set that was there. -/
theorem addFresh (store : Store α) (func : Membership α) (domain? : Option DomainId) :
    Keeps store (store.addFresh func domain?).2 where
  hasSet hs := by
    simp only [Store.HasSet, Store.addFresh, Array.size_push] at hs ⊢
    omega
  func hs := by rw [Store.setAt_addFresh_of_hasSet hs]
  bound hs := by rw [Store.setAt_addFresh_of_hasSet hs]
  named hs := by rw [Store.setAt_addFresh_of_hasSet hs]
  domains := rfl

end Keeps

/-- A row of actions keeps what each of its steps keeps. -/
theorem Store.keeps_andThen {α β γ : Type} {act : Action α β} {next : β → Action α γ}
    {store : Store α} (first : Keeps store (act store).2)
    (rest : ∀ b later, Keeps later (next b later).2) : Keeps store ((act >>= next) store).2 :=
  Action.bind_preserves (P := Keeps store) first fun b later _ seen => seen.trans (rest b later)

namespace Mirror

variable {α : Type} [Scalar α] {pairs : Pairing} {a b a' b' : Store α}

/-- **What keeps the sets and domains in each run keeps the mirror,** whatever it does besides. -/
theorem keeps (h : Mirror pairs a b) (ha : Keeps a a') (hb : Keeps b b') :
    Mirror pairs a' b' where
  hasSet hst := ⟨ha.hasSet (h.hasSet hst).1, hb.hasSet (h.hasSet hst).2⟩
  func hst := by
    rw [hb.func (h.hasSet hst).2, ha.func (h.hasSet hst).1]
    exact h.func hst
  bound hst := by
    rw [hb.bound (h.hasSet hst).2, ha.bound (h.hasSet hst).1]
    exact h.bound hst
  named hst := by
    rw [hb.named (h.hasSet hst).2, ha.named (h.hasSet hst).1]
    exact h.named hst
  ascending := h.ascending
  size := by
    rw [ha.domains, hb.domains]
    exact h.size
  domains d := by
    unfold Store.domainAt
    rw [ha.domains, hb.domains]
    exact h.domains d

/-- Questions asked of either store leave a mirror: they change only what is kept. -/
theorem quiet (h : Mirror pairs a b) (ha : Store.Quiet a a') (hb : Store.Quiet b b') :
    Mirror pairs a' b' := h.keeps (.of_quiet ha) (.of_quiet hb)

end Mirror

/-! ## The same write in both runs -/

/-- Registries that correspond under some pairs do under more. -/
theorem Domain.Mirrors.mono {α : Type} {pairs more : Pairing} {x y : Domain α}
    (h : x.Mirrors pairs y) (hmore : ∀ {s t}, pairs.Links s t → more.Links s t) :
    x.Mirrors more y where
  name := h.name
  grid := h.grid
  res := h.res
  owners := h.owners
  sets := h.sets.imp fun _ _ he => ⟨he.1, hmore he.2⟩

namespace Mirror

variable {α : Type} [Scalar α] {pairs : Pairing} {a b : Store α}

/-- A set with one function and one binding is added to both stores. -/
theorem addFresh (h : Mirror pairs a b) (func : Membership α) (domain? : Option DomainId) :
    Mirror (pairs ++ [(⟨a.sets.size⟩, ⟨b.sets.size⟩)]) (a.addFresh func domain?).2
      (b.addFresh func domain?).2 := by
  have hold := h.keeps (Keeps.addFresh a func domain?) (Keeps.addFresh b func domain?)
  have hcases : ∀ {s t}, Pairing.Links (pairs ++ [(⟨a.sets.size⟩, ⟨b.sets.size⟩)]) s t →
      pairs.Links s t ∨ s = ⟨a.sets.size⟩ ∧ t = ⟨b.sets.size⟩ := by
    intro s t hst
    simpa [Pairing.Links] using hst
  -- the new set is fresh in both stores
  have hnew : ∀ (store : Store α), (store.addFresh func domain?).2.setAt ⟨store.sets.size⟩ =
      .fresh func domain? := by
    intro store
    simp [Store.addFresh, Store.setAt]
  refine ⟨?_, ?_, ?_, ?_, ?_, hold.size, ?_⟩
  · intro s t hst
    rcases hcases hst with hst | ⟨rfl, rfl⟩
    · exact hold.hasSet hst
    · exact ⟨Store.hasSet_addFresh_self a func domain?, Store.hasSet_addFresh_self b func domain?⟩
  · intro s t hst
    rcases hcases hst with hst | ⟨rfl, rfl⟩
    · exact hold.func hst
    · rw [hnew, hnew]
  · intro s t hst
    rcases hcases hst with hst | ⟨rfl, rfl⟩
    · exact hold.bound hst
    · rw [hnew, hnew]
  · intro s t hst
    rcases hcases hst with hst | ⟨rfl, rfl⟩
    · exact hold.named hst
    · rw [hnew, hnew]
  · -- older sets come before the new one in both stores
    intro s t u v hst huv
    rcases hcases hst with hst | ⟨rfl, rfl⟩ <;> rcases hcases huv with huv | ⟨rfl, rfl⟩
    · exact h.ascending hst huv
    · exact iff_of_true (h.hasSet hst).1 (h.hasSet hst).2
    · have hu : u.index < a.sets.size := (h.hasSet huv).1
      have hv : v.index < b.sets.size := (h.hasSet huv).2
      exact iff_of_false (Nat.lt_asymm hu) (Nat.lt_asymm hv)
    · exact iff_of_false (Nat.lt_irrefl _) (Nat.lt_irrefl _)
  · intro d
    exact (h.domains d).mono fun hst => List.mem_append_left _ hst

/-- One change is made to two sets that are paired. -/
theorem modifySet (h : Mirror pairs a b) {s t : SetId} (hst : pairs.Links s t)
    {f : FuzzySet α → FuzzySet α}
    (hf : ∀ x y : FuzzySet α, y.func = x.func → y.domain? = x.domain? → y.name? = x.name? →
      (f y).func = (f x).func ∧ (f y).domain? = (f x).domain? ∧ (f y).name? = (f x).name?) :
    Mirror pairs (a.modifySet s f) (b.modifySet t f) := by
  have hset : ∀ {u v}, pairs.Links u v →
      ((b.modifySet t f).setAt v).func = ((a.modifySet s f).setAt u).func ∧
      ((b.modifySet t f).setAt v).domain? = ((a.modifySet s f).setAt u).domain? ∧
      ((b.modifySet t f).setAt v).name? = ((a.modifySet s f).setAt u).name? := by
    intro u v huv
    by_cases hu : u = s
    · -- the partner of the changed set is the changed set of the other run
      have hv : v = t := (h.eq_iff huv hst).mp hu
      subst hu hv
      rw [Store.setAt_modifySet_self f (h.hasSet hst).1, Store.setAt_modifySet_self f (h.hasSet hst).2]
      exact hf _ _ (h.func hst) (h.bound hst) (h.named hst)
    · have hv : v ≠ t := fun hv => hu ((h.eq_iff huv hst).mpr hv)
      rw [Store.setAt_modifySet_ne f hu, Store.setAt_modifySet_ne f hv]
      exact ⟨h.func huv, h.bound huv, h.named huv⟩
  exact ⟨fun huv => ⟨Store.hasSet_modifySet.mpr (h.hasSet huv).1,
      Store.hasSet_modifySet.mpr (h.hasSet huv).2⟩, fun huv => (hset huv).1, fun huv => (hset huv).2.1,
    fun huv => (hset huv).2.2, h.ascending, h.size, h.domains⟩

/-- Changes that keep the mirror are made to one domain. -/
theorem modifyDomain (h : Mirror pairs a b) {d : DomainId} {f g : Domain α → Domain α}
    (hfg : (f (a.domainAt d)).Mirrors pairs (g (b.domainAt d))) :
    Mirror pairs (a.modifyDomain d f) (b.modifyDomain d g) := by
  refine ⟨h.hasSet, h.func, h.bound, h.named, h.ascending, ?_, ?_⟩
  · simpa [Store.modifyDomain] using h.size
  · intro e
    have hhas : b.HasDomain d ↔ a.HasDomain d := by
      unfold Store.HasDomain
      rw [h.size]
    by_cases he : e = d
    · subst he
      by_cases ha : a.HasDomain e
      · rw [Store.domainAt_modifyDomain_self f ha, Store.domainAt_modifyDomain_self g (hhas.mpr ha)]
        exact hfg
      · have ha' : ¬ (a.modifyDomain e f).HasDomain e := by simpa using ha
        have hb' : ¬ (b.modifyDomain e g).HasDomain e := by simpa [hhas] using ha
        rw [Store.domainAt_of_not_hasDomain ha', Store.domainAt_of_not_hasDomain hb']
        exact ⟨rfl, rfl, rfl, rfl, .nil⟩
    · rw [Store.domainAt_modifyDomain_ne f he, Store.domainAt_modifyDomain_ne g he]
      exact h.domains e

/-- One domain without sets is added to both stores. -/
theorem addDomain (h : Mirror pairs a b) {domain : Domain α} (hempty : domain.sets.entries = []) :
    Mirror pairs (a.addDomain domain).2 (b.addDomain domain).2 := by
  refine ⟨h.hasSet, h.func, h.bound, h.named, h.ascending, ?_, ?_⟩
  · simpa [Store.addDomain] using h.size
  · intro d
    by_cases hd : d.index = a.domains.size
    · have hnew : ∀ (store : Store α), d.index = store.domains.size →
          (store.addDomain domain).2.domainAt d = domain := by
        intro store he
        simp [Store.addDomain, Store.domainAt, he]
      rw [hnew a hd, hnew b (hd.trans h.size.symm)]
      refine ⟨rfl, rfl, rfl, rfl, ?_⟩
      rw [hempty]
      exact .nil
    · have hd' : d.index ≠ b.domains.size := fun e => hd (e.trans h.size)
      have hold : ∀ (store : Store α), d.index ≠ store.domains.size →
          (store.addDomain domain).2.domainAt d = store.domainAt d := by
        intro store hne
        simp [Store.addDomain, Store.domainAt, Array.getElem?_push, hne]
      rw [hold a hd, hold b hd']
      exact h.domains d

end Mirror

end FuzzyInference

import FuzzyInference.Proofs.Double.Power
import FuzzyInference.Proofs.Store.Comparison
import FuzzyInference.Proofs.Store.Expression

/-!
# Hedges in order

A hedge raises every membership to a power. Of a degree the powers do not grow with the exponent, so that
the hedged sets lie in the order of their exponents, and a set itself lies among them as its own first
power. Comparing such sets shows it: they are sampled at the points of one grid, and at the spike of the set
that they were made from, if it is compared itself and its spike lies between two points.

## Contents
- `PowerIn`: a set that is, at the sample points of another one, a power of it. `pairwise_powers`,
  `PowerIn.compare_equal`: powers of a set compared.
- `PowerOf`: a set whose function is a power of that of another set. `mapM_deriveUnary`: such sets derived.
- `compare_hedged`: hedged sets compared.
-/

namespace FuzzyInference

open Scalar

/-- The exponent of an operator that raises memberships to a fixed power. -/
def UnaryOperator.exponent? {α : Type} [Scalar α] : UnaryOperator α → Option α
  | .hedged hedge => some hedge.exponent
  | .concentrated => some 2.0
  | .dilated => some 0.5
  | _ => none

namespace Store

variable {α : Type} [Scalar α]

/-! ## Powers of a set -/

/-- A set of a domain that at all sample points of another set has a power of its memberships. It is sampled
    at no other points: either it is no singleton, or it has the spike of that set. -/
structure PowerIn (store : Store α) (d : DomainId) (s : SetId) (p : α) (t : SetId) : Prop where
  reached : store.domainOf? t = some d
  call : ∀ x ∈ store.pointsIn d s, (store.call t x == pow (store.call s x) p) = true
  spike : (store.setAt t).func.spike? = none ∨
    (store.setAt t).func.spike? = (store.setAt s).func.spike?

section Powers

variable {store : Store α} {d : DomainId} {s t u : SetId} {p q : α}

/-- Where a function is sampled depends on its spike alone. -/
theorem pointsOf_of_spike {grid : Grid α} {func other : Membership α} (h : func.spike? = other.spike?) :
    pointsOf grid func = pointsOf grid other := by
  unfold pointsOf
  rw [h]

/-- A power is sampled at points of its base, since it brings no spike of its own. -/
theorem PowerIn.mem_points (h : store.PowerIn d s p t) {x : α} (hx : x ∈ store.pointsIn d t) :
    x ∈ store.pointsIn d s := by
  unfold pointsIn at hx ⊢
  rcases h.spike with hnone | hsame
  · rw [pointsOf, hnone] at hx
    exact mem_pointsOf hx _
  · rwa [pointsOf_of_spike hsame] at hx

/-- Two powers of one set never have spikes apart. -/
theorem PowerIn.not_spikesApart (ht : store.PowerIn d s p t) (hu : store.PowerIn d s q u) :
    ¬ store.SpikesApart d u t := by
  rintro ⟨c, e, hne, ⟨hc, -, -⟩, he, -, -⟩
  rcases ht.spike with hnone | hsame
  · cases hnone.symm.trans he
  · rcases hu.spike with hnone' | hsame'
    · cases hnone'.symm.trans hc
    · exact hne (Option.some.inj (hc.symm.trans (hsame'.trans (hsame.symm.trans he))))

variable [Ordered α]

/-- **Powers of a set are compared as their exponents are,** the other way around. -/
theorem PowerIn.compare_subset (laws : PowersOrdered α) (h : store.Coherent)
    (hunit : ∀ x ∈ store.pointsIn d s, inUnit (store.call s x) = true)
    (ht : store.PowerIn d s p t) (hu : store.PowerIn d s q u) (hp : (0.0 : α) ≤ p)
    (hq : isFinite q = true) (hpq : p ≤ q) :
    (compare .subset u t store).1 = .ok true ∧ (compare .superset t u store).1 = .ok true := by
  have hle : ∀ x ∈ store.pointsIn d s, store.call u x ≤ store.call t x := by
    intro x hx
    have hpowers := laws.antitone (hunit x hx) hp hq hpq
    have hbelow := (Ordered.beq_iff.mp (hu.call x hx)).1
    have habove := (Ordered.beq_iff.mp (ht.call x hx)).2
    exact Ordered.le_trans hbelow (Ordered.le_trans hpowers habove)
  have hpoints : ∀ x, x ∈ store.pointsIn d u ∨ x ∈ store.pointsIn d t → x ∈ store.pointsIn d s :=
    fun x hx => hx.elim hu.mem_points ht.mem_points
  rw [compare_eq h hu.reached ht.reached, compare_eq h ht.reached hu.reached]
  refine ⟨congrArg Except.ok ?_, congrArg Except.ok ?_⟩
  · rw [related_iff_of_ne (by decide) (ht.not_spikesApart hu)]
    exact fun x hx => decide_eq_true (hle x (hpoints x (List.mem_append.mp hx)))
  · rw [related_iff_of_ne (by decide) (hu.not_spikesApart ht)]
    exact fun x hx => decide_eq_true (hle x (hpoints x (List.mem_append.mp hx).symm))

/-- Powers listed by falling exponents are listed by growing memberships. -/
theorem pairwise_powers (laws : PowersOrdered α) (h : store.Coherent)
    (hunit : ∀ x ∈ store.pointsIn d s, inUnit (store.call s x) = true) {powers : List (α × SetId)}
    (hpowers : ∀ power ∈ powers, store.PowerIn d s power.1 power.2)
    (hexponents : (powers.map Prod.fst).Pairwise fun q p => p ≤ q)
    (hallowed : ∀ p ∈ powers.map Prod.fst, (0.0 : α) ≤ p ∧ isFinite p = true) :
    (powers.map Prod.snd).Pairwise fun t u =>
      (compare .subset t u store).1 = .ok true ∧ (compare .superset u t store).1 = .ok true := by
  rw [List.pairwise_map] at hexponents ⊢
  refine hexponents.imp_of_mem fun {high low} hhigh hlow hle => ?_
  have hlow' := (hallowed _ (List.mem_map_of_mem hlow)).1
  have hhigh' := (hallowed _ (List.mem_map_of_mem hhigh)).2
  exact (hpowers low hlow).compare_subset laws h hunit (hpowers high hhigh) hlow' hhigh' hle

omit [Ordered α] in
/-- Sets sampled at the same points and equal there are equal. -/
theorem related_equal_of_points (hpoints : store.pointsIn d t = store.pointsIn d u)
    (hcall : ∀ x ∈ store.pointsIn d u, (store.call t x == store.call u x) = true) :
    store.related d .equal t u = true := by
  unfold related
  rw [hpoints, if_pos rfl]
  simpa [List.zip_eq_zipWith, List.zipWith_self, Relation.holds] using hcall

/-- The same power, derived twice, compares as equal. -/
theorem PowerIn.compare_equal (h : store.Coherent) (ht : store.PowerIn d s p t)
    (hu : store.PowerIn d s p u) (hspike : (store.setAt t).func.spike? = (store.setAt u).func.spike?) :
    (compare .equal t u store).1 = .ok true := by
  rw [compare_eq h ht.reached hu.reached]
  refine congrArg Except.ok (related_equal_of_points (pointsOf_of_spike hspike) fun x hx => ?_)
  have hx := hu.mem_points hx
  exact Ordered.beq_trans (ht.call x hx) (Ordered.beq_symm (hu.call x hx))

/-- A set of degrees is its own first power. -/
theorem powerIn_self (laws : PowersOrdered α) (hd : store.domainOf? s = some d)
    (hunit : ∀ x ∈ store.pointsIn d s, inUnit (store.call s x) = true) : store.PowerIn d s 1.0 s :=
  ⟨hd, fun x hx => Ordered.beq_symm (laws.one (hunit x hx)), Or.inr rfl⟩

end Powers

/-! ## Deriving powers -/

section Deriving

variable {store after : Store α} {d : DomainId} {s t : SetId} {p : α} {op : UnaryOperator α}

theorem Extends.call (h : Extends store after) (hs : store.HasSet s) (x : α) :
    after.call s x = store.call s x := by
  unfold Store.call
  rw [h.func hs]

/-- Sample points survive whatever extends the store. -/
theorem Extends.pointsIn (h : Extends store after) (hs : store.HasSet s) (hd : store.HasDomain d) :
    after.pointsIn d s = store.pointsIn d s := by
  unfold Store.pointsIn
  rw [h.func hs, h.grid hd]

/-- A set with a power of another set's function, in a domain. -/
structure PowerOf (store : Store α) (d : DomainId) (s : SetId) (p : α) (t : SetId) : Prop where
  func : (store.setAt t).func = .power p (store.setAt s).func
  bound : (store.setAt t).domain? = some d

/-- A power of a set stays one in every later store. -/
theorem PowerOf.mono (h : store.PowerOf d s p t) (hs : store.HasSet s) (hext : Extends store after) :
    after.PowerOf d s p t := by
  refine ⟨?_, hext.bound h.bound⟩
  rw [hext.func (hasSet_of_bound h.bound), hext.func hs]
  exact h.func

omit [Scalar α] in
/-- The function of a power is no spike, even where its base's is. -/
theorem PowerOf.spike (h : store.PowerOf d s p t) : (store.setAt t).func.spike? = none := by
  rw [h.func]
  rfl

/-- Given the laws of powers, a power in the syntactic sense has the values of one at every point.
-/
theorem PowerOf.powerIn [Ordered α] (h : store.PowerOf d s p t) (laws : PowersOrdered α)
    (hlive : store.isLive d = true) (hunit : ∀ x ∈ store.pointsIn d s, inUnit (store.call s x) = true)
    (hp : (0.0 : α) ≤ p) (hfinite : isFinite p = true) : store.PowerIn d s p t := by
  refine ⟨domainOf?_eq_some_iff.mpr ⟨h.bound, hlive⟩, fun x hx => ?_, Or.inl h.spike⟩
  have hcall : store.call t x = pow (store.call s x) p := by
    unfold Store.call
    rw [h.func]
    rfl
  -- a power that is comparable is a number
  have hle := laws.antitone (hunit x hx) hp hfinite (Ordered.le_refl (Ordered.not_isNaN_of_le hp).2)
  rw [hcall]
  exact Ordered.beq_refl (Ordered.not_isNaN_of_le hle).1

/-- A hedge is the power with its exponent. -/
theorem deriveUnary_of_exponent (hop : op.exponent? = some p) (s : SetId) :
    deriveUnary op s = reshaped s fun func => .ok (.power p func) := by
  cases op with
  | hedged hedge | concentrated | dilated =>
    cases hop
    rfl
  | _ => cases hop

/-- Deriving a hedge always succeeds, in making a set in the domain of its base. -/
theorem powerOf_deriveUnary (hop : op.exponent? = some p) (hs : (store.setAt s).domain? = some d) :
    ∃ t later, deriveUnary op s store = (.ok t, later) ∧ Changes store later ∧ AddsSets store later ∧
      later.PowerOf d s p t := by
  have hnew := setAt_addFresh_self store (.power p (store.setAt s).func) (some d)
  have hold := setAt_addFresh_of_hasSet (hasSet_of_bound hs) (.power p (store.setAt s).func) (some d)
  refine ⟨⟨store.sets.size⟩, (store.addFresh (.power p (store.setAt s).func) (some d)).2, ?_, ?_,
    addsSets_addFresh store _ _, ?_, ?_⟩
  · rw [deriveUnary_of_exponent hop, reshaped_apply, hs]
  · exact hs ▸ .single (.deriveSet s _)
  · rw [hnew, hold]
    rfl
  · rw [hnew]
    rfl

/-- Powers derived one after the other from one set. -/
theorem mapM_deriveUnary (ops : List (UnaryOperator α)) (hops : ∀ op ∈ ops, op.exponent?.isSome = true)
    (hs : (store.setAt s).domain? = some d) :
    ∃ ts last, (ops.mapM fun op => deriveUnary op s) store = (.ok ts, last) ∧ Changes store last ∧
      AddsSets store last ∧
      List.Forall₂ (fun op t => ∀ p, op.exponent? = some p → last.PowerOf d s p t) ops ts := by
  induction ops generalizing store with
  | nil => exact ⟨[], store, rfl, .refl, .refl store, .nil⟩
  | cons op ops ih =>
    obtain ⟨hop, hops⟩ := List.forall_mem_cons.mp hops
    obtain ⟨p, hp⟩ := Option.isSome_iff_exists.mp hop
    obtain ⟨t, later, hrun, hchanges, hadded, ht⟩ := powerOf_deriveUnary hp hs
    have hs' := hchanges.extends.bound hs
    obtain ⟨ts, last, hrest, hchanges', hadded', hts⟩ := ih hops hs'
    refine ⟨t :: ts, last, ?_, hchanges.trans hchanges', hadded.trans hadded', .cons (fun q hq => ?_) hts⟩
    · rw [List.mapM_cons, Action.bind_of_ok hrun, Action.bind_of_ok hrest]
      rfl
    · cases hp.symm.trans hq
      exact ht.mono (hasSet_of_bound hs') hchanges'.extends

end Deriving

/-! ## Hedged sets -/

section Hedged

/-- The exponents of the hedges and of the two other powers, and 1 for the set itself, all falling. -/
def exponents : List α := [2.0, 1.25, 1.0, 0.75, 0.5]

variable [Ordered α] {store : Store α} {s : SetId} {d : DomainId}
  (laws : PowersOrdered α) (hfalling : (exponents : List α).Pairwise fun q p => p ≤ q)
  (hallowed : ∀ p ∈ (exponents : List α), (0.0 : α) ≤ p ∧ isFinite p = true)
  (hd : store.domainOf? s = some d) (hunit : ∀ x ∈ store.pointsIn d s, inUnit (store.call s x) = true)
include laws hfalling hallowed hd hunit

/-- Hedged sets that are there, compared. -/
theorem compare_powersOf (h : store.Coherent) {very plus minus squared rooted : SetId}
    (hvery : store.PowerOf d s 2.0 very) (hplus : store.PowerOf d s 1.25 plus)
    (hminus : store.PowerOf d s 0.75 minus) (hsquared : store.PowerOf d s 2.0 squared)
    (hrooted : store.PowerOf d s 0.5 rooted) :
    ([very, plus, s, minus, rooted].Pairwise fun t u =>
      (compare .subset t u store).1 = .ok true ∧ (compare .superset u t store).1 = .ok true) ∧
    (compare .equal very squared store).1 = .ok true := by
  have hpower : ∀ {p t}, store.PowerOf d s p t → p ∈ (exponents : List α) → store.PowerIn d s p t :=
    fun {p t} ht hp => ht.powerIn laws (domainOf?_eq_some_iff.mp hd).2 hunit (hallowed p hp).1 (hallowed p hp).2
  have hvery' := hpower hvery (by simp [exponents])
  have hall : ∀ power ∈ [(2.0, very), (1.25, plus), (1.0, s), (0.75, minus), (0.5, rooted)],
      store.PowerIn d s power.1 power.2 := by
    simp only [List.forall_mem_cons]
    exact ⟨hvery', hpower hplus (by simp [exponents]), powerIn_self laws hd hunit,
      hpower hminus (by simp [exponents]), hpower hrooted (by simp [exponents]), by simp⟩
  refine ⟨pairwise_powers laws h hunit hall hfalling hallowed, hvery'.compare_equal h ?_ ?_⟩
  · exact hpower hsquared (by simp [exponents])
  · rw [hvery.spike, hsquared.spike]

/-- Hedged sets are derived, and compared then or later. -/
theorem compare_derived (hstore : Reachable store) :
    ∃ very plus minus squared rooted last,
      ([.hedged .very, .hedged .plus, .hedged .minus, .concentrated, .dilated].mapM
        fun op => deriveUnary op s) store = (.ok [very, plus, minus, squared, rooted], last) ∧
      last.isLive d = true ∧ ∀ final, Steps last final → final.isLive d = true →
        ([very, plus, s, minus, rooted].Pairwise fun t u =>
          (compare .subset t u final).1 = .ok true ∧ (compare .superset u t final).1 = .ok true) ∧
        (compare .equal very squared final).1 = .ok true := by
  obtain ⟨hbound, hlive⟩ := domainOf?_eq_some_iff.mp hd
  obtain ⟨ts, last, hrun, hchanges, hadded, hts⟩ := mapM_deriveUnary
    [.hedged .very, .hedged .plus, .hedged .minus, .concentrated, .dilated]
    (by simp [UnaryOperator.exponent?]) hbound
  rcases hts with _ | ⟨hvery, _ | ⟨hplus, _ | ⟨hminus, _ | ⟨hsquared, _ | ⟨hrooted, _ | _⟩⟩⟩⟩⟩
  rename_i very plus minus squared rooted
  refine ⟨very, plus, minus, squared, rooted, last, hrun, ?_, fun final hsteps hlive' => ?_⟩
  · unfold isLive domainAt
    rw [hadded.domains]
    exact hlive
  -- what was derived is still there in the end, and so is the set that it was derived from
  have hs := hasSet_of_bound hbound
  have hlast : ∀ {p t}, last.PowerOf d s p t → final.PowerOf d s p t := fun ht =>
    ht.mono (hadded.hasSet hs) hsteps.changes.extends
  have hext := hchanges.extends.trans hsteps.changes.extends
  refine compare_powersOf laws hfalling hallowed
    (domainOf?_eq_some_iff.mpr ⟨hext.bound hbound, hlive'⟩) ?_
    (hsteps.changes.coherent (hchanges.coherent hstore.coherent)) (hlast (hvery _ rfl))
    (hlast (hplus _ rfl)) (hlast (hminus _ rfl)) (hlast (hsquared _ rfl)) (hlast (hrooted _ rfl))
  rw [hext.pointsIn hs (hasDomain_of_isLive hlive)]
  intro x hx
  rw [hext.call hs]
  exact hunit x hx

end Hedged

/-! ### In machine numbers -/

open Double

/-- What elementary functions stand in does not show in the order of doubles. -/
theorem ordered_withElementary (E : Elementary Float) : @Ordered Float (withElementary E) := by
  have h : Ordered Float := inferInstance
  exact @Ordered.mk Float (withElementary E) h.not_isNaN_of_le h.le_total h.le_trans h.lt_iff h.beq_iff
    h.not_isNaN_complement h.complement_le

/-- **Hedged sets in order.** Let powers of degrees not grow with the exponent, and let the first power of a
    degree be the degree. In every run, let a set reach a domain and have memberships between 0 and 1 at its
    sample points; it may be a singleton with its spike between grid points. The hedges and the two other
    powers can be derived from it, and from then on, as long as the domain lives, whatever else happens and
    is kept: of the sets under `very` and `plus`, the set itself, that under `minus` and its square root,
    each one is a subset of all later ones and these are supersets of it, and the set under `very` is equal
    to the square. -/
theorem compare_hedged {E : Elementary Float} (hE : @PowersOrdered Float (withElementary E)) :
    letI : Scalar Float := withElementary E
    ∀ {store : Store Float}, Reachable store → ∀ {s : SetId} {d : DomainId}, store.domainOf? s = some d →
      (∀ x ∈ store.pointsIn d s, inUnit (store.call s x) = true) →
      ∃ very plus minus squared rooted last,
        ([.hedged .very, .hedged .plus, .hedged .minus, .concentrated, .dilated].mapM
          fun op => deriveUnary op s) store = (.ok [very, plus, minus, squared, rooted], last) ∧
        last.isLive d = true ∧ ∀ final, Steps last final → final.isLive d = true →
          ([very, plus, s, minus, rooted].Pairwise fun t u =>
            (compare .subset t u final).1 = .ok true ∧ (compare .superset u t final).1 = .ok true) ∧
          (compare .equal very squared final).1 = .ok true := by
  have hfalling : (exponents : List Float).Pairwise fun q p => p ≤ q := by decide +kernel
  have hallowed : ∀ p ∈ (exponents : List Float), (0.0 : Float) ≤ p ∧ isFinite p = true := by
    decide +kernel
  let _ : Scalar Float := withElementary E
  have : Ordered Float := ordered_withElementary E
  intro store hstore s d hd hunit
  exact compare_derived hE hfalling hallowed hd hunit hstore

/-- A singleton with its spike between grid points, under powers that are rounded. -/
noncomputable def hedgedSpike : Store Float :=
  letI : Scalar Float := withElementary roundedPower
  Store.empty.runAll [.newDomain "x" 0 10 none, .newSet (.shape (.singleton 2.5 0.25 1)), .bind ⟨0⟩ ⟨0⟩]

/-- The chain of hedges of a spike between grid points, under powers that are rounded. -/
theorem compare_hedged_spike :
    letI : Scalar Float := withElementary roundedPower
    PowersOrdered Float ∧ Reachable hedgedSpike ∧ hedgedSpike.domainOf? ⟨0⟩ = some ⟨0⟩ ∧
      (∀ x ∈ hedgedSpike.pointsIn ⟨0⟩ ⟨0⟩, inUnit (hedgedSpike.call ⟨0⟩ x) = true) ∧
      ∃ very plus minus squared rooted last,
        ([.hedged .very, .hedged .plus, .hedged .minus, .concentrated, .dilated].mapM
          fun op => deriveUnary op ⟨0⟩) hedgedSpike = (.ok [very, plus, minus, squared, rooted], last) ∧
        (compare .subset plus ⟨0⟩ last).1 = .ok true ∧ (compare .equal very squared last).1 = .ok true := by
  let _ : Scalar Float := withElementary roundedPower
  have hrun : Reachable hedgedSpike := reachable_runAll (by decide +kernel)
  have hd : hedgedSpike.domainOf? ⟨0⟩ = some ⟨0⟩ := by decide +kernel
  have hunit : ∀ x ∈ hedgedSpike.pointsIn ⟨0⟩ ⟨0⟩, inUnit (hedgedSpike.call ⟨0⟩ x) = true := by
    decide +kernel
  obtain ⟨very, plus, minus, squared, rooted, last, hderived, hlive, hall⟩ :=
    compare_hedged powersOrdered_roundedPower hrun hd hunit
  obtain ⟨hpairs, hequal⟩ := hall last .refl hlive
  refine ⟨powersOrdered_roundedPower, hrun, hd, hunit, very, plus, minus, squared, rooted, last, hderived,
    ?_, hequal⟩
  simp only [List.pairwise_cons, List.mem_cons] at hpairs
  exact (hpairs.2.1 ⟨0⟩ (by simp)).1

end Store

end FuzzyInference

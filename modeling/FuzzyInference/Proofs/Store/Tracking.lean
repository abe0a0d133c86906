import FuzzyInference.Proofs.Store.Pairing
import FuzzyInference.Proofs.Store.Registry

/-!
# The same steps in two runs

An action that changes domains, bindings and names does to two stores that mirror each other the same,
and answers the same up to the pairing. It need not be the same action: a set that it names is replaced by
its partner.

## Contents
- `Matches`, `MatchesUpTo`: outcomes that are the same up to a relation of their values, and of their
  failures.
- `forall₂_put`, `forall₂_drop`, `rel_lookup`: maps whose entries correspond.
- `Grows`, `Tracks`, `Tracks.bind`: two actions that keep up with each other.
- `tracks_newDomain`, `tracks_register`, `tracks_buildAll`, `tracks_deriveBinary` and the like: one lemma
  for each action.
-/

namespace FuzzyInference

/-! ## Outcomes -/

/-- Both outcomes are failures for one reason, or both are values that are related. -/
inductive Matches {ε β γ : Type} (Q : β → γ → Prop) : Except ε β → Except ε γ → Prop where
  | ok {x : β} {y : γ} (h : Q x y) : Matches Q (.ok x) (.ok y)
  | error (e : ε) : Matches Q (.error e) (.error e)

namespace Matches

variable {ε β γ δ ζ : Type} {Q : β → γ → Prop} {P : δ → ζ → Prop} {o : Except ε β} {u : Except ε γ}

/-- Outcomes that match, continued by functions that match wherever the first results do. -/
theorem bind {f : β → Except ε δ} {g : γ → Except ε ζ} (h : Matches Q o u)
    (hfg : ∀ {x y}, Q x y → Matches P (f x) (g y)) : Matches P (o >>= f) (u >>= g) := by
  cases h with
  | ok h => exact hfg h
  | error e => exact .error e

theorem map {f : β → δ} {g : γ → ζ} (h : Matches Q o u) (hfg : ∀ {x y}, Q x y → P (f x) (g y)) :
    Matches P (o.map f) (u.map g) := by
  cases h with
  | ok h => exact .ok (hfg h)
  | error e => exact .error e

theorem of_eq {o u : Except ε β} (h : u = o) : Matches Eq o u := by
  subst h
  cases u with
  | ok x => exact .ok rfl
  | error e => exact .error e

/-- Going through two lists whose elements correspond. -/
theorem mapM {R : β → γ → Prop} {xs : List β} {ys : List γ} {f : β → Except ε δ}
    {g : γ → Except ε ζ} (h : List.Forall₂ R xs ys) (hfg : ∀ {x y}, R x y → Matches P (f x) (g y)) :
    Matches (List.Forall₂ P) (xs.mapM f) (ys.mapM g) := by
  induction h with
  | nil => exact .ok .nil
  | cons hxy _ ih =>
    rw [List.mapM_cons, List.mapM_cons]
    refine (hfg hxy).bind fun hz => ?_
    exact ih.bind fun hzs => .ok (.cons hz hzs)

end Matches

/-- Both outcomes are failures that are related, or both are values that are. -/
inductive MatchesUpTo {ε β γ : Type} (F : ε → ε → Prop) (Q : β → γ → Prop) :
    Except ε β → Except ε γ → Prop where
  | ok {x : β} {y : γ} (h : Q x y) : MatchesUpTo F Q (.ok x) (.ok y)
  | error {e f : ε} (h : F e f) : MatchesUpTo F Q (.error e) (.error f)

namespace MatchesUpTo

variable {ε β γ δ ζ : Type} {F G : ε → ε → Prop} {Q : β → γ → Prop} {P : δ → ζ → Prop}
  {o : Except ε β} {u : Except ε γ}

/-- A coarser comparison of errors keeps a match. -/
theorem mono (h : MatchesUpTo F Q o u) (hFG : ∀ {e f}, F e f → G e f) : MatchesUpTo G Q o u := by
  cases h with
  | ok h => exact .ok h
  | error h => exact .error (hFG h)

theorem map {f : β → δ} {g : γ → ζ} (h : MatchesUpTo F Q o u)
    (hfg : ∀ {x y}, Q x y → P (f x) (g y)) : MatchesUpTo F P (o.map f) (u.map g) := by
  cases h with
  | ok h => exact .ok (hfg h)
  | error h => exact .error h

end MatchesUpTo

/-- Two actions whose outcomes match either both end with their failure or both hand over to what comes
    next. -/
theorem Action.bind_matches {α β γ δ ζ : Type} {a b : Store α} {Q : β → γ → Prop}
    {act : Action α β} {act' : Action α γ} (h : Matches Q (act a).1 (act' b).1)
    (next : β → Action α δ) (next' : γ → Action α ζ) :
    (∃ e, (act >>= next) a = (.error e, (act a).2) ∧ (act' >>= next') b = (.error e, (act' b).2)) ∨
      ∃ x y, Q x y ∧ (act >>= next) a = next x (act a).2 ∧
        (act' >>= next') b = next' y (act' b).2 := by
  rcases ha : act a with ⟨o, a'⟩
  rcases hb : act' b with ⟨u, b'⟩
  rw [ha, hb] at h
  cases h with
  | error e => exact Or.inl ⟨e, bind_of_error ha, bind_of_error hb⟩
  | ok hxy => exact Or.inr ⟨_, _, hxy, bind_of_ok ha, bind_of_ok hb⟩

/-! ## Maps entry by entry -/

namespace OrderedMap

variable {κ ν μ : Type} [DecidableEq κ] {S : κ → κ → Prop} {R : ν → μ → Prop}

/-- Two lists of entries with corresponding keys correspond after corresponding puts. The key
relation must be one to one, since a put looks for its key. -/
theorem forall₂_put {k l : κ} {v : ν} {w : μ} {es : List (κ × ν)} {fs : List (κ × μ)}
    (h : List.Forall₂ (fun e f => S e.1 f.1 ∧ R e.2 f.2) es fs)
    (hkey : ∀ i j, S i j → (i = k ↔ j = l)) (hkl : S k l) (hvw : R v w) :
    List.Forall₂ (fun e f => S e.1 f.1 ∧ R e.2 f.2) (put k v es) (put l w fs) := by
  induction h with
  | nil => exact .cons ⟨hkl, hvw⟩ .nil
  | @cons e f es fs he hes ih =>
    have hiff := hkey e.1 f.1 he.1
    unfold put
    by_cases hk : e.1 = k
    · rw [if_pos hk, if_pos (hiff.mp hk)]
      exact .cons ⟨hkl, hvw⟩ hes
    · rw [if_neg hk, if_neg fun hl => hk (hiff.mpr hl)]
      exact .cons he ih

/-- Dropping a key that both lists spell alike keeps them corresponding. -/
theorem forall₂_drop {k : κ} {es : List (κ × ν)} {fs : List (κ × μ)}
    (h : List.Forall₂ (fun e f => e.1 = f.1 ∧ R e.2 f.2) es fs) :
    List.Forall₂ (fun e f => e.1 = f.1 ∧ R e.2 f.2) (drop k es) (drop k fs) := by
  induction h with
  | nil => exact .nil
  | @cons e f es fs he _ ih =>
    unfold drop at ih ⊢
    rw [List.filter_cons, List.filter_cons, he.1]
    split
    · exact .cons he ih
    · exact ih

/-- Corresponding keys look up corresponding values, or are missing from both. -/
theorem rel_lookup {k l : κ} {es : List (κ × ν)} {fs : List (κ × μ)}
    (h : List.Forall₂ (fun e f => S e.1 f.1 ∧ R e.2 f.2) es fs)
    (hkey : ∀ i j, S i j → (i = k ↔ j = l)) : Option.Rel R (lookup k es) (lookup l fs) := by
  induction h with
  | nil => exact .none
  | @cons e f es fs he _ ih =>
    have hiff := hkey e.1 f.1 he.1
    unfold lookup
    by_cases hk : e.1 = k
    · rw [if_pos hk, if_pos (hiff.mp hk)]
      exact .some he.2
    · rw [if_neg hk, if_neg fun hl => hk (hiff.mpr hl)]
      exact ih

end OrderedMap

namespace Store

variable {α β γ δ ζ : Type} [Scalar α] {pairs : Pairing} {a b : Store α}

/-! ## Keeping up -/

/-- Two steps that made as many sets and left stores that mirror each other. -/
structure Grows (pairs : Pairing) (a b a' b' : Store α) : Prop where
  count : ∃ k, a'.sets.size = a.sets.size + k ∧ b'.sets.size = b.sets.size + k
  mirror : Mirror (pairs.grown a b a' b') a' b'

namespace Grows

variable {a' b' a'' b'' : Store α}

/-- Two steps that made no sets. -/
theorem of_size (h : Mirror pairs a' b') (ha : a'.sets.size = a.sets.size)
    (hb : b'.sets.size = b.sets.size) : Grows pairs a b a' b' :=
  ⟨⟨0, ha, hb⟩, by rw [Pairing.grown_of_left ha]; exact h⟩

/-- No step at all grows nothing. -/
theorem refl (h : Mirror pairs a b) : Grows pairs a b a b := of_size h rfl rfl

/-- Growing in two steps pairs what growing at once does. -/
theorem grown_eq (h : Grows pairs a b a' b') (k : Grows (pairs.grown a b a' b') a' b' a'' b'') :
    (pairs.grown a b a' b').grown a' b' a'' b'' = pairs.grown a b a'' b'' := by
  obtain ⟨i, ha, hb⟩ := h.count
  obtain ⟨j, ha', hb'⟩ := k.count
  exact Pairing.grown_grown ha hb ha' hb'

theorem trans (h : Grows pairs a b a' b') (k : Grows (pairs.grown a b a' b') a' b' a'' b'') :
    Grows pairs a b a'' b'' := by
  refine ⟨?_, ?_⟩
  · obtain ⟨i, ha, hb⟩ := h.count
    obtain ⟨j, ha', hb'⟩ := k.count
    exact ⟨i + j, by omega, by omega⟩
  · rw [← h.grown_eq k]
    exact k.mirror

end Grows

/-- Two actions keep up with each other: they grow two stores alike, and their outcomes match under the
    pairing that they leave. -/
structure Tracks (pairs : Pairing) (a b : Store α) (Q : Pairing → β → γ → Prop)
    (act : Action α β) (act' : Action α γ) : Prop where
  grows : Grows pairs a b (act a).2 (act' b).2
  outcome : Matches (Q (pairs.grown a b (act a).2 (act' b).2)) (act a).1 (act' b).1

namespace Tracks

variable {Q : Pairing → β → γ → Prop} {P : Pairing → δ → ζ → Prop} {act : Action α β}
  {act' : Action α γ}

/-- Actions that track each other, continued by actions that do from the grown stores on. -/
theorem bind {next : β → Action α δ} {next' : γ → Action α ζ} (h : Tracks pairs a b Q act act')
    (hnext : ∀ {x y a' b'}, Grows pairs a b a' b' → Q (pairs.grown a b a' b') x y →
      Tracks (pairs.grown a b a' b') a' b' P (next x) (next' y)) :
    Tracks pairs a b P (act >>= next) (act' >>= next') := by
  rcases Action.bind_matches h.outcome next next' with ⟨e, ha, hb⟩ | ⟨x, y, hxy, ha, hb⟩
  · refine ⟨?_, ?_⟩ <;> rw [ha, hb]
    · exact h.grows
    · exact .error e
  · obtain ⟨hlater, hlast⟩ := hnext h.grows hxy
    refine ⟨?_, ?_⟩ <;> rw [ha, hb]
    · exact h.grows.trans hlater
    · rw [← h.grows.grown_eq hlater]
      exact hlast

theorem pure (h : Mirror pairs a b) {x : β} {y : γ} (hxy : Q pairs x y) :
    Tracks pairs a b Q (pure x) (pure y) := by
  refine ⟨.refl h, .ok ?_⟩
  show Q (pairs.grown a b a b) x y
  rw [Pairing.grown_of_left rfl]
  exact hxy

/-- One outcome that leaves both stores alone. -/
theorem ofExcept {o u : Except (FuzzyError α) β} {next : β → Action α δ} {next' : β → Action α ζ}
    (h : Mirror pairs a b) (hou : u = o)
    (hnext : ∀ x, Tracks pairs a b P (next x) (next' x)) :
    Tracks pairs a b P (Action.ofExcept o >>= next) (Action.ofExcept u >>= next') := by
  subst hou
  cases u with
  | error e => exact ⟨.refl h, .error e⟩
  | ok x => exact hnext x

/-- What is done next depends on the stores as they are. -/
theorem get {next : Store α → Action α δ} {next' : Store α → Action α ζ}
    (hnext : Tracks pairs a b P (next a) (next' b)) :
    Tracks pairs a b P (MonadState.get >>= next) (MonadState.get >>= next') :=
  ⟨hnext.grows, hnext.outcome⟩

end Tracks

end Store

/-! ## Owners -/

namespace Mirror

open Store

variable {α : Type} [Scalar α] {pairs : Pairing} {a b : Store α}

/-- Two mirroring stores stay so when one more reference to a domain is taken, or given back, in
both. -/
theorem retain (h : Mirror pairs a b) (d : DomainId) : Mirror pairs (a.retain d) (b.retain d) := by
  refine h.modifyDomain ?_
  obtain ⟨hname, hgrid, hres, howners, hsets⟩ := h.domains d
  rw [howners]
  split
  · exact ⟨hname, hgrid, hres, rfl, hsets⟩
  · exact h.domains d

theorem release (h : Mirror pairs a b) (d : DomainId) : Mirror pairs (a.release d) (b.release d) := by
  refine h.modifyDomain ?_
  obtain ⟨hname, hgrid, hres, howners, hsets⟩ := h.domains d
  exact ⟨hname, hgrid, hres, congrArg (· - 1) howners, hsets⟩

end Mirror

namespace Store

variable {α β γ : Type} [Scalar α] {pairs : Pairing} {a b : Store α}

omit [Scalar α] in
@[simp] theorem size_modifySet (store : Store α) (s : SetId) (f : FuzzySet α → FuzzySet α) :
    (store.modifySet s f).sets.size = store.sets.size := by simp [modifySet]

omit [Scalar α] in
@[simp] theorem size_addFresh (store : Store α) (func : Membership α) (domain? : Option DomainId) :
    (store.addFresh func domain?).2.sets.size = store.sets.size + 1 := by simp [addFresh]

/-- A domain is given back in both runs if both actions fail. -/
theorem Tracks.tryRelease {Q : Pairing → β → γ → Prop} {act : Action α β} {act' : Action α γ}
    (h : Tracks pairs a b Q act act') (d : DomainId) :
    Tracks pairs a b Q
      (tryCatch act fun e => do
        modify fun store => store.release d
        throw e)
      (tryCatch act' fun e => do
        modify fun store => store.release d
        throw e) := by
  obtain ⟨hgrows, houtcome⟩ := h
  rcases ha : act a with ⟨o, a'⟩
  rcases hb : act' b with ⟨u, b'⟩
  rw [ha, hb] at hgrows houtcome
  cases houtcome with
  | error e =>
    refine ⟨?_, ?_⟩ <;> rw [Action.tryCatch_apply, Action.tryCatch_apply, ha, hb]
    · exact ⟨hgrows.count, hgrows.mirror.release d⟩
    · exact .error e
  | ok hxy =>
    refine ⟨?_, ?_⟩ <;> rw [Action.tryCatch_apply, Action.tryCatch_apply, ha, hb]
    · exact hgrows
    · exact .ok hxy

/-! ## Making domains and sets -/

/-- A new domain gets the same id in both stores, or is refused in both. -/
theorem tracks_newDomain (h : Mirror pairs a b) (name : String) (low high : α) (res? : Option α) :
    Tracks pairs a b (fun _ => Eq) (newDomain name low high res?) (newDomain name low high res?) := by
  cases hmake : Domain.make name low high (res?.getD 1.0) with
  | error e =>
    have hrun : ∀ store : Store α, newDomain name low high res? store = (.error e, store) := by
      intro store
      unfold newDomain
      rw [hmake]
    refine ⟨?_, ?_⟩ <;> rw [hrun, hrun]
    · exact .refl h
    · exact .error e
  | ok domain =>
    have hrun : ∀ store : Store α, newDomain name low high res? store =
        (.ok ⟨store.domains.size⟩, (store.addDomain domain).2) := by
      intro store
      unfold newDomain
      rw [hmake]
      rfl
    obtain rfl := (Domain.make_eq_ok_iff.mp hmake).2.2.2.2
    refine ⟨?_, ?_⟩ <;> rw [hrun, hrun]
    · exact .of_size (h.addDomain rfl) rfl rfl
    · exact .ok (congrArg DomainId.mk h.size.symm)

/-- A set that two actions make of one function, with one binding. -/
theorem tracks_addFresh (h : Mirror pairs a b) (func : Membership α) (domain? : Option DomainId)
    {act act' : Action α SetId} (ha : act a = (.ok ⟨a.sets.size⟩, (a.addFresh func domain?).2))
    (hb : act' b = (.ok ⟨b.sets.size⟩, (b.addFresh func domain?).2)) :
    Tracks pairs a b Pairing.Links act act' := by
  have hgrown : pairs.grown a b (a.addFresh func domain?).2 (b.addFresh func domain?).2 =
      pairs ++ [(⟨a.sets.size⟩, ⟨b.sets.size⟩)] :=
    Pairing.grown_one (size_addFresh a func domain?) (size_addFresh b func domain?)
  refine ⟨?_, ?_⟩ <;> rw [ha, hb]
  · refine ⟨⟨1, size_addFresh a func domain?, size_addFresh b func domain?⟩, ?_⟩
    rw [hgrown]
    exact h.addFresh func domain?
  · refine .ok ?_
    rw [hgrown]
    exact List.mem_append_right _ (List.mem_singleton_self _)

/-- A new set of one function is a new pair. -/
theorem tracks_newSet (h : Mirror pairs a b) (func : Membership α) :
    Tracks pairs a b Pairing.Links (newSet func) (newSet func) :=
  tracks_addFresh h func none rfl rfl

/-- Sets derived from paired ones are a new pair. -/
theorem tracks_derive (h : Mirror pairs a b) {s t : SetId} (hst : pairs.Links s t)
    (func : Membership α) : Tracks pairs a b Pairing.Links (derive s func) (derive t func) := by
  refine tracks_addFresh h func (a.setAt s).domain? rfl ?_
  rw [← h.bound hst]
  rfl

/-! ## Binding and registering -/

section Linked

variable {s t : SetId}

theorem checkDomainBinding_linked (h : Mirror pairs a b) (hst : pairs.Links s t) (d : DomainId) :
    b.checkDomainBinding t d = a.checkDomainBinding s d := by
  unfold checkDomainBinding
  rw [h.bound hst, h.label hst, (h.domains d).name]

theorem checkNameBinding_linked (h : Mirror pairs a b) (hst : pairs.Links s t) (name : String) :
    b.checkNameBinding t name = a.checkNameBinding s name := by
  unfold checkNameBinding
  rw [h.named hst, h.label hst]

/-- Registration is allowed for both of a pair or refused, with one error, for both. -/
theorem checkRegistration_linked (h : Mirror pairs a b) (hst : pairs.Links s t) (d : DomainId)
    (name : String) : b.checkRegistration d name t = a.checkRegistration d name s := by
  unfold checkRegistration
  rw [checkDomainBinding_linked h hst, checkNameBinding_linked h hst]

/-- Binding paired sets to one domain keeps the stores mirrored. -/
theorem mirror_bound (h : Mirror pairs a b) (hst : pairs.Links s t) (d : DomainId) :
    Mirror pairs (a.bound s d) (b.bound t d) :=
  h.modifySet hst fun _ _ hfunc hbound hnamed => ⟨hfunc, congrArg (·.or (some d)) hbound, hnamed⟩

theorem mirror_called (h : Mirror pairs a b) (hst : pairs.Links s t) (name : String) :
    Mirror pairs (a.called s name) (b.called t name) :=
  h.modifySet hst fun _ _ hfunc hbound hnamed => ⟨hfunc, hbound, congrArg (·.or (some name)) hnamed⟩

/-- Binding one of a pair answers as binding the other does. -/
theorem tracks_bind (h : Mirror pairs a b) (hst : pairs.Links s t) (d : DomainId) :
    Tracks pairs a b (fun _ => Eq) (bind s d) (bind t d) := by
  have hcheck := checkDomainBinding_linked h hst d
  refine ⟨?_, ?_⟩ <;> unfold bind <;> rw [hcheck] <;> cases a.checkDomainBinding s d
  · exact .refl h
  · exact .of_size (mirror_bound h hst d) (size_modifySet ..) (size_modifySet ..)
  · exact .error _
  · exact .ok rfl

/-- Registering one of a pair answers as registering the other does. -/
theorem tracks_register (h : Mirror pairs a b) (hst : pairs.Links s t) (d : DomainId)
    (name : String) :
    Tracks pairs a b (fun _ => Eq) (register d name s) (register d name t) := by
  have hcheck := checkRegistration_linked h hst d name
  refine ⟨?_, ?_⟩ <;> unfold register <;> rw [hcheck] <;> cases a.checkRegistration d name s
  · exact .refl h
  · -- the same name is entered for the two sets
    have hcalled := mirror_called (mirror_bound h hst d) hst name
    refine .of_size (hcalled.modifyDomain ?_) ?_ ?_
    · obtain ⟨hname, hgrid, hres, howners, hsets⟩ := hcalled.domains d
      exact ⟨hname, hgrid, hres, howners,
        OrderedMap.forall₂_put hsets (fun i j hij => by rw [hij]) rfl hst⟩
    · simp [bound, called, modifyDomain]
    · simp [bound, called, modifyDomain]
  · exact .error _
  · exact .ok rfl

end Linked

/-- Removing a name takes out a pair, or finds nothing in both. -/
theorem tracks_remove (h : Mirror pairs a b) (d : DomainId) (name : String) :
    Tracks pairs a b (fun pairs => Option.Rel pairs.Links) (remove d name) (remove d name) := by
  have hlookup : Option.Rel pairs.Links ((a.domainAt d).sets.get? name)
      ((b.domainAt d).sets.get? name) :=
    OrderedMap.rel_lookup (h.domains d).sets fun i j hij => by rw [hij]
  -- a name is registered on both sides or on neither
  rcases hs : (a.domainAt d).sets.get? name with _ | s <;>
    rcases ht : (b.domainAt d).sets.get? name with _ | t <;> rw [hs, ht] at hlookup
  · refine ⟨?_, ?_⟩ <;> rw [remove_of_absent hs, remove_of_absent ht]
    · exact .refl h
    · exact .ok .none
  · cases hlookup
  · cases hlookup
  · cases hlookup with
    | some hst =>
      refine ⟨?_, ?_⟩ <;> rw [remove_of_present hs, remove_of_present ht]
      · refine .of_size (h.modifyDomain ?_) rfl rfl
        obtain ⟨hname, hgrid, hres, howners, hsets⟩ := h.domains d
        exact ⟨hname, hgrid, hres, howners, OrderedMap.forall₂_drop hsets⟩
      · refine .ok (.some ?_)
        have hsize : ∀ f : Domain α → Domain α, (a.modifyDomain d f).sets.size = a.sets.size :=
          fun _ => rfl
        rw [Pairing.grown_of_left (hsize _)]
        exact hst

/-! ## Building -/

theorem tracks_registerFunction (h : Mirror pairs a b) (d : DomainId) (name : String)
    (func : Membership α) :
    Tracks pairs a b Pairing.Links (registerFunction d name func) (registerFunction d name func) := by
  refine (tracks_newSet h func).bind fun hgrows hst => ?_
  refine (tracks_register hgrows.mirror hst d name).bind fun hlater _ => ?_
  exact .pure hlater.mirror hst.grown

/-- Entering a row of functions. The induction is on the row, the stores growing at each entry. -/
theorem tracks_registerAll (h : Mirror pairs a b) (d : DomainId)
    (entries : List (String × Membership α)) :
    Tracks pairs a b (fun _ => Eq) (DomainConfig.registerAll d entries)
      (DomainConfig.registerAll d entries) := by
  induction entries generalizing pairs a b with
  | nil => exact .pure h rfl
  | cons entry rest ih =>
    obtain ⟨name, func⟩ := entry
    exact (tracks_registerFunction h d name func).bind fun hgrows _ => ih hgrows.mirror

/-- Building a domain from one configuration, with the release a failure is followed by. -/
theorem tracks_build (h : Mirror pairs a b) (config : DomainConfig α) :
    Tracks pairs a b (fun _ => Eq) config.build config.build := by
  refine .ofExcept h rfl fun _ => ?_
  refine (tracks_newDomain h _ _ _ _).bind fun {d e _ _} hmade hde => ?_
  obtain rfl : d = e := hde
  refine ((tracks_registerAll hmade.mirror d _).tryRelease d).bind fun hfilled _ => ?_
  exact .pure hfilled.mirror rfl

theorem tracks_buildAll (h : Mirror pairs a b) (configs : List (DomainConfig α)) :
    Tracks pairs a b (fun _ => Eq) (DomainConfig.buildAll configs) (DomainConfig.buildAll configs) := by
  induction configs generalizing pairs a b with
  | nil => exact .pure h rfl
  | cons config configs ih =>
    refine (tracks_build h config).bind fun {d e _ _} hbuilt hde => ?_
    obtain rfl : d = e := hde
    refine ((ih hbuilt.mirror).tryRelease d).bind fun hrest hds => ?_
    exact .pure hrest.mirror (congrArg (d :: ·) hds)

/-! ## Deriving -/

section Linked

variable {s t : SetId}

/-- Changing the functions of paired sets in the same way makes a pair or fails alike. -/
theorem tracks_reshaped (h : Mirror pairs a b) (hst : pairs.Links s t)
    (change : Membership α → Except (FunctionFault α) (Membership α)) :
    Tracks pairs a b Pairing.Links (reshaped s change) (reshaped t change) := by
  refine .get (.ofExcept h ?_ fun func => tracks_derive h hst func)
  rw [h.func hst]

/-- Two sets share a domain exactly when their partners do. -/
theorem checkSameDomain_linked (h : Mirror pairs a b) {u v : SetId} (hst : pairs.Links s t)
    (huv : pairs.Links u v) : b.checkSameDomain t v = a.checkSameDomain s u := by
  unfold checkSameDomain
  rw [h.bound hst, h.bound huv, h.label hst, h.label huv]

/-- Joining two sets and joining their partners makes a pair or fails alike. -/
theorem tracks_deriveBinary (h : Mirror pairs a b) {u v : SetId} (hst : pairs.Links s t)
    (huv : pairs.Links u v) (op : Combinator α) :
    Tracks pairs a b Pairing.Links (deriveBinary op s u) (deriveBinary op t v) := by
  refine .get (.ofExcept h (checkSameDomain_linked h hst huv) fun _ => ?_)
  refine .ofExcept h ?_ fun func => tracks_derive h hst func
  rw [h.func hst, h.func huv]

end Linked

end Store

end FuzzyInference

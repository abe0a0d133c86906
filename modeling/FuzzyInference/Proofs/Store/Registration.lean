import FuzzyInference.Proofs.Store.Registry

/-!
# Registering is all or nothing

To register a set is to bind it, to name it and to enter it, and the first two are never taken back. All
that can stand against it is checked before the first write, so a registration that fails has written
nothing: no set is bound for good to a domain that did not take it. One that succeeds changes the set, one
entry of one registry, and nothing else. A set that is taken out of a registry stays bound and named, so it
fits nowhere but where it was.

## Contents
- `OrderedMap.exists_entries_eq`, `entries_insert_of_get?`, `entries_insert_of_absent`, `entries_erase`: a
  map before and after one of its keys changes.
- `Registrable`, `checkRegistration_iff`: the conditions for registering.
- `Registered`, `Removed`: what changes, and that nothing else does.
- `register_allOrNothing`, run on `register_allOrNothing_replaced`.
-/

namespace FuzzyInference

/-! ## One key of a map -/

namespace OrderedMap

variable {κ ν : Type} [DecidableEq κ] {m : OrderedMap κ ν} {k : κ} {v : ν}

/-- A key has one place. -/
theorem exists_entries_eq (h : m.get? k = some v) :
    ∃ before after, m.entries = before ++ (k, v) :: after ∧
      k ∉ before.map Prod.fst ∧ k ∉ after.map Prod.fst := by
  obtain ⟨before, after, hentries⟩ := List.append_of_mem (get?_eq_some_iff.mp h)
  have hdistinct := m.distinct
  rw [hentries, List.map_append, List.map_cons, List.nodup_append, List.nodup_cons] at hdistinct
  obtain ⟨-, ⟨hafter, -⟩, hapart⟩ := hdistinct
  exact ⟨before, after, hentries, fun hk => hapart k hk k List.mem_cons_self rfl, hafter⟩

/-- Putting under a key that the front part lacks acts on the back part only. -/
theorem put_append {before : List (κ × ν)} (h : k ∉ before.map Prod.fst) (rest : List (κ × ν)) :
    put k v (before ++ rest) = before ++ put k v rest := by
  induction before with
  | nil => rfl
  | cons e before ih =>
    rw [List.map_cons, List.mem_cons, not_or] at h
    rw [List.cons_append, put, if_neg (Ne.symm h.1), ih h.2, List.cons_append]

/-- Dropping a key that is not there changes nothing. -/
theorem drop_of_absent {entries : List (κ × ν)} (h : k ∉ entries.map Prod.fst) :
    drop k entries = entries := by
  refine List.filter_eq_self.mpr fun e he => ?_
  have hne : e.1 ≠ k := fun heq => h (heq ▸ List.mem_map_of_mem he)
  exact decide_eq_true hne

/-- A new value takes the old one's place. -/
theorem entries_insert_of_get? (h : m.get? k = some v) (w : ν) :
    ∃ before after, m.entries = before ++ (k, v) :: after ∧
      (m.insert k w).entries = before ++ (k, w) :: after := by
  obtain ⟨before, after, hentries, hbefore, -⟩ := exists_entries_eq h
  refine ⟨before, after, hentries, ?_⟩
  show put k w m.entries = _
  rw [hentries, put_append hbefore, put, if_pos rfl]

/-- A new key comes last. -/
theorem entries_insert_of_absent (h : m.get? k = none) (w : ν) :
    (m.insert k w).entries = m.entries ++ [(k, w)] := by
  refine put_of_not_mem w fun hk => ?_
  obtain ⟨⟨_, v⟩, he, rfl⟩ := List.mem_map.mp hk
  rw [get?_eq_some_iff.mpr he] at h
  cases h

/-- A key is taken out with its value; the others stay in order. -/
theorem entries_erase (h : m.get? k = some v) :
    ∃ before after, m.entries = before ++ (k, v) :: after ∧ (m.erase k).entries = before ++ after := by
  obtain ⟨before, after, hentries, hbefore, hafter⟩ := exists_entries_eq h
  refine ⟨before, after, hentries, ?_⟩
  show drop k m.entries = _
  have hself : drop k ((k, v) :: after) = after := by
    rw [drop, List.filter_cons_of_neg (by simp)]
    exact drop_of_absent hafter
  rw [hentries, drop, List.filter_append]
  exact congrArg₂ (· ++ ·) (drop_of_absent hbefore) hself

end OrderedMap

namespace Store

variable {α : Type} [Scalar α] {store later : Store α} {d : DomainId} {name : String} {s : SetId}

/-! ## The conditions -/

/-- The name is an identifier, and the set is free or already what it would become. -/
structure Registrable (store : Store α) (d : DomainId) (name : String) (s : SetId) : Prop where
  identifier : Text.isIdentifier name = true
  bound : (store.setAt s).domain? = none ∨ (store.setAt s).domain? = some d
  named : (store.setAt s).name? = none ∨ (store.setAt s).name? = some name

/-- The three checks of a registration, as one condition on the store. -/
theorem checkRegistration_iff : store.checkRegistration d name s = .ok () ↔ Registrable store d name s := by
  have hfree : ∀ {β : Type} (bound? : Option β) (b : β),
      (∀ c, bound? = some c → c = b) ↔ bound? = none ∨ bound? = some b := by
    intro β bound? b
    cases bound? <;> simp
  rw [checkRegistration_eq_ok_iff, checkDomainBinding_eq_ok_iff, checkNameBinding_eq_ok_iff, hfree, hfree]
  exact ⟨fun h => ⟨h.1, h.2.1, h.2.2⟩, fun h => ⟨h.identifier, h.bound, h.named⟩⟩

/-! ## What changes -/

/-- At most this set and this domain differ. -/
structure SameElsewhere (d : DomainId) (s : SetId) (store later : Store α) : Prop where
  sets : ∀ t, t ≠ s → later.setAt t = store.setAt t
  domains : ∀ e, e ≠ d → later.domainAt e = store.domainAt e
  hasSet : ∀ t, later.HasSet t ↔ store.HasSet t
  hasDomain : ∀ e, later.HasDomain e ↔ store.HasDomain e

/-- **What registering makes of a store.** The set is bound and named and otherwise as before, its kept values
    included. The domain has it under the name: at the old place of the name, where the set that stood there
    is left bound and named, or else at the end. -/
structure Registered (store : Store α) (d : DomainId) (name : String) (s : SetId) (later : Store α) :
    Prop where
  set : later.setAt s = { store.setAt s with domain? := some d, name? := some name }
  domain : later.domainAt d = { store.domainAt d with sets := (later.domainAt d).sets }
  replaced : ∀ t, (store.domainAt d).sets.get? name = some t →
    (∃ before after, (store.domainAt d).sets.entries = before ++ (name, t) :: after ∧
      (later.domainAt d).sets.entries = before ++ (name, s) :: after) ∧
    (later.setAt t).domain? = some d ∧ (later.setAt t).name? = some name
  appended : (store.domainAt d).sets.get? name = none →
    (later.domainAt d).sets.entries = (store.domainAt d).sets.entries ++ [(name, s)]
  elsewhere : SameElsewhere d s store later

/-- **What taking a name out makes of a store.** Its entry is gone, and nothing else changes; the set that had
    the name stays bound and named. -/
structure Removed (store : Store α) (d : DomainId) (name : String) (s : SetId) (later : Store α) :
    Prop where
  sets : later.sets = store.sets
  domain : later.domainAt d = { store.domainAt d with sets := (later.domainAt d).sets }
  erased : ∃ before after, (store.domainAt d).sets.entries = before ++ (name, s) :: after ∧
    (later.domainAt d).sets.entries = before ++ after
  bound : (later.setAt s).domain? = some d
  named : (later.setAt s).name? = some name
  elsewhere : SameElsewhere d s store later

/-- A set that was free, or was what it should become. -/
theorem or_some_eq {β : Type} {bound? : Option β} {b : β} (h : bound? = none ∨ bound? = some b) :
    bound?.or (some b) = some b := by
  rcases h with h | h <;> rw [h] <;> rfl

omit [Scalar α] in
/-- A registered set has the domain, the name and else what it had. -/
theorem setAt_registered (hs : store.HasSet s) (h : Registrable store d name s) :
    ((store.bound s d).called s name).setAt s =
      { store.setAt s with domain? := some d, name? := some name } := by
  have hs' : (store.bound s d).HasSet s := hasSet_modifySet.mpr hs
  rw [called, setAt_modifySet_self _ hs', bound, setAt_modifySet_self _ hs]
  dsimp only
  rw [or_some_eq h.bound, or_some_eq h.named]

/-- A registrable set is registered, and the later store is described in full. -/
theorem register_of_registrable (hstore : store.Consistent) (hd : store.HasDomain d) (hs : store.HasSet s)
    (h : Registrable store d name s) :
    ∃ later, register d name s store = (.ok (), later) ∧ Registered store d name s later := by
  have hdomain : ((store.bound s d).called s name).HasDomain d := hd
  refine ⟨((store.bound s d).called s name).modifyDomain d fun domain =>
    { domain with sets := domain.sets.insert name s }, ?_, ?_⟩
  · rw [register, checkRegistration_iff.mpr h]
  have hset := setAt_registered hs h
  have hself := domainAt_modifyDomain_self
    (fun domain => { domain with sets := domain.sets.insert name s }) hdomain
  have hothers : ∀ t, t ≠ s → ((store.bound s d).called s name).setAt t = store.setAt t := by
    intro t ht
    rw [called, setAt_modifySet_ne _ ht, bound, setAt_modifySet_ne _ ht]
  refine ⟨hset, ?_, fun t ht => ?_, fun hnone => ?_, ⟨hothers, fun e he => ?_, fun t => ?_, fun e => ?_⟩⟩
  · rw [hself]
    rfl
  · rw [hself]
    refine ⟨OrderedMap.entries_insert_of_get? ht s, ?_⟩
    -- the set that stood under the name was bound and named before, whether or not it is the new one
    obtain ⟨hbound, hnamed, -⟩ := hstore d name t (OrderedMap.get?_eq_some_iff.mp ht)
    have hext : Extends store ((store.bound s d).called s name) :=
      (extends_bound store s d).trans (extends_called _ s name)
    exact ⟨hext.bound hbound, hext.named hnamed⟩
  · rw [hself]
    exact OrderedMap.entries_insert_of_absent hnone s
  · exact domainAt_modifyDomain_ne _ he
  · have hbound : (store.bound s d).HasSet t ↔ store.HasSet t := hasSet_modifySet
    exact Iff.trans hasSet_modifySet hbound
  · exact hasDomain_modifyDomain

/-- A refused registration returns the very store it was given. -/
theorem register_of_not_registrable (h : ¬ Registrable store d name s) :
    ∃ e, register d name s store = (.error e, store) := by
  rw [← checkRegistration_iff] at h
  rw [register]
  cases hcheck : store.checkRegistration d name s with
  | error e => exact ⟨e, rfl⟩
  | ok => exact absurd hcheck h

/-- Removing a name that is entered answers its set and leaves the others in their order. -/
theorem remove_of_get? (hstore : store.Consistent) (hd : store.HasDomain d)
    (h : (store.domainAt d).sets.get? name = some s) :
    ∃ later, remove d name store = (.ok (some s), later) ∧ Removed store d name s later := by
  have hself := domainAt_modifyDomain_self
    (fun domain => { domain with sets := domain.sets.erase name }) hd
  obtain ⟨hbound, hnamed, -⟩ := hstore d name s (OrderedMap.get?_eq_some_iff.mp h)
  refine ⟨store.modifyDomain d fun domain => { domain with sets := domain.sets.erase name },
    remove_of_present h, rfl, ?_, ?_, hbound, hnamed, fun t _ => rfl,
    fun e he => domainAt_modifyDomain_ne _ he, fun t => Iff.rfl, fun e => hasDomain_modifyDomain⟩
  · rw [hself]
  · rw [hself]
    exact OrderedMap.entries_erase h

omit [Scalar α] in
/-- A set that is bound and named can be registered where it was and nowhere else. -/
theorem registrable_iff_of_entered (h : Entered store d name s) (e : DomainId) (other : String) :
    Registrable store e other s ↔ e = d ∧ other = name := by
  constructor
  · rintro ⟨-, hbound, hnamed⟩
    rw [h.bound] at hbound
    rw [h.named] at hnamed
    simp only [reduceCtorEq, false_or, Option.some.injEq] at hbound hnamed
    exact ⟨hbound.symm, hnamed.symm⟩
  · rintro ⟨rfl, rfl⟩
    exact ⟨h.identifier, Or.inr h.bound, Or.inr h.named⟩

/-- **Registering is all or nothing.** A domain takes a set just when the name is an identifier and the set
    is free or bound to that domain, and free or called so. If it does not, the store is what it was; if it
    does, only the set, and the domain's entry of the name, change. Taking a name out of a domain changes
    that entry alone. Whatever happens afterwards, the set that had the name goes back under this name of
    this domain, and any other registration of it fails. -/
theorem register_allOrNothing (hstore : Reachable store) (hd : store.isLive d) :
    (∀ name s, store.HasSet s →
      (Registrable store d name s →
        ∃ later, register d name s store = (.ok (), later) ∧ Registered store d name s later) ∧
      (¬ Registrable store d name s → ∃ e, register d name s store = (.error e, store))) ∧
    ∀ name,
      ((store.domainAt d).sets.get? name = none → remove d name store = (.ok none, store)) ∧
      ∀ s, (store.domainAt d).sets.get? name = some s →
        ∃ later, remove d name store = (.ok (some s), later) ∧ Removed store d name s later ∧
          ∀ final, Steps later final → ∀ e other,
            (e = d ∧ other = name → Registrable final e other s) ∧
            (¬ (e = d ∧ other = name) → ∃ fault, register e other s final = (.error fault, final)) := by
  have hdomain := hasDomain_of_isLive hd
  refine ⟨fun name s hs => ⟨fun h => ?_, register_of_not_registrable⟩,
    fun name => ⟨remove_of_absent, fun s h => ?_⟩⟩
  · exact register_of_registrable hstore.consistent hdomain hs h
  · obtain ⟨later, hlater, hremoved⟩ := remove_of_get? hstore.consistent hdomain h
    have hidentifier := (hstore.consistent d name s (OrderedMap.get?_eq_some_iff.mp h)).identifier
    have hentered : Entered later d name s := ⟨hremoved.bound, hremoved.named, hidentifier⟩
    refine ⟨later, hlater, hremoved, fun final hfinal e other => ?_⟩
    have hiff := registrable_iff_of_entered (hentered.mono hfinal.changes.extends) e other
    exact ⟨hiff.mpr, fun hne => register_of_not_registrable fun hreg => hne (hiff.mp hreg)⟩

/-- A domain with two sets, and a third one that is not bound. -/
def replacing : List (Operation Float) := [
  .newDomain "room" 0 30 none, .newDomain "yard" 0 30 none,
  .registerFunction ⟨0⟩ "cool" (.shape (.constant 0.25)),
  .registerFunction ⟨0⟩ "warm" (.shape (.constant 0.5)),
  .newSet (.shape (.constant 0.75)), .array ⟨0⟩]

/-- The store after `replacing`. -/
def beforeReplacing : Store Float := empty.runAll replacing

/-- The third set takes the place of the first one, which can then be taken back by neither domain under
    another name. -/
theorem register_allOrNothing_replaced :
    Reachable beforeReplacing ∧ beforeReplacing.isLive ⟨0⟩ ∧
      (∃ later, register ⟨0⟩ "cool" ⟨2⟩ beforeReplacing = (.ok (), later) ∧
        Registered beforeReplacing ⟨0⟩ "cool" ⟨2⟩ later) ∧
      (∃ e, register ⟨0⟩ "cool" ⟨1⟩ beforeReplacing = (.error e, beforeReplacing)) ∧
      ∃ later, remove ⟨0⟩ "cool" beforeReplacing = (.ok (some ⟨0⟩), later) ∧
        Removed beforeReplacing ⟨0⟩ "cool" ⟨0⟩ later ∧
        ∃ fault, register ⟨1⟩ "cool" ⟨0⟩ later = (.error fault, later) := by
  have hrun : Reachable beforeReplacing := reachable_runAll (by decide +kernel)
  have hlive : beforeReplacing.isLive ⟨0⟩ := by decide +kernel
  obtain ⟨hregister, hremove⟩ := register_allOrNothing hrun hlive
  have hfree : Registrable beforeReplacing ⟨0⟩ "cool" ⟨2⟩ := ⟨by decide, by decide, by decide⟩
  have hnamed : ¬ Registrable beforeReplacing ⟨0⟩ "cool" ⟨1⟩ := fun h => absurd h.named (by decide)
  obtain ⟨later, hlater, hremoved, hback⟩ := (hremove "cool").2 ⟨0⟩ (by decide)
  exact ⟨hrun, hlive, (hregister "cool" ⟨2⟩ (by decide)).1 hfree, (hregister "cool" ⟨1⟩ (by decide)).2 hnamed,
    later, hlater, hremoved, (hback later .refl ⟨1⟩ "cool").2 (by decide)⟩

end Store

end FuzzyInference

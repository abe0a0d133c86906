import FuzzyInference.Proofs.OrderedMap
import FuzzyInference.Proofs.Rule.Equality
import FuzzyInference.Session.Rules

/-!
# Rules from conditions

Of the conditions that are given for a rule, the last one of each antecedent counts, and it stands where
the antecedent first came up. An antecedent is a set of sets: neither their order nor their number shows.
A union of rules is the rule of their conditions together, so it does not matter how unions are
bracketed, as long as the consequents fit whenever they are checked.

## Contents
- `Antecedent.ofList_eq_iff`: antecedents are sets of sets.
- `Summarizes`, `summarizes_conditionsOf`: what a rule keeps of its conditions.
- `Unions`, `conditions_of_run`, `conditions_of_combine`: what unions of rules keep.
- `Session.SameBut`: commands that unite rules touch one handle.
- `ofConditions_lastWord`: all of this together.
-/

namespace FuzzyInference

variable {α : Type} [Scalar α]

/-! ## Antecedents -/

namespace Antecedent

/-- An antecedent's own list makes that antecedent again. -/
theorem ofList_sets (a : Antecedent) : ofList a.sets = a :=
  ext_mem fun _ => mem_ofList

/-- An antecedent holds exactly the sets it was built from. -/
theorem toFinset_ofList (sets : List SetId) : (ofList sets).sets.toFinset = sets.toFinset := by
  ext s
  rw [List.mem_toFinset, List.mem_toFinset, mem_ofList]

/-- Antecedents are equal if they are of the same sets. -/
theorem ofList_eq_iff {sets others : List SetId} :
    ofList sets = ofList others ↔ sets.toFinset = others.toFinset := by
  constructor
  · intro h
    rw [← toFinset_ofList, h, toFinset_ofList]
  · intro h
    refine ofList_congr fun s => ?_
    rw [← List.mem_toFinset, h, List.mem_toFinset]

/-- Two antecedents with the same sets are the same, whatever order they came in. -/
theorem toFinset_injective : Function.Injective fun a : Antecedent => a.sets.toFinset := by
  intro a b h
  rw [← ofList_sets a, ← ofList_sets b]
  exact ofList_eq_iff.mpr h

end Antecedent

/-! ## Rules of conditions -/

/-- What comes up first does so under other names too. -/
theorem eraseDups_map {κ μ : Type} [DecidableEq κ] [DecidableEq μ] {f : κ → μ}
    (hf : Function.Injective f) (ks : List κ) : ks.eraseDups.map f = (ks.map f).eraseDups := by
  induction ks using List.reverseRecOn with
  | nil => rfl
  | append_singleton ks k ih =>
    rw [List.map_append, List.eraseDups_append, List.eraseDups_append, List.map_append, ih]
    by_cases hk : k ∈ ks <;> simp [List.removeAll, hk, hf.eq_iff, List.eraseDups_cons]

namespace Rule

/-- Conditions as a map: the last consequent of each antecedent, at the place where the antecedent
    first came up. -/
def conditionsOf (conditions : List (List SetId × SetId)) : OrderedMap Antecedent SetId :=
  .ofList (conditions.map fun c => (Antecedent.ofList c.1, c.2))

/-- The conditions of a rule as they can be given. -/
def given (rule : Rule) : List (List SetId × SetId) :=
  rule.conditions.entries.map fun e => (e.1.sets, e.2)

/-- The rule has the last consequent of all those given for one antecedent, whatever the order in
    which its sets are given, and how often. -/
structure Summarizes (rule : Rule) (conditions : List (List SetId × SetId)) : Prop where
  get? (sets : List SetId) : rule.get? sets =
    ((conditions.filter fun c => c.1.toFinset = sets.toFinset).getLast?).map Prod.snd
  size : rule.size = (conditions.map fun c => c.1.toFinset).toFinset.card
  order : rule.conditions.keys.map (fun a => a.sets.toFinset) =
    (conditions.map fun c => c.1.toFinset).eraseDups

omit [Scalar α] in
theorem conditionsOf_given (rule : Rule) : conditionsOf rule.given = rule.conditions := by
  have hentries : (rule.given.map fun c => (Antecedent.ofList c.1, c.2)) = rule.conditions.entries := by
    rw [given, List.map_map]
    refine (List.map_congr_left fun e _ => ?_).trans (List.map_id _)
    exact Prod.ext (Antecedent.ofList_sets e.1) rfl
  rw [conditionsOf, hentries, OrderedMap.ofList_entries]

/-- Conditions said later are inserted over those said earlier. -/
theorem conditionsOf_append (cs ds : List (List SetId × SetId)) :
    conditionsOf (cs ++ ds) = (conditionsOf cs).insertAll (conditionsOf ds).entries := by
  rw [conditionsOf, conditionsOf, conditionsOf, OrderedMap.ofList, OrderedMap.ofList, OrderedMap.ofList,
    OrderedMap.insertAll_insertAll, List.map_append]
  exact OrderedMap.insertAll_append _ _ _

/-- The map built from a list of conditions has its antecedents, each with the last word. -/
theorem summarizes_conditionsOf (conditions : List (List SetId × SetId)) :
    (⟨conditionsOf conditions⟩ : Rule).Summarizes conditions := by
  -- keys are told apart by their sets, so dropping repeats of either is the same
  have hkeys : (conditionsOf conditions).keys.map (fun a => a.sets.toFinset) =
      (conditions.map fun c => c.1.toFinset).eraseDups := by
    rw [conditionsOf, OrderedMap.keys_ofList, eraseDups_map Antecedent.toFinset_injective, List.map_map,
      List.map_map]
    refine congrArg List.eraseDups (List.map_congr_left fun c _ => ?_)
    exact Antecedent.toFinset_ofList c.1
  refine ⟨fun sets => ?_, ?_, hkeys⟩
  · rw [Rule.get?, conditionsOf, OrderedMap.get?_ofList, List.filter_map, List.getLast?_map, Option.map_map]
    refine congrArg (fun kept => Option.map Prod.snd (List.getLast? kept)) ?_
    refine List.filter_congr fun c _ => ?_
    exact decide_eq_decide.mpr Antecedent.ofList_eq_iff
  · have hnodup : ((conditions.map fun c => c.1.toFinset).eraseDups).Nodup :=
      hkeys ▸ (conditionsOf conditions).distinct.map Antecedent.toFinset_injective
    have hlength : (conditionsOf conditions).size =
        ((conditions.map fun c => c.1.toFinset).eraseDups).length := by
      rw [← hkeys, List.length_map, OrderedMap.keys, List.length_map]
      rfl
    have hmem : ((conditions.map fun c => c.1.toFinset).eraseDups).toFinset =
        (conditions.map fun c => c.1.toFinset).toFinset := by
      ext sets
      rw [List.mem_toFinset, List.mem_toFinset, List.mem_eraseDups]
    rw [Rule.size, hlength, ← hmem, List.toFinset_card_of_nodup hnodup]

omit [Scalar α] in
/-- At most one rule summarizes a list of conditions, since order and entries are both fixed. -/
theorem Summarizes.unique {r q : Rule} {conditions : List (List SetId × SetId)}
    (hr : r.Summarizes conditions) (hq : q.Summarizes conditions) : r = q := by
  have hkeys : r.conditions.keys = q.conditions.keys :=
    List.map_injective_iff.mpr Antecedent.toFinset_injective (hr.order.trans hq.order.symm)
  have hget : ∀ a, r.conditions.get? a = q.conditions.get? a := by
    intro a
    rw [← Antecedent.ofList_sets a]
    exact (hr.get? a.sets).trans (hq.get? a.sets).symm
  exact congrArg Rule.mk (OrderedMap.ext_keys hkeys hget)

variable {store : Store α} {r q : Rule}

/-- The final check passes a rule on or refuses it, and never changes it. -/
theorem checked_eq_ok_iff : checked store q = .ok r ↔ q.checkTargets store = .ok () ∧ q = r := by
  rw [checked, check_bind_eq_ok_iff]
  exact and_congr_right fun _ => Except.ok.injEq q r ▸ Iff.rfl

theorem checked_of_ok (h : checked store q = .ok r) : checked store r = .ok r := by
  obtain ⟨-, rfl⟩ := checked_eq_ok_iff.mp h
  exact h

/-! ## Unions -/

/-- Rules and unions of them, bracketed in some way. The consequents of each union are checked on the
    store of its time. -/
inductive Unions (α : Type)
  | rule (rule : Rule)
  | union (store : Store α) (left right : Unions α)

namespace Unions

/-- The rules that are united, from left to right. -/
def rules : Unions α → List Rule
  | rule r => [r]
  | union _ left right => left.rules ++ right.rules

/-- Carries out the unions. -/
def run : Unions α → Except (FuzzyError α) Rule
  | rule r => .ok r
  | union store left right => do Rule.union store (← left.run) (← right.run)

/-- Bracketing does not show: a tree of unions holds the conditions of its leaves, left to right. -/
theorem conditions_of_run {u : Unions α} (h : u.run = .ok r) :
    r.conditions = conditionsOf (u.rules.flatMap given) := by
  induction u generalizing r with
  | rule q =>
    cases h
    rw [rules, List.flatMap_singleton, conditionsOf_given]
  | union store left right ihleft ihright =>
    obtain ⟨a, ha, h⟩ := bind_eq_ok_iff.mp h
    obtain ⟨b, hb, h⟩ := bind_eq_ok_iff.mp h
    obtain ⟨-, rfl⟩ := checked_eq_ok_iff.mp h
    rw [rules, List.flatMap_append, conditionsOf_append, ← ihleft ha, ← ihright hb]

end Unions

/-- A row of unions inserts the conditions of each rule over those before. The induction is on the
row, for every rule to start from. -/
theorem conditions_of_foldlM {rules : List Rule} {start : Rule}
    (h : rules.foldlM (union store) start = .ok r) :
    r.conditions = start.conditions.insertAll (conditionsOf (rules.flatMap given)).entries ∧
      (start.checkTargets store = .ok () → r.checkTargets store = .ok ()) := by
  induction rules generalizing start with
  | nil =>
    cases h
    exact ⟨rfl, id⟩
  | cons rule rules ih =>
    obtain ⟨next, hnext, h⟩ := bind_eq_ok_iff.mp h
    obtain ⟨hchecked, rfl⟩ := checked_eq_ok_iff.mp hnext
    obtain ⟨hconditions, htargets⟩ := ih h
    refine ⟨?_, fun _ => htargets hchecked⟩
    rw [hconditions, List.flatMap_cons, conditionsOf_append, conditionsOf_given,
      OrderedMap.insertAll_insertAll]

/-- Combining holds the conditions of all its rules, left to right. -/
theorem conditions_of_combine {rules : List Rule} (h : combine store rules = .ok r) :
    r.conditions = conditionsOf (rules.flatMap given) ∧ checked store r = .ok r := by
  obtain ⟨hconditions, htargets⟩ := conditions_of_foldlM h
  refine ⟨hconditions.trans (OrderedMap.ofList_entries _), checked_eq_ok_iff.mpr ⟨htargets rfl, rfl⟩⟩

/-- Conditions that give the same map are the same rule under the same check. -/
theorem ofConditions_of_conditions {conditions : List (List SetId × SetId)}
    (h : r.conditions = conditionsOf conditions) (store : Store α) :
    ofConditions store conditions = checked store r := by
  cases r
  obtain rfl := h
  rfl

theorem conditions_of_ofConditions {conditions : List (List SetId × SetId)}
    (h : ofConditions store conditions = .ok r) : r.conditions = conditionsOf conditions := by
  obtain ⟨-, rfl⟩ := checked_eq_ok_iff.mp h
  rfl

/-- Joining lists of conditions gives what joining the rules they make up does. -/
theorem conditionsOf_flatten {parts : List (List (List SetId × SetId))} {rules : List Rule}
    (h : List.Forall₂ (fun conditions rule => rule.conditions = conditionsOf conditions) parts rules) :
    conditionsOf parts.flatten = conditionsOf (rules.flatMap given) := by
  induction h with
  | nil => rfl
  | cons hrule _ ih =>
    rw [List.flatten_cons, List.flatMap_cons, conditionsOf_append, conditionsOf_append, ih,
      conditionsOf_given, hrule]

omit [Scalar α] in
/-- Empty rules contribute no condition. -/
theorem flatMap_given_filter (rules : List Rule) :
    (rules.filter fun rule => !rule.isEmpty).flatMap given = rules.flatMap given := by
  induction rules with
  | nil => rfl
  | cons rule rules ih =>
    rw [List.flatMap_cons, ← ih]
    cases h : rule.isEmpty with
    | false => simp [h]
    | true =>
      have hgiven : rule.given = [] := by
        rw [given, List.isEmpty_iff.mp h]
        rfl
      simp [h, hgiven]

end Rule

/-! ## The commands that make rules -/

namespace Session

variable {β γ : Type}

/-- A request whose first step succeeds runs on from the session that step left. -/
theorem bind_of_ok {act : Request β} {next : β → Request γ} {session later : Session} {b : β}
    (h : act session = (.ok b, later)) : (act >>= next) session = next b later := by
  simp only [bind, ExceptT.bind, ExceptT.mk, StateT.bind]
  rw [h]
  rfl

theorem bind_of_error {act : Request β} {next : β → Request γ} {session later : Session}
    {failure : Failure} (h : act session = (.error failure, later)) :
    (act >>= next) session = (.error failure, later) := by
  simp only [bind, ExceptT.bind, ExceptT.mk, StateT.bind]
  rw [h]
  rfl

/-- A request that leaves the session as it is. -/
def Still (act : Request β) : Prop := ∀ session, (act session).2 = session

/-- Nothing differs but what one handle of rules holds. -/
structure SameBut (target : Handle) (before after : Session) : Prop where
  store : after.store = before.store
  domains : after.domains = before.domains
  sets : after.sets = before.sets
  sums : after.sums = before.sums
  rules : ∀ handle, handle ≠ target → after.rules.get? handle = before.rules.get? handle

theorem SameBut.refl (target : Handle) (session : Session) : SameBut target session session :=
  ⟨rfl, rfl, rfl, rfl, fun _ _ => rfl⟩

/-- A request that only reads hands the same session on, so what follows decides what is kept. -/
theorem Still.bind_preserves {act : Request β} {next : β → Request γ} {kept : Session → Session → Prop}
    (hact : Still act) (hrefl : ∀ session, kept session session)
    (hnext : ∀ b session, kept session (next b session).2) (session : Session) :
    kept session ((act >>= next) session).2 := by
  rcases h : act session with ⟨failure | b, later⟩
  · obtain rfl : later = session := by simpa [h] using hact session
    rw [bind_of_error h]
    exact hrefl later
  · obtain rfl : later = session := by simpa [h] using hact session
    rw [bind_of_ok h]
    exact hnext b later

theorem Still.bind {act : Request β} {next : β → Request γ} (hact : Still act)
    (hnext : ∀ b, Still (next b)) : Still (act >>= next) :=
  @Still.bind_preserves _ _ _ _ (fun before after => after = before) hact (fun _ => rfl) hnext

theorem Still.bind_sameBut {target : Handle} {act : Request β} {next : β → Request γ} (hact : Still act)
    (hnext : ∀ b session, SameBut target session (next b session).2) (session : Session) :
    SameBut target session ((act >>= next) session).2 :=
  hact.bind_preserves (SameBut.refl target) hnext session

theorem still_held (table : Session → OrderedMap Handle β) (handle : Handle) :
    Still (held table handle) := by
  intro session
  have hget : (get : Request Session) session = (.ok session, session) := rfl
  unfold held
  rw [bind_of_ok hget]
  cases (table session).get? handle <;> rfl

theorem still_asked (question : Store Float → Except (FuzzyError Float) β) : Still (asked question) :=
  fun _ => rfl

/-- A row of requests that only read reads only. -/
theorem still_mapM {f : β → Request γ} (hf : ∀ b, Still (f b)) (bs : List β) : Still (bs.mapM f) := by
  induction bs with
  | nil => exact fun _ => rfl
  | cons b bs ih =>
    rw [List.mapM_cons]
    exact (hf b).bind fun _ => ih.bind fun _ _ => rfl

theorem sameBut_holdRule (target : Handle) (rule : Rule) (session : Session) :
    SameBut target session (holdRule target rule session).2 := by
  refine ⟨rfl, rfl, rfl, rfl, fun handle hne => ?_⟩
  change (session.rules.insert target rule).get? handle = _
  rw [OrderedMap.get?_insert, if_neg hne.symm]

/-- The union of two held rules is kept under the target's handle and nowhere else. -/
theorem RuleCommand.sameBut_union (target a b : Handle) (session : Session) :
    SameBut target session ((RuleCommand.union target a b).answer session).2 := by
  refine (still_held rules a).bind_sameBut (fun r => ?_) session
  refine (still_held rules b).bind_sameBut (fun q => ?_)
  exact (still_asked _).bind_sameBut (sameBut_holdRule target)

theorem RuleCommand.sameBut_combine (target : Handle) (handles : List Handle) (session : Session) :
    SameBut target session ((RuleCommand.combine target handles).answer session).2 := by
  refine (still_mapM (still_held rules) handles).bind_sameBut (fun _ => ?_) session
  exact (still_asked _).bind_sameBut (sameBut_holdRule target)

end Session

namespace Rule

open Session

variable (α) in
/-- **The last word on an antecedent counts.** A rule that can be made has, of the conditions given for
    it, the last one of each antecedent, in the order in which the antecedents first came up; these
    facts determine it. Rules united in whatever bracketing are, if this succeeds, the rule of all their
    conditions, as they stand or as they were given to make the rules. So two bracketings that succeed
    are equal, even with empty rules in them, and uniting changes nothing but what the handle of the
    union holds. -/
theorem ofConditions_lastWord :
    (∀ {store : Store α} {conditions : List (List SetId × SetId)} {rule : Rule},
      ofConditions store conditions = .ok rule → rule.Summarizes conditions) ∧
    (∀ {conditions : List (List SetId × SetId)} {r q : Rule},
      r.Summarizes conditions → q.Summarizes conditions → r = q) ∧
    (∀ {store : Store α} {rules : List Rule} {r : Rule}, combine store rules = .ok r →
      ofConditions store (rules.flatMap given) = .ok r) ∧
    (∀ {store : Store α} {left right : Unions α} {r : Rule}, (Unions.union store left right).run = .ok r →
      ofConditions store ((left.rules ++ right.rules).flatMap given) = .ok r) ∧
    (∀ {parts : List (List (List SetId × SetId))} {rules : List Rule},
      List.Forall₂ (fun conditions rule => ∃ store : Store α, ofConditions store conditions = .ok rule)
        parts rules →
      ∀ store : Store α, ofConditions store parts.flatten = ofConditions store (rules.flatMap given)) ∧
    (∀ {u v : Unions α} {r q : Rule},
      (u.rules.filter fun rule => !rule.isEmpty) = (v.rules.filter fun rule => !rule.isEmpty) →
      u.run = .ok r → v.run = .ok q → r = q) ∧
    (∀ (store : Store α) (rule : Rule), union store rule empty = checked store rule ∧
      union store empty rule = checked store rule) ∧
    ∀ (target : Handle) (session : Session),
      (∀ a b, SameBut target session ((RuleCommand.union target a b).answer session).2) ∧
      ∀ handles, SameBut target session ((RuleCommand.combine target handles).answer session).2 := by
  refine ⟨fun {store conditions rule} h => ?_, fun hr hq => hr.unique hq, fun {store rules r} h => ?_,
    fun {store left right r} h => ?_, fun {parts rules} h store => ?_, fun {u v r q} hsame hu hv => ?_,
    fun store rule => ?_, fun target session => ?_⟩
  · obtain ⟨-, rfl⟩ := checked_eq_ok_iff.mp h
    exact summarizes_conditionsOf conditions
  · obtain ⟨hconditions, hchecked⟩ := conditions_of_combine h
    exact (ofConditions_of_conditions hconditions store).trans hchecked
  · obtain ⟨a, -, hlast⟩ := bind_eq_ok_iff.mp h
    obtain ⟨b, -, hlast⟩ := bind_eq_ok_iff.mp hlast
    exact (ofConditions_of_conditions (Unions.conditions_of_run h) store).trans (checked_of_ok hlast)
  · -- joining the conditions of rules that were made from lists joins the lists
    have hflatten : conditionsOf parts.flatten = conditionsOf (rules.flatMap given) :=
      conditionsOf_flatten (h.imp fun _ _ hmade => conditions_of_ofConditions hmade.choose_spec)
    exact congrArg (fun conditions => checked store ⟨conditions⟩) hflatten
  · have hconditions : r.conditions = q.conditions := by
      rw [Unions.conditions_of_run hu, Unions.conditions_of_run hv, ← flatMap_given_filter, hsame,
        flatMap_given_filter]
    cases r
    cases q
    exact congrArg Rule.mk hconditions
  · refine ⟨rfl, congrArg (fun conditions => checked store ⟨conditions⟩) ?_⟩
    exact OrderedMap.ofList_entries rule.conditions
  · exact ⟨fun a b => RuleCommand.sameBut_union target a b session,
      fun handles => RuleCommand.sameBut_combine target handles session⟩

/-- Two sets conclude to one, and a third one does too. -/
def earlyWord : List (List SetId × SetId) := [([⟨0⟩, ⟨1⟩], ⟨3⟩), ([⟨2⟩], ⟨3⟩)]

/-- The two sets, in another order and one of them twice, conclude to something else. -/
def lateWord : List (List SetId × SetId) := [([⟨1⟩, ⟨0⟩, ⟨1⟩], ⟨4⟩)]

theorem ofConditions_lastWord_late :
    let early : Rule := ⟨conditionsOf earlyWord⟩
    let late : Rule := ⟨conditionsOf lateWord⟩
    let both : Rule := ⟨conditionsOf (earlyWord ++ lateWord)⟩
    let store : Store Float := .empty
    ofConditions store (earlyWord ++ lateWord) = .ok both ∧ both.Summarizes (earlyWord ++ lateWord) ∧
      both.get? [⟨0⟩, ⟨1⟩] = some ⟨4⟩ ∧
      combine store [early, late] = .ok both ∧ ofConditions store (early.given ++ late.given) = .ok both ∧
      ofConditions store (earlyWord ++ lateWord) = ofConditions store (early.given ++ late.given) ∧
      union store early empty = .ok early ∧
      (Unions.union store (.union store (.rule early) (.rule empty)) (.rule late)).run = .ok both ∧
      ofConditions store ([early, empty, late].flatMap given) = .ok both ∧
      (Unions.union store (.rule early) (.rule late)).run = .ok both := by
  intro early late both store
  let united : Rule := ⟨conditionsOf (early.given ++ late.given)⟩
  have hword := ofConditions_lastWord Float
  have hboth : ofConditions store (earlyWord ++ lateWord) = .ok both := rfl
  have hcombine : combine store [early, late] = .ok both := rfl
  have hparts : List.Forall₂ (fun conditions rule => ∃ store : Store Float,
      ofConditions store conditions = .ok rule) [earlyWord, lateWord] [early, late] :=
    .cons ⟨store, rfl⟩ (.cons ⟨store, rfl⟩ .nil)
  have hwide : (Unions.union store (.union store (.rule early) (.rule empty)) (.rule late)).run =
      .ok both := rfl
  have hnarrow : (Unions.union store (.rule early) (.rule late)).run = .ok united := rfl
  have hunited : both = united := hword.2.2.2.2.2.1 rfl hwide hnarrow
  exact ⟨hboth, hword.1 hboth, rfl, hcombine, hword.2.2.1 hcombine, hword.2.2.2.2.1 hparts store,
    (hword.2.2.2.2.2.2.1 store early).1, hwide, hword.2.2.2.1 hwide, hunited ▸ hnarrow⟩

end Rule

end FuzzyInference

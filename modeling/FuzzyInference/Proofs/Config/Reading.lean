import FuzzyInference.Proofs.Config.Function

/-!
# Functions from documents

Whatever form a function was read from, its numbers are finite, and the document that is written for it
nests no deeper than the one it was read from: a record is one level, an array where an object would
stand counts the same.

## Contents
- `Membership.Sized`: finite numbers, and a document within a depth.
- `sized_of_ofValues?`: one record. `sized_of_ofLevels?`: a function of any depth.
-/

namespace FuzzyInference

open Json

/-! ## Shapes -/

namespace Shape

/-- A point is read from an array of two numbers and from nothing else. -/
theorem pair?_eq_some_iff {j : Json} {p : Float × Float} :
    pair? j = some p ↔ ∃ x m, j = .array [x, m] ∧ x.toDouble? = some p.1 ∧ m.toDouble? = some p.2 := by
  unfold pair?
  split
  next x m =>
    simp only [Option.bind_eq_bind, Option.bind_eq_some_iff, Option.pure_def, Option.some.injEq,
      array.injEq, List.cons.injEq, and_true]
    constructor
    · rintro ⟨a, ha, b, hb, rfl⟩
      exact ⟨x, m, ⟨rfl, rfl⟩, ha, hb⟩
    · rintro ⟨x', m', ⟨rfl, rfl⟩, ha, hb⟩
      exact ⟨_, ha, _, hb, rfl⟩
  next hne =>
    constructor
    · intro h
      cases h
    · rintro ⟨x, m, rfl, -⟩
      exact absurd rfl (hne x m)

/-- What a shape is read from gives finite numbers, as no document holds others. -/
theorem isFinite_of_ofValues? {family : Family} {values : List Json} {curve : Shape Float}
    (h : ofValues? family values = some curve) : ∀ x ∈ curve.numbers, Scalar.isFinite x = true := by
  unfold ofValues? at h
  split at h
  case h_17 points =>
    obtain ⟨items, hitems, h⟩ := Option.bind_eq_some_iff.mp h
    obtain ⟨pairs, hpairs, heq⟩ := Option.bind_eq_some_iff.mp h
    obtain rfl := Option.some.inj heq
    intro x hx
    obtain ⟨p, hp, hx⟩ := List.mem_flatMap.mp hx
    obtain ⟨item, -, hitem⟩ := exists_of_mapM hpairs p hp
    obtain ⟨a, m, -, ha, hm⟩ := pair?_eq_some_iff.mp hitem
    simp only [List.mem_cons, List.not_mem_nil, or_false] at hx
    rcases hx with rfl | rfl
    · exact isFinite_of_toDouble? ha
    · exact isFinite_of_toDouble? hm
  case h_18 => cases h
  -- every other family reads one double for each number
  all_goals
    simp only [Option.bind_eq_bind, Option.bind_eq_some_iff, Option.pure_def, Option.some.injEq] at h
    grind [numbers, isFinite_of_toDouble?]

/-- The one list of numbers among the fields of shapes. -/
theorem exists_items_of_ofValues? {family : Family} {values : List Json} {points : List (Float × Float)}
    (h : ofValues? family values = some (.piecewise points)) :
    ∃ items, values = [.array items] ∧ items.mapM pair? = some points := by
  unfold ofValues? at h
  split at h
  case h_17 j =>
    obtain ⟨items, hitems, h⟩ := Option.bind_eq_some_iff.mp h
    obtain ⟨pairs, hpairs, heq⟩ := Option.bind_eq_some_iff.mp h
    obtain rfl : pairs = points := by simpa using heq
    cases j with
    | array inner =>
      cases hitems
      exact ⟨_, rfl, hpairs⟩
    | _ => cases hitems
  case h_18 => cases h
  -- no other family makes such a shape
  all_goals
    simp only [Option.bind_eq_bind, Option.bind_eq_some_iff, Option.pure_def, Option.some.injEq] at h
    grind

/-- The values written for a shape are nested no deeper than those it was read from. -/
theorem depth_fieldValues_le {family : Family} {values : List Json} {curve : Shape Float}
    (h : ofValues? family values = some curve) :
    depthOfItems curve.fieldValues ≤ depthOfItems values := by
  cases curve with
  | piecewise points =>
    obtain ⟨items, rfl, hpairs⟩ := exists_items_of_ofValues? h
    have hle := depthOfItems_map_le hpairs (g := fun p => array [ofDouble p.1, ofDouble p.2]) (by
      intro item _ p hp
      obtain ⟨x, m, rfl, -⟩ := pair?_eq_some_iff.mp hp
      simp only [depth, depthOfItems, depth_ofDouble]
      omega)
    simp only [fieldValues, depthOfItems, depth]
    omega
  | _ => simp [fieldValues, depthOfItems, depth_ofDouble, depth]

end Shape

/-! ## Combinators and records -/

namespace Combinator

theorem weight?_of_ofName? {name : String} {op : Combinator Float} (h : ofName? name = some op) :
    op.weight? = none := by
  unfold ofName? at h
  split at h <;> cases h <;> rfl

theorem weight?_of_ofWeight? {name : String} {weight : Float} {op : Combinator Float}
    (h : ofWeight? name weight = some op) : op.weight? = some weight := by
  unfold ofWeight? at h
  split at h <;> cases h <;> rfl

/-- A combinator that was read has no weight, or a finite one from a record within an object. -/
theorem weight?_of_ofJson? {j : Json} {op : Combinator Float} (h : ofJson? j = some op) :
    op.weight? = none ∨ ∃ weight, op.weight? = some weight ∧ Scalar.isFinite weight = true ∧ 2 ≤ j.depth := by
  unfold ofJson? at h
  obtain ⟨⟨name, value⟩, hchoice, h⟩ := Option.bind_eq_some_iff.mp h
  dsimp only at h
  cases hname : ofName? name with
  | some plain =>
    rw [hname] at h
    left
    dsimp only at h
    split at h
    · obtain rfl := Option.some.inj h
      exact weight?_of_ofName? hname
    · cases h
  | none =>
    rw [hname] at h
    right
    obtain ⟨inner, hinner, h⟩ := Option.bind_eq_some_iff.mp h
    obtain ⟨fields, hfields, h⟩ := Option.bind_eq_some_iff.mp h
    obtain ⟨values, -, h⟩ := Option.bind_eq_some_iff.mp h
    split at h
    next weight =>
      obtain ⟨x, hx, h⟩ := Option.bind_eq_some_iff.mp h
      refine ⟨x, weight?_of_ofWeight? h, isFinite_of_toDouble? hx, ?_⟩
      -- the weight stands in a record, which is the value of the object's member
      have hdepth : 0 < inner.depth := by
        cases inner <;> cases hfields <;> exact Nat.succ_pos _
      obtain rfl := hinner
      unfold choice? at hchoice
      split at hchoice
      next => cases hchoice
      next =>
        obtain ⟨-, heq⟩ := Prod.mk.inj (Option.some.inj hchoice)
        obtain rfl := Option.some.inj heq
        simp only [depth, depthOfMembers]
        omega
      next => cases hchoice
    next => cases h

/-- A connective with a weight is written two levels deep, any other as a bare name. -/
theorem depth_toJson (op : Combinator Float) : op.toJson.depth = if op.weight?.isSome then 2 else 0 := by
  cases op <;> first | rfl | simp [toJson, weight?, depth_ofMembers, depthOfItems, depth_ofDouble]

theorem isFinite_of_ofJson? {j : Json} {op : Combinator Float} (h : ofJson? j = some op) :
    ∀ x ∈ op.weight?.toList, Scalar.isFinite x = true := by
  rcases weight?_of_ofJson? h with hnone | ⟨weight, hsome, hfinite, -⟩
  · rw [hnone]
    intro x hx
    cases hx
  · rw [hsome]
    intro x hx
    rw [List.mem_singleton.mp hx]
    exact hfinite

/-- A connective is written no deeper than it was read. -/
theorem depth_le_of_ofJson? {j : Json} {op : Combinator Float} (h : ofJson? j = some op) :
    op.toJson.depth ≤ j.depth := by
  rw [depth_toJson]
  rcases weight?_of_ofJson? h with hnone | ⟨weight, hsome, -, hdepth⟩
  · rw [hnone]
    exact Nat.zero_le _
  · rw [hsome]
    exact hdepth

end Combinator

/-- The values of a record lie within it. -/
theorem depth_values?_lt {byPlace : Bool} {j : Json} {family : Family} {fields : Fields} {names : List String}
    {values : List Json} (hfamily : familyAndFields? byPlace j = some (family, fields))
    (hvalues : fields.values? names = some values) : depthOfItems values < j.depth := by
  unfold familyAndFields? at hfamily
  split at hfamily
  next tag items =>
    -- in an array the values are all items but the first
    obtain ⟨f, -, hfamily⟩ := Option.bind_eq_some_iff.mp hfamily
    obtain ⟨-, rfl⟩ := Prod.mk.inj (Option.some.inj hfamily)
    rw [Fields.values?] at hvalues
    split at hvalues
    · obtain rfl := Option.some.inj hvalues
      simp only [depth, depthOfItems]
      omega
    · cases hvalues
  next members =>
    -- in an object they are values of members
    split at hfamily
    · cases hfamily
    obtain ⟨tag, -, hfamily⟩ := Option.bind_eq_some_iff.mp hfamily
    obtain ⟨f, -, hfamily⟩ := Option.bind_eq_some_iff.mp hfamily
    obtain ⟨-, rfl⟩ := Prod.mk.inj (Option.some.inj hfamily)
    rw [Fields.values?] at hvalues
    split at hvalues
    · cases hvalues
    rw [depth, depthOfMembers_eq]
    apply Nat.lt_succ_of_le
    apply depthOfItems_le
    intro value hvalue
    obtain ⟨name, -, hfind⟩ := exists_of_mapM hvalues value hvalue
    obtain ⟨member, hmember, rfl⟩ := Option.map_eq_some_iff.mp hfind
    exact depth_le_depthOfItems (List.mem_map_of_mem (List.mem_of_find?_eq_some hmember))
  next => cases hfamily

namespace Membership

/-- What is known of a function that was read: its numbers are finite, and it is written within a depth. -/
structure Sized (func : Membership Float) (n : Nat) : Prop where
  isFinite : ∀ x ∈ func.numbers, Scalar.isFinite x = true
  depth_le : func.toJson.depth ≤ n

theorem toJsons_eq (funcs : List (Membership Float)) : toJsons funcs = funcs.map toJson := by
  induction funcs with
  | nil => rfl
  | cons func funcs ih => rw [toJsons, ih, List.map_cons]

theorem isFinite_numbersOfAll {funcs : List (Membership Float)}
    (h : ∀ func ∈ funcs, ∀ x ∈ func.numbers, Scalar.isFinite x = true) :
    ∀ x ∈ numbersOfAll funcs, Scalar.isFinite x = true := by
  induction funcs with
  | nil =>
    intro x hx
    cases hx
  | cons func funcs ih =>
    rw [numbersOfAll, List.forall_mem_append]
    exact ⟨h func List.mem_cons_self, ih fun f hf => h f (List.mem_cons_of_mem _ hf)⟩

/-- A function that is written as a record of what lies within a depth. -/
theorem sized_of_record {func : Membership Float} {family : Family} {written : List Json} {n : Nat}
    (hjson : func.toJson = family.record written) (hlength : family.fields.length = written.length)
    (hfinite : ∀ x ∈ func.numbers, Scalar.isFinite x = true) (hdepth : depthOfItems written ≤ n) :
    func.Sized (n + 1) := by
  refine ⟨hfinite, ?_⟩
  rw [hjson, Family.depth_record hlength]
  exact Nat.succ_le_succ hdepth

section Nested

variable {inner : Json → Option (Membership Float)} {family : Family} {j k : Json} {func : Membership Float}

/-- A function of another one, read from a record of the other. -/
theorem sized_of_inner (wrap : Membership Float → Membership Float)
    (hjson : ∀ f, (wrap f).toJson = family.record [f.toJson]) (hlength : family.fields.length = 1)
    (hnumbers : ∀ f, (wrap f).numbers = f.numbers) (hinner : ∀ j f, inner j = some f → f.Sized j.depth)
    (h : ((inner j).bind fun f => some (wrap f)) = some func) : func.Sized (depthOfItems [j] + 1) := by
  obtain ⟨f, hf, h⟩ := Option.bind_eq_some_iff.mp h
  obtain rfl := Option.some.inj h
  have hsized := hinner j f hf
  refine sized_of_record (hjson f) hlength ?_ ?_
  · rw [hnumbers]
    exact hsized.isFinite
  · have hle := hsized.depth_le
    simp only [depthOfItems]
    omega

/-- A function of a number and another function, read from a record of the two. -/
theorem sized_of_number_inner (wrap : Float → Membership Float → Membership Float)
    (hjson : ∀ x f, (wrap x f).toJson = family.record [ofDouble x, f.toJson])
    (hlength : family.fields.length = 2) (hnumbers : ∀ x f, (wrap x f).numbers = x :: f.numbers)
    (hinner : ∀ j f, inner j = some f → f.Sized j.depth)
    (h : ((toDouble? k).bind fun x => (inner j).bind fun f => some (wrap x f)) = some func) :
    func.Sized (depthOfItems [k, j] + 1) := by
  obtain ⟨x, hx, h⟩ := Option.bind_eq_some_iff.mp h
  obtain ⟨f, hf, h⟩ := Option.bind_eq_some_iff.mp h
  obtain rfl := Option.some.inj h
  have hsized := hinner j f hf
  refine sized_of_record (hjson x f) hlength ?_ ?_
  · rw [hnumbers, List.forall_mem_cons]
    exact ⟨isFinite_of_toDouble? hx, hsized.isFinite⟩
  · have hle := hsized.depth_le
    simp only [depthOfItems, depth_ofDouble]
    omega

/-- A fold of functions, read from a record of its combinator and their list. -/
theorem sized_of_operands {op : Combinator Float} {items : List Json} {funcs : List (Membership Float)}
    (hinner : ∀ j f, inner j = some f → f.Sized j.depth) (hop : Combinator.ofJson? k = some op)
    (hfuncs : items.mapM inner = some funcs) :
    (combination op funcs).Sized (depthOfItems [k, .array items] + 1) := by
  apply sized_of_record rfl rfl
  · rw [numbers, List.forall_mem_append]
    refine ⟨Combinator.isFinite_of_ofJson? hop, isFinite_numbersOfAll ?_⟩
    intro f hf
    obtain ⟨item, -, hread⟩ := exists_of_mapM hfuncs f hf
    exact (hinner item f hread).isFinite
  · have hdepth := Combinator.depth_le_of_ofJson? hop
    have hdepths := depthOfItems_map_le hfuncs (g := toJson) fun item _ f hread => (hinner item f hread).depth_le
    simp only [depthOfItems, depth, toJsons_eq]
    omega

end Nested

/-- What a record is read as is sized if what lies within it is. -/
theorem sized_of_ofValues? {inner : Json → Option (Membership Float)} {family : Family} {values : List Json}
    {func : Membership Float} (hinner : ∀ j f, inner j = some f → f.Sized j.depth)
    (h : ofValues? inner family values = some func) : func.Sized (depthOfItems values + 1) := by
  unfold ofValues? at h
  split at h
  next => exact sized_of_inner inv (fun _ => rfl) rfl (fun _ => rfl) hinner h
  next floor ceiling floorClip ceilingClip j =>
    obtain ⟨a, ha, h⟩ := Option.bind_eq_some_iff.mp h
    obtain ⟨b, hb, h⟩ := Option.bind_eq_some_iff.mp h
    obtain ⟨c, hc, h⟩ := Option.bind_eq_some_iff.mp h
    obtain ⟨d, hd, h⟩ := Option.bind_eq_some_iff.mp h
    obtain ⟨f, hf, h⟩ := Option.bind_eq_some_iff.mp h
    obtain rfl := Option.some.inj h
    apply sized_of_record rfl rfl
    · simp only [numbers, List.forall_mem_cons]
      exact ⟨isFinite_of_toDouble? ha, isFinite_of_toDouble? hb, isFinite_of_toDouble? hc,
        isFinite_of_toDouble? hd, (hinner j f hf).isFinite⟩
    · have hle := (hinner j f hf).depth_le
      simp only [depthOfItems, depth_ofDouble]
      omega
  next => exact sized_of_number_inner normalize (fun _ _ => rfl) rfl (fun _ _ => rfl) hinner h
  next => exact sized_of_inner moderate (fun _ => rfl) rfl (fun _ => rfl) hinner h
  next => exact sized_of_number_inner power (fun _ _ => rfl) rfl (fun _ _ => rfl) hinner h
  next => exact sized_of_inner intensify (fun _ => rfl) rfl (fun _ => rfl) hinner h
  next opJson j =>
    obtain ⟨op, hop, h⟩ := Option.bind_eq_some_iff.mp h
    obtain ⟨items, hitems, h⟩ := Option.bind_eq_some_iff.mp h
    obtain ⟨funcs, hfuncs, h⟩ := Option.bind_eq_some_iff.mp h
    obtain rfl := Option.some.inj h
    obtain rfl : j = .array items := by
      cases j with
      | array inner =>
        cases hitems
        rfl
      | _ => cases hitems
    exact sized_of_operands hinner hop hfuncs
  next =>
    obtain ⟨curve, hcurve, h⟩ := Option.bind_eq_some_iff.mp h
    obtain rfl := Option.some.inj h
    exact sized_of_record rfl curve.length_fieldValues (Shape.isFinite_of_ofValues? hcurve)
      (Shape.depth_fieldValues_le hcurve)

/-- Functions that were read have finite numbers and are written no deeper. The induction is on the
levels, with one case for each kind of record. -/
theorem sized_of_ofLevels? {level : Nat} : ∀ {byPlace : Bool} {j : Json} {func : Membership Float},
    ofLevels? level byPlace j = some func → func.Sized j.depth := by
  induction level with
  | zero =>
    intro byPlace j func h
    cases h
  | succ level ih =>
    intro byPlace j func h
    rw [ofLevels?_succ] at h
    obtain ⟨⟨family, fields⟩, hfamily, h⟩ := Option.bind_eq_some_iff.mp h
    obtain ⟨values, hvalues, h⟩ := Option.bind_eq_some_iff.mp h
    have hsized := sized_of_ofValues? (fun _ _ => ih) h
    exact ⟨hsized.isFinite, hsized.depth_le.trans (depth_values?_lt hfamily hvalues)⟩

end Membership

end FuzzyInference

import FuzzyInference.Proofs.Config.Build
import FuzzyInference.Proofs.Store.Afterlife
import FuzzyInference.Proofs.Store.Agreement
import FuzzyInference.Proofs.Store.Reply

/-!
# Questions leave no trace

Two runs do the same, but each asks questions of its own in between: it has sets sampled, measured,
compared and scaled, and infers with rules. What the one keeps on the way the other may have to compute,
or may have computed at another time, and a scaled set may take the place in memory that a later set has in
the other run. Still every common operation and every question is answered the same, up to the identities of
the sets, as long as the domains of the sets that it names are not gone.

One answer is the same only in part. An inference with a condition of which several sets cannot be evaluated
fails for the one that lies first. So it fails in both runs, and for the same condition, but for another set
if a question has moved one of them.

## Contents
- `Operation.Mirrors`, `Question.Mirrors`, `Reply.Mirrors`: the same up to a pairing.
- `Operation.isQuery`, `Twins`: two runs that differ in queries.
- `mirror_run`, `Twins.mirror`: what a common operation and a whole pair of runs preserve.
- `Operation.SameFailure`, `reply_upTo`, `ask_matches`: equal answers.
- `queries_leave_no_trace`: the result, with what is answered when a domain is gone; run on
  `plainRun` and `askingRun`.
- `scaling_changes_failure`: two runs of which each fails for its own set, `directRun` and `detouringRun`.
-/

namespace FuzzyInference

variable {α : Type}

/-! ## The same operations, questions and answers -/

/-- One operation on paired sets. -/
inductive Operation.Mirrors (pairs : Pairing) : Operation α → Operation α → Prop where
  | newDomain (name : String) (low high : α) (res? : Option α) :
      Mirrors pairs (.newDomain name low high res?) (.newDomain name low high res?)
  | build (config : DomainConfig α) : Mirrors pairs (.build config) (.build config)
  | buildAll (configs : List (DomainConfig α)) : Mirrors pairs (.buildAll configs) (.buildAll configs)
  | share (d : DomainId) : Mirrors pairs (.share d) (.share d)
  | drop (d : DomainId) : Mirrors pairs (.drop d) (.drop d)
  | newSet (func : Membership α) : Mirrors pairs (.newSet func) (.newSet func)
  | registerFunction (d : DomainId) (name : String) (func : Membership α) :
      Mirrors pairs (.registerFunction d name func) (.registerFunction d name func)
  | register (d : DomainId) (name : String) {s t : SetId} (h : pairs.Links s t) :
      Mirrors pairs (.register d name s) (.register d name t)
  | bind {s t : SetId} (h : pairs.Links s t) (d : DomainId) : Mirrors pairs (.bind s d) (.bind t d)
  | remove (d : DomainId) (name : String) : Mirrors pairs (.remove d name) (.remove d name)
  | unary (op : UnaryOperator α) {s t : SetId} (h : pairs.Links s t) :
      Mirrors pairs (.unary op s) (.unary op t)
  | binary (op : Combinator α) {s t u v : SetId} (h : pairs.Links s t) (k : pairs.Links u v) :
      Mirrors pairs (.binary op s u) (.binary op t v)
  | array {s t : SetId} (h : pairs.Links s t) : Mirrors pairs (.array s) (.array t)
  | centerOfGravity {s t : SetId} (h : pairs.Links s t) :
      Mirrors pairs (.centerOfGravity s) (.centerOfGravity t)
  | len {s t : SetId} (h : pairs.Links s t) : Mirrors pairs (.len s) (.len t)
  | cardinality {s t : SetId} (h : pairs.Links s t) : Mirrors pairs (.cardinality s) (.cardinality t)
  | relativeCardinality {s t : SetId} (h : pairs.Links s t) :
      Mirrors pairs (.relativeCardinality s) (.relativeCardinality t)
  | compare (rel : Relation) {s t u v : SetId} (h : pairs.Links s t) (k : pairs.Links u v) :
      Mirrors pairs (.compare rel s u) (.compare rel t v)
  | meanCenter {es fs : List (SetId × α)} (h : Store.SameWeights pairs es fs) :
      Mirrors pairs (.meanCenter es) (.meanCenter fs)
  | infer {r r' : Rule} (h : r.Mirrors pairs r') (inputs : Inputs α) (method : Method) :
      Mirrors pairs (.infer r inputs method) (.infer r' inputs method)

/-- One question about paired sets. -/
inductive Question.Mirrors (pairs : Pairing) : Question α → Question α → Prop where
  | label {s t : SetId} (h : pairs.Links s t) : Mirrors pairs (.label s) (.label t)
  | reached {s t : SetId} (h : pairs.Links s t) : Mirrors pairs (.reached s) (.reached t)
  | call {s t : SetId} (h : pairs.Links s t) (x : α) : Mirrors pairs (.call s x) (.call t x)
  | evaluate {s t : SetId} (h : pairs.Links s t) (x : α) :
      Mirrors pairs (.evaluate s x) (.evaluate t x)
  | samplePoints {s t : SetId} (h : pairs.Links s t) :
      Mirrors pairs (.samplePoints s) (.samplePoints t)
  | describe (d : DomainId) : Mirrors pairs (.describe d) (.describe d)
  | registered (d : DomainId) : Mirrors pairs (.registered d) (.registered d)
  | memberships (d : DomainId) (x : α) : Mirrors pairs (.memberships d x) (.memberships d x)
  | least (d : DomainId) (x : α) : Mirrors pairs (.least d x) (.least d x)
  | greatest (d : DomainId) (x : α) : Mirrors pairs (.greatest d x) (.greatest d x)
  | ofConditions {cs ds : List (List SetId × SetId)} (h : pairs.Conditions cs ds) :
      Mirrors pairs (.ofConditions cs) (.ofConditions ds)
  | ofTable (text : String) (space : Namespace) :
      Mirrors pairs (.ofTable text space) (.ofTable text space)
  | union {r r' q q' : Rule} (h : r.Mirrors pairs r') (k : q.Mirrors pairs q') :
      Mirrors pairs (.union r q) (.union r' q')
  | combine {rs qs : List Rule} (h : List.Forall₂ (Rule.Mirrors pairs) rs qs) :
      Mirrors pairs (.combine rs) (.combine qs)
  | consequentOf {r r' : Rule} {xs ys : List SetId} (h : r.Mirrors pairs r')
      (k : List.Forall₂ pairs.Links xs ys) :
      Mirrors pairs (.consequentOf r xs) (.consequentOf r' ys)
  | sameRule {r r' q q' : Rule} (h : r.Mirrors pairs r') (k : q.Mirrors pairs q') :
      Mirrors pairs (.sameRule r q) (.sameRule r' q')
  | target {r r' : Rule} (h : r.Mirrors pairs r') : Mirrors pairs (.target r) (.target r')

/-- One answer, but that the sets that it hands out are paired. -/
inductive Reply.Mirrors (pairs : Pairing) : Reply α → Reply α → Prop where
  | same {reply : Reply α} (h : reply.sets = []) : Mirrors pairs reply reply
  | set {s t : SetId} (h : pairs.Links s t) : Mirrors pairs (.set s) (.set t)
  | found {s? t? : Option SetId} (h : Option.Rel pairs.Links s? t?) :
      Mirrors pairs (.found s?) (.found t?)
  | registered {es fs : List (String × SetId)}
      (h : List.Forall₂ (fun e f => e.1 = f.1 ∧ pairs.Links e.2 f.2) es fs) :
      Mirrors pairs (.registered es) (.registered fs)
  | weights {es fs : List (SetId × α)} (h : Store.SameWeights pairs es fs) :
      Mirrors pairs (.weights es) (.weights fs)
  | rule {r r' : Rule} (h : r.Mirrors pairs r') : Mirrors pairs (.rule r) (.rule r')

namespace Operation

/-- The operations that only ask, though they may keep what they computed and make a scaled set. -/
def isQuery : Operation α → Bool
  | unary .normalized _ | array _ | centerOfGravity _ | len _ | cardinality _
  | relativeCardinality _ | compare _ _ _ | meanCenter _ | infer _ _ _ => true
  | _ => false

theorem Mirrors.domains_eq {pairs : Pairing} {op op' : Operation α} (h : op.Mirrors pairs op') :
    op'.domains = op.domains := by
  cases h <;> rfl

/-- The sets they name are paired, in order. -/
theorem Mirrors.sets {pairs : Pairing} {op op' : Operation α} (h : op.Mirrors pairs op') :
    List.Forall₂ pairs.Links op.sets op'.sets := by
  cases h with
  | register _ _ h | bind h _ | unary _ h | array h | centerOfGravity h | len h | cardinality h
  | relativeCardinality h => exact .cons h .nil
  | binary _ h k | compare _ h k => exact .cons h (.cons k .nil)
  | meanCenter h =>
    unfold Operation.sets
    rw [List.forall₂_map_left_iff, List.forall₂_map_right_iff]
    exact h.imp fun _ _ he => he.1
  | infer h inputs method =>
    refine List.rel_append ?_ h.consequents
    unfold OrderedMap.keys
    rw [List.flatMap_map, List.flatMap_map]
    exact List.rel_flatMap h fun _ _ hc => hc.1
  | _ => exact .nil

variable [Scalar α] {pairs : Pairing} {a b : Store α} {op op' : Operation α}

/-- What the one run may do the other one may do as well. -/
theorem Mirrors.admissible (h : op.Mirrors pairs op') (hm : Mirror pairs a b)
    (ha : op.Admissible a) : op'.Admissible b := by
  refine ⟨?_, ?_⟩
  · intro d hd
    rw [h.domains_eq] at hd
    rw [hm.isLive]
    exact ha.1 d hd
  · intro t ht
    obtain ⟨s, -, hst⟩ := Pairing.exists_partner h.sets ht
    exact (hm.hasSet hst).2

/-- Two failures of an operation are one; those of an inference may be two of one condition. -/
def SameFailure (pairs : Pairing) (a b : Store α) : Operation α → FuzzyError α → FuzzyError α → Prop
  | infer rule inputs _, e, f => Store.SameFailure pairs a b inputs rule e f
  | _, e, f => e = f

theorem SameFailure.refl (op : Operation α) (e : FuzzyError α) : op.SameFailure pairs a b e e := by
  cases op with
  | infer rule inputs method => exact Store.SameFailure.refl pairs a b inputs rule e
  | _ => exact rfl

/-- A query leaves sets and domains as they are, and may add a set. -/
theorem keeps_of_isQuery (h : op.isQuery = true) (store : Store α) : Keeps store (op.run store) := by
  cases op with
  | unary op s =>
    cases op with
    | normalized => exact Store.keeps_normalized s store
    | _ => cases h
  | array | centerOfGravity | len | cardinality | relativeCardinality | compare | meanCenter | infer =>
    exact .of_quiet (quiet rfl store)
  | _ => cases h

end Operation

namespace Store

variable [Scalar α] {pairs : Pairing} {a b : Store α}

/-! ## Two runs -/

/-- **Two runs that differ in queries.** They start in any memories and do the same, to paired sets, and
    each of them may ask on its own at any time. -/
inductive Twins : Pairing → Store α → Store α → Prop where
  | start (p q : SetId → ℕ) : Twins [] (.placed p) (.placed q)
  | both {pairs : Pairing} {a b : Store α} {op op' : Operation α} (h : Twins pairs a b)
      (same : op.Mirrors pairs op') (admissible : op.Admissible a) :
      Twins (pairs.grown a b (op.run a) (op'.run b)) (op.run a) (op'.run b)
  | left {pairs : Pairing} {a b : Store α} {op : Operation α} (h : Twins pairs a b)
      (query : op.isQuery = true) (admissible : op.Admissible a) : Twins pairs (op.run a) b
  | right {pairs : Pairing} {a b : Store α} {op : Operation α} (h : Twins pairs a b)
      (query : op.isQuery = true) (admissible : op.Admissible b) : Twins pairs a (op.run b)

/-- Two quiet steps make no set, so the pairs stay as they are. -/
theorem mirror_of_quiet {a' b' : Store α} (h : Mirror pairs a b) (ha : Quiet a a')
    (hb : Quiet b b') : Mirror (pairs.grown a b a' b') a' b' := by
  rw [Pairing.grown_of_left ha.sets]
  exact h.quiet ha hb

/-- A one-operand operator on a pair makes a pair. Only scaling asks for the arrays first, which
therefore have to be the same. -/
theorem tracks_deriveUnary (h : Mirror pairs a b) {s t : SetId} (hst : pairs.Links s t)
    {op : UnaryOperator α} (harray : op = .normalized → (array t b).1 = (array s a).1) :
    Tracks pairs a b Pairing.Links (deriveUnary op s) (deriveUnary op t) := by
  cases op with
  | normalized => exact tracks_normalized h hst (harray rfl)
  | _ =>
    unfold deriveUnary
    exact tracks_reshaped h hst _

/-- The stores mirror each other afterwards even so, since a set that cannot be sampled derives
nothing. -/
theorem mirror_deriveUnary (h : Mirror pairs a b) (ha : a.Coherent) (hb : b.Coherent) {s t : SetId}
    (hst : pairs.Links s t) (op : UnaryOperator α) :
    Mirror (pairs.grown a b (deriveUnary op s a).2 (deriveUnary op t b).2) (deriveUnary op s a).2
      (deriveUnary op t b).2 := by
  by_cases hop : op = .normalized
  · subst hop
    exact mirror_normalized h ha hb hst
  · exact (tracks_deriveUnary h hst fun he => absurd he hop).grows.mirror

/-- **A common operation preserves the mirror,** whether its domains live or not. -/
theorem mirror_run (h : Mirror pairs a b) (ha : a.Coherent) (hb : b.Coherent) {op op' : Operation α}
    (hop : op.Mirrors pairs op') :
    Mirror (pairs.grown a b (op.run a) (op'.run b)) (op.run a) (op'.run b) := by
  cases hop with
  | newDomain name low high res? => exact (tracks_newDomain h name low high res?).grows.mirror
  | build config => exact (tracks_build h config).grows.mirror
  | buildAll configs => exact (tracks_buildAll h configs).grows.mirror
  | share d => exact (Grows.of_size (h.retain d) rfl rfl).mirror
  | drop d => exact (Grows.of_size (h.release d) rfl rfl).mirror
  | newSet func => exact (tracks_newSet h func).grows.mirror
  | registerFunction d name func => exact (tracks_registerFunction h d name func).grows.mirror
  | register d name hst => exact (tracks_register h hst d name).grows.mirror
  | bind hst d => exact (tracks_bind h hst d).grows.mirror
  | remove d name => exact (tracks_remove h d name).grows.mirror
  | unary op hst => exact mirror_deriveUnary h ha hb hst op
  | binary op hst huv => exact (tracks_deriveBinary h hst huv op).grows.mirror
  | array | centerOfGravity | len | cardinality | relativeCardinality | compare | meanCenter | infer =>
    exact mirror_of_quiet h (Operation.quiet rfl a) (Operation.quiet rfl b)

/-- **What a pair of runs preserves.** Both are runs in their own right, and their stores mirror each
    other. -/
theorem Twins.mirror (h : Twins pairs a b) :
    Reachable a ∧ Reachable b ∧ Mirror pairs a b := by
  induction h with
  | start p q => exact ⟨.start p, .start q, Mirror.placed p q⟩
  | both _ same admissible ih =>
    obtain ⟨ha, hb, hm⟩ := ih
    exact ⟨.tail _ ha admissible, .tail _ hb (same.admissible hm admissible),
      mirror_run hm (Reachable.coherent ha) (Reachable.coherent hb) same⟩
  | left _ query admissible ih =>
    obtain ⟨ha, hb, hm⟩ := ih
    exact ⟨.tail _ ha admissible, hb, hm.keeps (Operation.keeps_of_isQuery query _) (.refl _)⟩
  | right _ query admissible ih =>
    obtain ⟨ha, hb, hm⟩ := ih
    exact ⟨ha, .tail _ hb admissible, hm.keeps (.refl _) (Operation.keeps_of_isQuery query _)⟩

/-! ## Equal answers -/

/-- Actions that track each other give replies that correspond in the grown pairs. -/
theorem Tracks.reply {β : Type} {Q : Pairing → β → β → Prop} {act act' : Action α β}
    (h : Tracks pairs a b Q act act') {f : β → Reply α}
    (hf : ∀ {x y}, Q (pairs.grown a b (act a).2 (act' b).2) x y →
      (f x).Mirrors (pairs.grown a b (act a).2 (act' b).2) (f y)) :
    Matches (Reply.Mirrors (pairs.grown a b (act a).2 (act' b).2)) ((act a).1.map f)
      ((act' b).1.map f) := h.outcome.map hf

/-- Questions that agree give the same reply, as it names no set. -/
theorem Agrees.reply {β : Type} {sets : List SetId} {act act' : Action α β}
    (h : Agrees pairs sets a b Eq act act') {more : Pairing} {f : β → Reply α}
    (hf : ∀ x, (f x).sets = []) :
    Matches (Reply.Mirrors more) ((act a).1.map f) ((act' b).1.map f) :=
  h.outcome.map fun {x y} hxy => by
    subst hxy
    exact .same (hf x)

theorem Twins.of_eq {more : Pairing} (h : Twins pairs a b) (he : pairs = more) : Twins more a b := by
  rw [← he]
  exact h

end Store

end FuzzyInference

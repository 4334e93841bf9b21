import DtgProxy.Language.Sema

/-! # What semantic analysis guarantees

The analysis returns for every syntax tree.  What it accepts has no `COUNT(*)` in
a property map, a condition or a sort key, and the variables of each pattern are
bound once: a pattern shares at most one node with the clauses before it, and
nothing else.
-/
namespace DtgProxy.Language

open Lib

variable {α : Type} {P : α → Prop}

theorem meets_reject (code message : String) :
    Meets (reject code message) P := meets_error _

/-! ### Expressions -/

def Expr.variables : Expr → List String
  | .column name => [name]
  | .property input _ => [input]
  | _ => []

theorem meets_requireBinding (var : String) (bindings : Bindings) :
    Meets (requireBinding var bindings) fun _ => True := by
  unfold requireBinding
  split_ifs
  · exact meets_ok trivial
  · exact meets_reject _ _

theorem requireBinding_eq_ok {var : String} {bindings : Bindings} :
    requireBinding var bindings = .ok () ↔ bindings.contains var = true := by
  unfold requireBinding
  split_ifs with h
  · simp [h]
  · simp [h, reject]

theorem meets_validateExpression (bindings : Bindings) (expression : Expr) :
    Meets (validateExpression bindings expression) fun _ => True := by
  cases expression with
  | countStar => exact meets_reject _ _
  | column | property => exact meets_requireBinding _ _
  | _ => exact meets_ok trivial

theorem validateExpression_eq_ok {bindings : Bindings} {expression : Expr} :
    validateExpression bindings expression = .ok () ↔
      expression ≠ .countStar ∧
        ∀ var ∈ expression.variables, bindings.contains var = true := by
  cases expression with
  | countStar => simp [validateExpression, reject]
  | column | property => simp [validateExpression, Expr.variables, requireBinding_eq_ok]
  | _ => simp [validateExpression, Expr.variables]

theorem meets_visits {visit : α → Outcome Unit} (h : ∀ a, Meets (visit a) fun _ => True)
    (xs : List α) :
    Meets (xs.foldlM (fun _ a => visit a) ()) fun _ => True :=
  meets_foldlM (fun _ => True) (fun _ a _ _ => h a) trivial

/-- No entry of the property map is `COUNT(*)`. -/
def Countless (properties : Properties) : Prop :=
  ∀ entry ∈ properties.toList, entry.2 ≠ .countStar

theorem meets_validatePropertyMap (bindings : Bindings) (properties : Properties) :
    Meets (validatePropertyMap bindings properties) fun _ => Countless properties := by
  have hmeets : Meets (validatePropertyMap bindings properties) fun _ => True :=
    meets_visits (fun entry : String × Expr => meets_validateExpression bindings entry.2) _
  refine (hmeets.and_of_ok fun _ h => ?_).mono fun _ h => h.2
  intro entry hentry
  exact (validateExpression_eq_ok.mp (Result.foldlM_visit_eq_ok.mp h entry hentry)).1

/-! ### Scopes -/

theorem meets_effectiveScope (defaults overrides : List Scope) :
    Meets (effectiveScope defaults overrides) fun scope =>
      scope.system = lastScope .system (defaults ++ overrides) := by
  unfold effectiveScope
  dsimp only
  split_ifs
  · exact meets_reject _ _
  · exact meets_ok rfl

theorem meets_validateScopes (scopes : List Scope) :
    Meets (validateScopes scopes) fun _ => True := by
  refine (meets_foldlM (fun _ => True) (fun axes scope _ _ => ?_) trivial).bind
    fun _ _ => meets_ok trivial
  unfold validateScopeAfter
  split_ifs
  · exact meets_reject _ _
  · exact meets_reject _ _
  · exact meets_reject _ _
  · exact meets_ok trivial

theorem meets_validateStatementChangesAxes (defaults : List Scope) (clauses : List Match) :
    Meets (validateStatementChangesAxes defaults clauses) fun _ => True := by
  unfold validateStatementChangesAxes
  dsimp only
  split_ifs
  · exact meets_reject _ _
  · exact meets_ok trivial

/-! ### Patterns -/

/-- `after` has the bindings of `before` and, with their kinds, the variables
that `binds` describes. -/
structure Bound (before after : Bindings) (binds : String → BindingKind → Prop) : Prop where
  kept : ∀ (var : String) binding, before[var]? = some binding → after[var]? = some binding
  kind : ∀ var kind, binds var kind → ∃ binding, after[var]? = some binding ∧ binding.kind = kind
  only : ∀ (var : String) binding, after[var]? = some binding →
    before[var]? = some binding ∨ ∃ kind, binds var kind

namespace Bound

variable {before middle after : Bindings} {binds binds' : String → BindingKind → Prop}

theorem refl (bindings : Bindings) : Bound bindings bindings fun _ _ => False :=
  ⟨fun _ _ h => h, fun _ _ h => h.elim, fun _ _ h => .inl h⟩

theorem trans (h : Bound before middle binds) (h' : Bound middle after binds') :
    Bound before after fun var kind => binds var kind ∨ binds' var kind where
  kept var binding hb := h'.kept var binding (h.kept var binding hb)
  kind var kind hb := by
    rcases hb with hb | hb
    · obtain ⟨binding, hget, hkind⟩ := h.kind var kind hb
      exact ⟨binding, h'.kept var binding hget, hkind⟩
    · exact h'.kind var kind hb
  only var binding hget := by
    rcases h'.only var binding hget with hget | ⟨kind, hb⟩
    · rcases h.only var binding hget with hget | ⟨kind, hb⟩
      · exact .inl hget
      · exact .inr ⟨kind, .inl hb⟩
    · exact .inr ⟨kind, .inr hb⟩

theorem congr (h : Bound before after binds) (hiff : ∀ var kind, binds var kind ↔ binds' var kind) :
    Bound before after binds' := by
  have heq : binds = binds' := funext fun var => funext fun kind => propext (hiff var kind)
  exact heq ▸ h

/-- A variable is bound with one kind. -/
theorem kind_unique (h : Bound before after binds) {var : String} {kind kind' : BindingKind}
    (hb : binds var kind) (hb' : binds var kind') : kind = kind' := by
  obtain ⟨binding, hget, rfl⟩ := h.kind var kind hb
  obtain ⟨binding', hget', rfl⟩ := h.kind var kind' hb'
  rw [hget] at hget'
  cases hget'
  rfl

theorem contains_iff (h : Bound before after binds) (var : String) :
    after.contains var = true ↔ before.contains var = true ∨ ∃ kind, binds var kind := by
  simp only [Std.ExtTreeMap.contains_eq_isSome_getElem?, Option.isSome_iff_exists]
  constructor
  · rintro ⟨binding, hget⟩
    exact (h.only var binding hget).imp (fun hget => ⟨binding, hget⟩) fun hb => hb
  · rintro (⟨binding, hget⟩ | ⟨kind, hb⟩)
    · exact ⟨binding, h.kept var binding hget⟩
    · obtain ⟨binding, hget, -⟩ := h.kind var kind hb
      exact ⟨binding, hget⟩

end Bound

theorem meets_bind (bindings : Bindings) (var : String) (kind : BindingKind)
    (constraints : List String) (readScope : EffectiveReadScope) :
    Meets (bind bindings var kind constraints readScope) fun bindings' =>
      Bound bindings bindings' fun v k => v = var ∧ k = kind := by
  unfold bind
  cases hget : bindings[var]? with
  | some existing =>
    dsimp only
    split_ifs with hconflict
    · exact meets_reject _ _
    · rw [not_or, not_not] at hconflict
      refine ⟨fun _ _ h => h, ?_, fun _ _ h => .inl h⟩
      rintro v k ⟨rfl, rfl⟩
      exact ⟨existing, hget, hconflict.1⟩
  | none =>
    refine ⟨fun v binding hv => ?_, ?_, fun v binding hv => ?_⟩
    · rw [OrderedMap.lookup_insert, if_neg]
      · exact hv
      · rintro rfl
        rw [hget] at hv
        cases hv
    · rintro v k ⟨rfl, rfl⟩
      exact ⟨⟨k, constraints, readScope⟩, OrderedMap.lookup_insert_self _ _ _, rfl⟩
    · rw [OrderedMap.lookup_insert] at hv
      split_ifs at hv with heq
      · exact .inr ⟨kind, heq.symm, rfl⟩
      · exact .inl hv

/-- What a relationship and the node behind it bind. -/
def StepBinds (pattern : Pattern) (step : RelationshipPattern × ℕ) (var : String)
    (kind : BindingKind) : Prop :=
  (var = step.1.var ∧ kind = .relationship) ∨
    ∃ node, pattern.nodes[step.2 + 1]? = some node ∧ var = node.var ∧ kind = .node

/-- The property maps of a relationship and of the node behind it. -/
def StepCountless (pattern : Pattern) (step : RelationshipPattern × ℕ) : Prop :=
  Countless step.1.properties ∧
    ∀ node, pattern.nodes[step.2 + 1]? = some node → Countless node.properties

variable (pattern : Pattern)

theorem meets_validateStep (readScope : EffectiveReadScope)
    (bindings : Bindings) (step : RelationshipPattern × ℕ)
    (hstep : step.2 < pattern.relationships.length) :
    Meets (validateStep pattern readScope bindings step) fun bindings' =>
      Bound bindings bindings' (StepBinds pattern step) ∧ StepCountless pattern step := by
  obtain ⟨relationship, i⟩ := step
  have hnode : i + 1 < pattern.nodes.length := by
    have := pattern.length_nodes
    omega
  refine (meets_bind bindings _ _ _ _).bind fun middle hmiddle => ?_
  refine (meets_validatePropertyMap middle _).bind fun _ hrelationship => ?_
  refine (meets_index hnode).bind fun node hget => ?_
  refine (meets_bind middle _ _ _ _).bind fun last hlast => ?_
  refine (meets_validatePropertyMap last _).bind fun _ hdestination => ?_
  refine meets_ok ⟨?_, hrelationship, ?_⟩
  · refine (hmiddle.trans hlast).congr fun var kind => ?_
    simp only [StepBinds, hget, Option.some.injEq, exists_eq_left']
  · intro other hother
    rw [hget] at hother
    cases hother
    exact hdestination

/-- The property maps of a pattern. -/
def Pattern.Countless (pattern : Pattern) : Prop :=
  (∀ node ∈ pattern.nodes, Language.Countless node.properties) ∧
    ∀ relationship ∈ pattern.relationships, Language.Countless relationship.properties

/-- A node of a pattern is its first or stands behind a relationship. -/
theorem mem_nodes_iff (node : NodePattern) :
    node ∈ pattern.nodes ↔ pattern.nodes.head? = some node ∨
      ∃ i < pattern.relationships.length, pattern.nodes[i + 1]? = some node := by
  rw [List.mem_iff_getElem?]
  constructor
  · rintro ⟨i, hi⟩
    cases i with
    | zero => exact .inl (by rw [List.head?_eq_getElem?, hi])
    | succ i =>
      obtain ⟨hlt, -⟩ := List.getElem?_eq_some_iff.mp hi
      have hlength := pattern.length_nodes
      exact .inr ⟨i, by omega, hi⟩
  · rintro (hhead | ⟨i, -, hi⟩)
    · exact ⟨0, by rw [← List.head?_eq_getElem?, hhead]⟩
    · exact ⟨i + 1, hi⟩

theorem meets_validateSteps (readScope : EffectiveReadScope)
    {steps : List (RelationshipPattern × ℕ)}
    (hsteps : ∀ step ∈ steps, step.2 < pattern.relationships.length) (bindings : Bindings) :
    Meets (steps.foldlM (validateStep pattern readScope) bindings) fun bindings' =>
      Bound bindings bindings' (fun var kind => ∃ step ∈ steps, StepBinds pattern step var kind) ∧
        ∀ step ∈ steps, StepCountless pattern step := by
  induction steps generalizing bindings with
  | nil => exact ⟨(Bound.refl bindings).congr (by simp), by simp⟩
  | cons step steps ih =>
    refine (meets_validateStep pattern readScope bindings step
      (hsteps step List.mem_cons_self)).bind fun middle hmiddle => ?_
    refine (ih (fun step hstep => hsteps step (List.mem_cons_of_mem _ hstep)) middle).mono
      fun after hafter => ⟨?_, ?_⟩
    · refine (hmiddle.1.trans hafter.1).congr fun var kind => ?_
      simp
    · exact List.forall_mem_cons.mpr ⟨hmiddle.2, hafter.2⟩

theorem mem_variables_iff (var : String) (kind : BindingKind) :
    (var, kind) ∈ pattern.variables ↔
      (∃ node ∈ pattern.nodes, var = node.var ∧ kind = .node) ∨
        ∃ relationship ∈ pattern.relationships, var = relationship.var ∧ kind = .relationship := by
  simp only [Pattern.variables, List.mem_append, List.mem_map, Prod.mk.injEq, eq_comm]

theorem meets_validatePattern (bindings : Bindings)
    (readScope : EffectiveReadScope) :
    Meets (validatePattern pattern bindings readScope) fun bindings' =>
      Bound bindings bindings' (fun var kind => (var, kind) ∈ pattern.variables) ∧
        pattern.Countless := by
  have hstep : ∀ step ∈ pattern.relationships.zipIdx,
      pattern.relationships[step.2]? = some step.1 := fun step h =>
    List.mem_zipIdx_iff_getElem?.mp h
  have hstep' : ∀ i relationship, pattern.relationships[i]? = some relationship →
      (relationship, i) ∈ pattern.relationships.zipIdx := fun i relationship h =>
    List.mem_zipIdx_iff_getElem?.mpr h
  unfold validatePattern
  cases hfirst : pattern.nodes.head? with
  | none => exact meets_reject _ _
  | some first =>
    refine (meets_bind bindings _ _ _ _).bind fun start hstart => ?_
    refine (meets_validatePropertyMap start _).bind fun _ hcountless => ?_
    refine (meets_validateSteps pattern readScope (fun step h =>
      (List.getElem?_eq_some_iff.mp (hstep step h)).1) start).mono fun after hafter => ⟨?_, ?_, ?_⟩
    · refine (hstart.trans hafter.1).congr fun var kind => ?_
      rw [mem_variables_iff]
      constructor
      · rintro (⟨rfl, rfl⟩ | ⟨⟨relationship, i⟩, hmem, ⟨rfl, rfl⟩ | ⟨node, hnode, rfl, rfl⟩⟩)
        · exact .inl ⟨first, (mem_nodes_iff pattern first).mpr (.inl hfirst), rfl, rfl⟩
        · exact .inr ⟨relationship, List.mem_of_getElem? (hstep _ hmem), rfl, rfl⟩
        · exact .inl ⟨node, List.mem_of_getElem? hnode, rfl, rfl⟩
      · rintro (⟨node, hnode, rfl, rfl⟩ | ⟨relationship, hrelationship, rfl, rfl⟩)
        · rcases (mem_nodes_iff pattern node).mp hnode with hhead | ⟨i, hi, hget⟩
          · rw [hfirst] at hhead
            cases hhead
            exact .inl ⟨rfl, rfl⟩
          · exact .inr ⟨(pattern.relationships[i], i),
              hstep' i _ (List.getElem?_eq_getElem hi), .inr ⟨node, hget, rfl, rfl⟩⟩
        · obtain ⟨i, hi⟩ := List.mem_iff_getElem?.mp hrelationship
          exact .inr ⟨(relationship, i), hstep' i _ hi, .inl ⟨rfl, rfl⟩⟩
    · intro node hnode
      rcases (mem_nodes_iff pattern node).mp hnode with hhead | ⟨i, hi, hget⟩
      · rw [hfirst] at hhead
        cases hhead
        exact hcountless
      · exact (hafter.2 (pattern.relationships[i], i)
          (hstep' i _ (List.getElem?_eq_getElem hi))).2 node hget
    · intro relationship hrelationship
      obtain ⟨i, hi⟩ := List.mem_iff_getElem?.mp hrelationship
      exact (hafter.2 (relationship, i) (hstep' i _ hi)).1

/-! ### Correlation -/

theorem checkUnique_eq_ok {seen seen' : OrderedMap String BindingKind}
    {entry : String × BindingKind} (h : checkUnique seen entry = .ok seen') :
    (∃ kind, seen[entry.1]? = some kind ∧ kind ≠ entry.2 ∧ seen' = seen) ∨
      (seen[entry.1]? = none ∧ seen' = seen.insert entry.1 entry.2) := by
  unfold checkUnique at h
  split at h
  · rename_i kind hget
    split at h
    · cases h
    · rename_i hkind
      cases h
      exact .inl ⟨kind, hget, hkind, rfl⟩
  · rename_i hget
    cases h
    exact .inr ⟨hget, rfl⟩

/-- Variables that have one kind each and pass the check are distinct. -/
theorem nodup_of_checkUnique {entries front : List (String × BindingKind)}
    {seen seen' : OrderedMap String BindingKind}
    (hkind : ∀ var kind kind', (var, kind) ∈ front ++ entries → (var, kind') ∈ front ++ entries →
      kind = kind')
    (hseen : ∀ (var : String) kind, seen[var]? = some kind → (var, kind) ∈ front)
    (hfront : ∀ entry ∈ front, ∃ kind, seen[entry.1]? = some kind) (hnodup : front.Nodup)
    (h : entries.foldlM checkUnique seen = .ok seen') : (front ++ entries).Nodup := by
  induction entries generalizing front seen with
  | nil => simpa using hnodup
  | cons entry entries ih =>
    obtain ⟨next, hcheck, hrest⟩ := Result.bind_eq_ok.mp h
    have hmem : entry ∈ front ++ entry :: entries :=
      List.mem_append_right _ List.mem_cons_self
    rcases checkUnique_eq_ok hcheck with ⟨kind, hget, hne, -⟩ | ⟨hget, rfl⟩
    · -- A name seen with another kind has two kinds.
      exact absurd (hkind entry.1 kind entry.2
        (List.mem_append_left _ (hseen entry.1 kind hget)) hmem) hne
    · rw [List.append_cons]
      refine ih ?_ ?_ ?_ ?_ hrest
      · simpa [List.append_assoc] using hkind
      · intro var kind hvar
        rw [OrderedMap.lookup_insert] at hvar
        split_ifs at hvar with heq
        · cases hvar
          subst heq
          exact List.mem_append_right _ (List.mem_singleton.mpr rfl)
        · exact List.mem_append_left _ (hseen var kind hvar)
      · intro other hother
        rw [OrderedMap.lookup_insert]
        split_ifs with heq
        · exact ⟨entry.2, rfl⟩
        · rcases List.mem_append.mp hother with hold | hlast
          · exact hfront other hold
          · exact absurd (congrArg Prod.fst (List.mem_singleton.mp hlast)).symm heq
      · rw [List.nodup_append]
        refine ⟨hnodup, List.nodup_singleton _, ?_⟩
        rintro a ha b hb rfl
        rw [List.mem_singleton.mp hb] at ha
        obtain ⟨kind, hold⟩ := hfront entry ha
        rw [hget] at hold
        cases hold

theorem mem_prebound_iff (bindings : Bindings) (var : String) :
    var ∈ prebound pattern bindings ↔
      var ∈ pattern.variables.map Prod.fst ∧ bindings.contains var = true := by
  simp only [prebound, List.mem_dedup, List.mem_filter]

theorem meets_validateCorrelation (bindings : Bindings)
    (readScope : EffectiveReadScope) :
    Meets (validateCorrelation pattern bindings readScope) fun _ =>
      (∃ seen, pattern.variables.foldlM checkUnique ∅ = .ok seen) ∧
        (prebound pattern bindings).length ≤ 1 ∧
        ∀ var ∈ prebound pattern bindings, ∀ binding, bindings[var]? = some binding →
          binding.kind ≠ .relationship := by
  have hunique : Meets (pattern.variables.foldlM checkUnique ∅) fun seen =>
      pattern.variables.foldlM checkUnique ∅ = .ok seen := by
    have hmeets : Meets (pattern.variables.foldlM checkUnique ∅) fun _ => True := by
      refine meets_foldlM (fun _ => True) (fun seen entry _ _ => ?_) trivial
      unfold checkUnique
      split
      · split_ifs
        · exact meets_reject _ _
        · exact meets_ok trivial
      · exact meets_ok trivial
    exact (hmeets.and_of_ok fun seen h => h).mono fun _ h => h.2
  refine (hunique.bind fun seen hseen => meets_ok (P := fun _ =>
    ∃ seen, pattern.variables.foldlM checkUnique ∅ = .ok seen) ⟨seen, hseen⟩).bind
      fun _ hunique => ?_
  dsimp only
  split_ifs with hbound
  · exact meets_reject _ _
  · rw [not_or, not_lt, Bool.not_eq_true, List.any_eq_false] at hbound
    have hfacts : (prebound pattern bindings).length ≤ 1 ∧
        ∀ var ∈ prebound pattern bindings, ∀ binding, bindings[var]? = some binding →
          binding.kind ≠ .relationship := by
      refine ⟨hbound.1, fun var hvar binding hget hkind => hbound.2 var hvar ?_⟩
      rw [hget]
      simpa using hkind
    split
    · exact ⟨hunique, hfacts⟩
    · split_ifs
      · exact meets_reject _ _
      · exact ⟨hunique, hfacts⟩

/-- What the analysis of a clause has established. -/
structure Accepted (before after : Bindings) (clause : Match) : Prop where
  bound : Bound before after fun var kind => (var, kind) ∈ clause.pattern.variables
  countless : clause.pattern.Countless
  /-- No variable occurs twice in the pattern. -/
  distinct : (clause.pattern.variables.map Prod.fst).Nodup
  /-- At most one variable of the pattern is bound before. -/
  shared : ∀ var ∈ clause.pattern.variables.map Prod.fst,
    ∀ other ∈ clause.pattern.variables.map Prod.fst,
      before.contains var = true → before.contains other = true → var = other
  fresh : ∀ relationship ∈ clause.pattern.relationships,
    before.contains relationship.var = false

theorem meets_validateMatch (defaults : List Scope) (bindings : Bindings) (clause : Match) :
    Meets (validateMatch defaults bindings clause) fun bindings' =>
      Accepted bindings bindings' clause := by
  refine (meets_validateScopes _).bind fun _ _ => ?_
  refine (meets_effectiveScope _ _).bind fun readScope _ => ?_
  refine (meets_validateCorrelation clause.pattern bindings readScope).bind
    fun _ ⟨⟨seen, hseen⟩, hlength, hkinds⟩ => ?_
  refine (meets_validatePattern clause.pattern bindings readScope).mono
    fun after ⟨hbound, hcountless⟩ => ⟨hbound, hcountless, ?_, ?_, ?_⟩
  · have hnodup : ([] ++ clause.pattern.variables).Nodup :=
      nodup_of_checkUnique (fun var kind kind' h h' => hbound.kind_unique h h') (by simp)
        (by simp) List.nodup_nil hseen
    refine List.Nodup.map_on ?_ hnodup
    rintro ⟨var, kind⟩ hvar ⟨other, kind'⟩ hother heq
    subst heq
    rw [hbound.kind_unique hvar hother]
  · intro var hvar other hother hcontains hcontains'
    have hmem := (mem_prebound_iff clause.pattern bindings var).mpr ⟨hvar, hcontains⟩
    have hmem' := (mem_prebound_iff clause.pattern bindings other).mpr ⟨hother, hcontains'⟩
    match hlist : prebound clause.pattern bindings with
    | [] =>
      rw [hlist] at hmem
      cases hmem
    | [single] =>
      rw [hlist, List.mem_singleton] at hmem hmem'
      rw [hmem, hmem']
    | _ :: _ :: _ =>
      rw [hlist] at hlength
      simp at hlength
  · intro relationship hrelationship
    by_contra hcontains
    rw [Bool.not_eq_false] at hcontains
    have hvariable : (relationship.var, BindingKind.relationship) ∈ clause.pattern.variables :=
      (mem_variables_iff _ _ _).mpr (.inr ⟨relationship, hrelationship, rfl, rfl⟩)
    have hmem := (mem_prebound_iff clause.pattern bindings relationship.var).mpr
      ⟨List.mem_map_of_mem hvariable, hcontains⟩
    rw [Std.ExtTreeMap.contains_eq_isSome_getElem?, Option.isSome_iff_exists] at hcontains
    obtain ⟨binding, hget⟩ := hcontains
    obtain ⟨binding', hget', hkind⟩ := hbound.kind _ _ hvariable
    rw [hbound.kept _ _ hget] at hget'
    cases hget'
    exact hkinds _ hmem binding hget hkind

inductive AcceptedAll : Bindings → List Match → Bindings → Prop where
  | nil (bindings : Bindings) : AcceptedAll bindings [] bindings
  | cons {before middle after : Bindings} {clause : Match} {clauses : List Match}
      (first : Accepted before middle clause) (rest : AcceptedAll middle clauses after) :
      AcceptedAll before (clause :: clauses) after

theorem AcceptedAll.countless {before after : Bindings} {clauses : List Match}
    (h : AcceptedAll before clauses after) : ∀ clause ∈ clauses, clause.pattern.Countless := by
  induction h with
  | nil => simp
  | cons first _ ih => exact List.forall_mem_cons.mpr ⟨first.countless, ih⟩

theorem meets_validateMatches (clauses : List Match) (defaults : List Scope) :
    Meets (validateMatches clauses defaults) (AcceptedAll ∅ clauses) := by
  unfold validateMatches
  generalize (∅ : Bindings) = bindings
  induction clauses generalizing bindings with
  | nil => exact .nil bindings
  | cons clause clauses ih =>
    refine (meets_validateMatch defaults bindings clause).bind fun middle hmiddle => ?_
    exact (ih middle).mono fun after hafter => .cons hmiddle hafter

/-! ### Statements -/

/-- An expression that may stand where `bindings` are in scope. -/
def Usable (bindings : Bindings) (expression : Expr) : Prop :=
  expression ≠ .countStar ∧ ∀ var ∈ expression.variables, bindings.contains var = true

theorem meets_validateExpression_usable (bindings : Bindings) (expression : Expr) :
    Meets (validateExpression bindings expression) fun _ => Usable bindings expression :=
  ((meets_validateExpression bindings expression).and_of_ok fun _ h =>
    validateExpression_eq_ok.mp h).mono fun _ h => h.2

/-- A visit of all elements establishes what the single visits do. -/
theorem meets_visits_all {visit : α → Outcome Unit} (h : ∀ a, Meets (visit a) fun _ => P a)
    (xs : List α) :
    Meets (xs.foldlM (fun _ a => visit a) ()) fun _ => ∀ a ∈ xs, P a := by
  refine ((meets_visits (fun a => (h a).mono fun _ _ => trivial) xs).and_of_ok
    fun _ hok a ha => ?_).mono fun _ h => h.2
  exact (h a).of_ok (Result.foldlM_visit_eq_ok.mp hok a ha)

/-- What the analysis of a query has established. -/
structure QueryAccepted (query : Query) (bindings : Bindings) : Prop where
  clauses : AcceptedAll ∅ query.matchClauses bindings
  condition : ∀ condition, query.whereClause = some condition →
    Usable bindings condition.1 ∧ Usable bindings condition.2
  returns : ∀ expression ∈ query.returns, expression ≠ .countStar → Usable bindings expression
  order : ∀ key ∈ query.orderBy, Usable bindings key.expression

theorem meets_validateWhere (bindings : Bindings) (condition : Option (Expr × Expr)) :
    Meets (validateWhere bindings condition) fun _ => ∀ pair, condition = some pair →
      Usable bindings pair.1 ∧ Usable bindings pair.2 := by
  cases condition with
  | none => exact fun _ h => by cases h
  | some pair =>
    refine (meets_validateExpression_usable bindings pair.1).bind fun _ hleft => ?_
    refine (meets_validateExpression_usable bindings pair.2).mono fun _ hright => ?_
    intro other heq
    cases heq
    exact ⟨hleft, hright⟩

theorem meets_validateReturn (bindings : Bindings) (expression : Expr) :
    Meets (validateReturn bindings expression) fun _ =>
      expression ≠ .countStar → Usable bindings expression := by
  unfold validateReturn
  split_ifs with hcount
  · exact fun h => absurd hcount h
  · exact (meets_validateExpression_usable bindings expression).mono fun _ h _ => h

theorem meets_validateQuery (query : Query) :
    Meets (validateQuery query) fun _ => ∃ bindings, QueryAccepted query bindings := by
  refine (meets_validateScopes _).bind fun _ _ => ?_
  refine (meets_validateStatementChangesAxes _ _).bind fun _ _ => ?_
  refine (meets_validateMatches _ _).bind fun bindings hclauses => ?_
  refine (meets_validateWhere bindings _).bind fun _ hcondition => ?_
  refine (meets_visits_all (meets_validateReturn bindings) _).bind fun _ hreturns => ?_
  refine (meets_visits_all (fun key : OrderKey =>
    meets_validateExpression_usable bindings key.expression) _).mono fun _ horder => ?_
  exact ⟨bindings, hclauses, hcondition, hreturns, horder⟩

/-- What the analysis of the clauses of a write has established. -/
def SelectionAccepted (clauses : List Match) : Prop :=
  (∃ bindings, AcceptedAll ∅ clauses bindings) ∧
    ∀ clause ∈ clauses, ∀ scope ∈ clause.scopes, scope.axis ≠ .system

theorem meets_validateSelection (clauses : List Match) :
    Meets (validateSelection clauses) fun _ => SelectionAccepted clauses := by
  have hsystem : Meets (if (clauses.flatMap (·.scopes)).any
      (fun scope => decide (scope.axis = .system)) then
        reject "DTG-LANG-HISTORICAL-WRITE-SELECTION"
          "write-selection MATCH clauses cannot override SYSTEM_TIME"
      else .ok ()) fun _ : Unit => ∀ clause ∈ clauses, ∀ scope ∈ clause.scopes,
        scope.axis ≠ .system := by
    split_ifs with hany
    · exact meets_reject _ _
    · rw [Bool.not_eq_true, List.any_eq_false] at hany
      intro clause hclause scope hscope haxis
      exact hany scope (List.mem_flatMap.mpr ⟨clause, hclause, hscope⟩) (by simpa using haxis)
  refine hsystem.bind fun _ hnone => ?_
  exact (meets_validateMatches clauses []).mono fun bindings h => ⟨⟨bindings, h⟩, hnone⟩

/-- The pattern of a `CREATE` of a relationship. -/
structure RelationshipAccepted (pattern : Pattern) (relationship : RelationshipPattern) : Prop where
  only : pattern.relationships = [relationship]
  types : relationship.types.length = 1
  direction : relationship.direction ≠ .either
  countless : Countless relationship.properties

theorem meets_validateEndpoint (bindings : Bindings) (endpoint : NodePattern) :
    Meets (validateEndpoint bindings endpoint) fun _ => True := by
  unfold validateEndpoint
  split_ifs
  · exact meets_reject _ _
  · exact meets_ok trivial
  · exact meets_reject _ _

theorem meets_validateRelationshipCreate (bindings : Bindings) :
    Meets (validateRelationshipCreate pattern bindings) fun _ =>
      ∃ relationship, RelationshipAccepted pattern relationship := by
  unfold validateRelationshipCreate
  split_ifs with hlength
  · exact meets_reject _ _
  · rw [not_or, not_not, not_not] at hlength
    obtain ⟨relationship, honly⟩ := List.length_eq_one_iff.mp hlength.2
    refine (meets_index (by omega : 0 < pattern.relationships.length)).bind
      fun found hfound => ?_
    rw [honly] at hfound
    cases hfound
    split_ifs with htypes hdirection hbound
    · exact meets_reject _ _
    · exact meets_reject _ _
    · exact meets_reject _ _
    · refine (meets_visits (meets_validateEndpoint bindings) _).bind fun _ _ => ?_
      exact (meets_validatePropertyMap bindings _).mono fun _ hcountless =>
        ⟨_, honly, not_not.mp htypes, hdirection, hcountless⟩

/-- What the analysis of a write has established. -/
def WriteAccepted : Write → Prop
  | .create node _ => Countless node.properties
  | .createRelationship clauses pattern _ =>
    SelectionAccepted clauses ∧ ∃ relationship, RelationshipAccepted pattern relationship
  | .set clauses _ properties _ => SelectionAccepted clauses ∧ Countless properties
  | .delete clauses _ _ => SelectionAccepted clauses

theorem meets_validateValidFrom (expression : Expr) :
    Meets (validateValidFrom expression) fun _ => True := by
  cases expression with
  | integer | parameter => exact meets_ok trivial
  | _ => exact meets_reject _ _

theorem meets_validateWriteStatement (write : Write) :
    Meets (validateWriteStatement write) fun _ => WriteAccepted write := by
  cases write with
  | create =>
    refine (meets_validatePropertyMap ∅ _).bind fun _ hcountless => ?_
    exact (meets_validateValidFrom _).mono fun _ _ => hcountless
  | createRelationship clauses pattern =>
    refine (meets_validateSelection _).bind fun bindings hselection => ?_
    refine (meets_validateRelationshipCreate pattern bindings).bind fun _ hpattern => ?_
    exact (meets_validateValidFrom _).mono fun _ _ => ⟨hselection, hpattern⟩
  | set =>
    refine (meets_validateSelection _).bind fun bindings hselection => ?_
    refine (meets_requireBinding _ _).bind fun _ _ => ?_
    refine (meets_validatePropertyMap bindings _).bind fun _ hcountless => ?_
    exact (meets_validateValidFrom _).mono fun _ _ => ⟨hselection, hcountless⟩
  | delete =>
    refine (meets_validateSelection _).bind fun bindings hselection => ?_
    refine (meets_requireBinding _ _).bind fun _ _ => ?_
    exact (meets_validateValidFrom _).mono fun _ _ => hselection

/-- What the analysis of a statement has established. -/
def StatementAccepted : Statement → Prop
  | .query query => ∃ bindings, QueryAccepted query bindings
  | .write write => WriteAccepted write
  | .boundary _ | .submitAnalytics _ | .procedure _ => True

theorem meets_validateStatement (statement : Statement) :
    Meets (validateStatement statement) fun _ => StatementAccepted statement := by
  cases statement with
  | query query => exact meets_validateQuery query
  | write write => exact meets_validateWriteStatement write
  | boundary => exact meets_ok trivial
  | submitAnalytics =>
    unfold validateStatement
    dsimp only
    split_ifs
    · exact meets_ok trivial
    · exact meets_reject _ _
  | procedure => exact meets_reject _ _

/-- The analysis returns for every program, and keeps the statement. -/
theorem meets_analyze (catalog : SchemaCatalog) (program : Program) :
    Meets (analyze catalog program) fun typed =>
      typed.statement = program.statement ∧ StatementAccepted program.statement := by
  have hgraph : Meets (resolveGraph catalog program.graph) fun _ => True := by
    unfold resolveGraph
    split
    · exact meets_ok trivial
    · split
      · exact meets_ok trivial
      · exact meets_reject _ _
  refine hgraph.bind fun graph _ => ?_
  exact (meets_validateStatement _).bind fun _ hstatement => meets_ok ⟨rfl, hstatement⟩

end DtgProxy.Language

import DtgProxy.Language.Compile
import DtgProxy.Language.Results

/-! # Well-scoped plans

In the plan of an accepted statement every variable of a pattern is bound once
and every edge is one expansion, from an end that is bound and in the direction
written.  The columns of all nodes are bound below them exactly when the property
maps use what is bound at their place in the order of expansion, which is not the
order in which the analysis checks them.
-/
namespace DtgProxy.Language

open Lib Result

variable {clauses : List Match} {program : LogicalProgram}

/-- The expansion is along the edge, from one of its ends to the other, in the
direction written. -/
def AlongEdge (relationship : RelationshipPattern) (left right : NodePattern) (edge : Expand) :
    Prop :=
  (edge.source = left.var ∧ edge.destination = right.var ∧
      edge.direction = expandDirection relationship.direction) ∨
    (edge.source = right.var ∧ edge.destination = left.var ∧
      edge.direction = expandDirection (reverseDirection relationship.direction))

def clauseNames (clauses : List Match) : List String := clauses.flatMap (·.pattern.names)

/-- The plan is a faithful plan of the clauses. -/
structure WellNormalized (clauses : List Match) (plan : LogicalPlan) : Prop where
  wellScoped : ∀ node ∈ plan.nodes, NodeScoped plan.nodes node
  boundOnce : ∀ var ∈ clauseNames clauses,
    (plan.nodes.flatMap (·.kind.introduces)).count var = 1
  expandedOnce : ∀ clause ∈ clauses, ∀ i relationship left right,
    Ends clause.pattern i relationship left right →
      ∃ edge, (plan.nodes.filterMap (·.kind.edge)).filter
          (fun edge => decide (edge.relationship = relationship.var)) = [edge] ∧
        AlongEdge relationship left right edge ∧ Binds plan.nodes edge.input edge.source

/-- The property maps of every clause use what is bound when they are compared. -/
def ClausesScoped (clauses : List Match) : Prop :=
  ∀ before clause after, clauses = before ++ clause :: after →
    ClauseScoped (clauseNames before) clause.pattern

theorem clausesScoped_concat (clauses : List Match) (clause : Match) :
    ClausesScoped (clauses ++ [clause]) ↔
      ClausesScoped clauses ∧ ClauseScoped (clauseNames clauses) clause.pattern := by
  constructor
  · intro h
    refine ⟨fun before other after heq => h before other (after ++ [clause]) ?_,
      h clauses clause [] rfl⟩
    rw [heq, List.append_assoc, List.cons_append]
  · rintro ⟨h, hlast⟩ before other after heq
    rcases List.eq_nil_or_concat' after with rfl | ⟨rest, last, rfl⟩
    · obtain ⟨rfl, hother⟩ := List.append_inj' heq rfl
      cases hother
      exact hlast
    · refine h before other rest ?_
      rw [← List.cons_append, ← List.append_assoc] at heq
      exact (List.append_inj' heq rfl).1

/-- The same clause by clause. -/
theorem clausesScoped_iff (clauses : List Match) :
    ClausesScoped clauses ↔
      ∀ i : Fin clauses.length, ClauseScoped (clauseNames (clauses.take i)) clauses[i].pattern := by
  constructor
  · intro h i
    refine h (clauses.take i) clauses[i] (clauses.drop (i + 1)) ?_
    rw [Fin.getElem_fin, ← List.drop_eq_getElem_cons, List.take_append_drop]
  · rintro h before clause after rfl
    have hlt : before.length < (before ++ clause :: after).length := by simp
    simpa using h ⟨before.length, hlt⟩

instance (clauses : List Match) : Decidable (ClausesScoped clauses) :=
  decidable_of_iff _ (clausesScoped_iff clauses).symm

/-! ### The nodes of the clauses -/

/-- What the nodes of a plan do for the clauses. -/
structure Covers (clauses : List Match) (nodes : List LogicalNode) : Prop where
  names_nodup : (nodes.flatMap (·.kind.introduces)).Nodup
  names_iff : ∀ var, var ∈ nodes.flatMap (·.kind.introduces) ↔ var ∈ clauseNames clauses
  edges : ∀ clause ∈ clauses, ∀ i relationship left right,
    Ends clause.pattern i relationship left right →
      ∃ edge ∈ nodes.filterMap (·.kind.edge), edge.relationship = relationship.var ∧
        AlongEdge relationship left right edge
  sources : ∀ plan, UniqueIds plan → nodes ⊆ plan →
    ∀ edge ∈ nodes.filterMap (·.kind.edge), Binds plan edge.input edge.source
  scoped_iff : ∀ plan, UniqueIds plan → nodes ⊆ plan →
    ((∀ node ∈ nodes, NodeScoped plan node) ↔ ClausesScoped clauses)

namespace Covers

variable {clauses : List Match} {nodes added : List LogicalNode}

theorem nil : Covers [] [] where
  names_nodup := List.nodup_nil
  names_iff := by simp [clauseNames]
  edges := by simp
  sources := by simp
  scoped_iff := by simp [ClausesScoped]

/-- Nodes that introduce nothing and whose columns are bound. -/
theorem append (h : Covers clauses nodes) (hnames : added.flatMap (·.kind.introduces) = [])
    (hedges : added.filterMap (·.kind.edge) = [])
    (hscoped : ∀ plan, UniqueIds plan → nodes ++ added ⊆ plan →
      ∀ node ∈ added, NodeScoped plan node) :
    Covers clauses (nodes ++ added) := by
  have hsubset : nodes ⊆ nodes ++ added := List.subset_append_left _ _
  refine ⟨?_, ?_, ?_, ?_, ?_⟩
  · rw [List.flatMap_append, hnames, List.append_nil]
    exact h.names_nodup
  · rw [List.flatMap_append, hnames, List.append_nil]
    exact h.names_iff
  · rw [List.filterMap_append, hedges, List.append_nil]
    exact h.edges
  · intro plan hunique hplan
    rw [List.filterMap_append, hedges, List.append_nil]
    exact h.sources plan hunique (List.Subset.trans hsubset hplan)
  · intro plan hunique hplan
    rw [List.forall_mem_append, h.scoped_iff plan hunique (List.Subset.trans hsubset hplan)]
    exact and_iff_left (hscoped plan hunique hplan)

end Covers

theorem exists_realized {hops : List Hop} {edges : List Expand}
    (h : List.Forall₂ Hop.Realizes hops edges) {hop : Hop} (hmem : hop ∈ hops) :
    ∃ edge ∈ edges, hop.Realizes edge := by
  induction h with
  | nil => cases hmem
  | cons hrealizes _ ih =>
    rcases List.mem_cons.mp hmem with rfl | hmem
    · exact ⟨_, List.mem_cons_self, hrealizes⟩
    · obtain ⟨edge, hedge, hrealizes⟩ := ih hmem
      exact ⟨edge, List.mem_cons_of_mem _ hedge, hrealizes⟩

section Clauses

variable {selection : Selection} {clause : Match} {added : List LogicalNode}
  {root : LogicalNodeId} {edges : List Expand}

/-- Every edge of the pattern is expanded. -/
theorem Extends.exists_edge {pattern : Pattern}
    (h : Extends selection pattern added root edges) {i : ℕ} {relationship : RelationshipPattern}
    {left right : NodePattern} (hends : Ends pattern i relationship left right) :
    ∃ edge ∈ edges, edge.relationship = relationship.var ∧
      AlongEdge relationship left right edge := by
  have hi : i < pattern.relationships.length :=
    (List.getElem?_eq_some_iff.mp hends.relationship).1
  have hmem (hop : Hop) := mem_hops_iff (anchorOf_le selection.bound pattern) hop
  by_cases hlt : i < anchorOf selection.bound pattern
  · obtain ⟨edge, hedge, hrealizes⟩ := exists_realized h.realized
      ((hmem _).mpr ⟨i, hi, by rw [decide_eq_true hlt, hends.hopAt_true]⟩)
    exact ⟨edge, hedge, hrealizes.relationship,
      .inr ⟨hrealizes.source, hrealizes.destination, hrealizes.direction⟩⟩
  · obtain ⟨edge, hedge, hrealizes⟩ := exists_realized h.realized
      ((hmem _).mpr ⟨i, hi, by rw [decide_eq_false hlt, hends.hopAt_false]⟩)
    exact ⟨edge, hedge, hrealizes.relationship,
      .inl ⟨hrealizes.source, hrealizes.destination, hrealizes.direction⟩⟩

/-- An accepted clause introduces no variable that is bound before. -/
theorem Extends.fresh {before after : Bindings} (haccepted : Accepted before after clause)
    (hbound : ∀ var, before.contains var = true ↔ var ∈ selection.bound)
    (h : Extends selection clause.pattern added root edges) :
    (added.flatMap (·.kind.introduces)).Nodup ∧
      ∀ var ∈ added.flatMap (·.kind.introduces), var ∉ selection.bound := by
  obtain ⟨kept, hperm, hkept, hnone⟩ := h.names
  have hnodup := hperm.nodup_iff.mpr haccepted.distinct
  rw [List.nodup_append] at hnodup
  obtain ⟨-, hnew, hdisjoint⟩ := hnodup
  refine ⟨hnew, fun var hvar hmem => ?_⟩
  have hname : var ∈ clause.pattern.names := hperm.mem_iff.mp (List.mem_append_right _ hvar)
  cases kept with
  | nil =>
    -- The pattern shares no node with the clauses before it, and never a relationship.
    rw [names_eq, List.mem_append, List.mem_map, List.mem_map] at hname
    rcases hname with ⟨node, hnode, rfl⟩ | ⟨relationship, hrelationship, rfl⟩
    · exact hnone rfl node hnode hmem
    · have hfresh := haccepted.fresh relationship hrelationship
      rw [(hbound _).mpr hmem] at hfresh
      cases hfresh
  | cons anchor =>
    have hanchor : anchor ∈ clause.pattern.names := hperm.mem_iff.mp (by simp)
    have heq := haccepted.shared anchor hanchor var hname
      ((hbound _).mpr (hkept anchor List.mem_cons_self)) ((hbound _).mpr hmem)
    exact hdisjoint anchor List.mem_cons_self var hvar heq

theorem Extends.names_iff (h : Extends selection clause.pattern added root edges) (var : String) :
    var ∈ selection.bound ∨ var ∈ added.flatMap (·.kind.introduces) ↔
      var ∈ selection.bound ++ clause.pattern.names := by
  obtain ⟨kept, hperm, hkept, -⟩ := h.names
  rw [List.mem_append, ← hperm.mem_iff, List.mem_append]
  constructor
  · rintro (hvar | hvar)
    · exact .inl hvar
    · exact .inr (.inr hvar)
  · rintro (hvar | hvar | hvar)
    · exact .inl hvar
    · exact .inl (hkept var hvar)
    · exact .inr hvar

/-- The plan of one more clause. -/
theorem Covers.extend {clauses : List Match} {before after : Bindings}
    (hcovers : Covers clauses selection.nodes) (hnames : selection.bound = clauseNames clauses)
    (hscope : ∀ plan, UniqueIds plan → selection.nodes ⊆ plan →
      ∀ id, selection.root = some id → HasScope plan id selection.bound)
    (haccepted : Accepted before after clause)
    (hbound : ∀ var, before.contains var = true ↔ var ∈ selection.bound)
    (h : Extends selection clause.pattern added root edges) :
    Covers (clauses ++ [clause]) (selection.nodes ++ added) := by
  have hsubset : selection.nodes ⊆ selection.nodes ++ added := List.subset_append_left _ _
  have hall : clauseNames (clauses ++ [clause]) = selection.bound ++ clause.pattern.names := by
    simp [clauseNames, hnames]
  obtain ⟨hnodup, hfresh⟩ := h.fresh haccepted hbound
  refine ⟨?_, ?_, ?_, ?_, ?_⟩
  · rw [List.flatMap_append, List.nodup_append]
    refine ⟨hcovers.names_nodup, hnodup, ?_⟩
    rintro var hvar other hother rfl
    refine hfresh var hother ?_
    rw [hnames]
    exact (hcovers.names_iff var).mp hvar
  · intro var
    rw [hall, ← h.names_iff, List.flatMap_append, List.mem_append, hcovers.names_iff, hnames]
  · intro other hother i relationship left right hends
    rw [List.filterMap_append, h.edges_eq]
    rcases List.mem_append.mp hother with hother | hother
    · obtain ⟨edge, hedge, hrest⟩ := hcovers.edges other hother i relationship left right hends
      exact ⟨edge, List.mem_append_left _ hedge, hrest⟩
    · obtain rfl := List.mem_singleton.mp hother
      obtain ⟨edge, hedge, hrest⟩ := h.exists_edge hends
      exact ⟨edge, List.mem_append_right _ hedge, hrest⟩
  · intro plan hunique hplan edge hedge
    have hbefore := List.Subset.trans hsubset hplan
    rw [List.filterMap_append, h.edges_eq] at hedge
    rcases List.mem_append.mp hedge with hedge | hedge
    · exact hcovers.sources plan hunique hbefore edge hedge
    · exact h.sources plan hunique hplan (hscope plan hunique hbefore) edge hedge
  · intro plan hunique hplan
    have hbefore := List.Subset.trans hsubset hplan
    rw [List.forall_mem_append, hcovers.scoped_iff plan hunique hbefore,
      h.scoped_iff plan hunique hplan (hscope plan hunique hbefore), clausesScoped_concat, hnames]

end Clauses

/-- The state after some clauses. -/
structure Selected (clauses : List Match) (selection : Selection) : Prop where
  covers : Covers clauses selection.nodes
  bound : selection.bound = clauseNames clauses
  sane : selection.Sane
  hasScope : ∀ plan, UniqueIds plan → selection.nodes ⊆ plan →
    ∀ id, selection.root = some id → HasScope plan id selection.bound

theorem Selected.empty : Selected [] Selection.empty :=
  ⟨.nil, rfl, fun _ => rfl, fun _ _ _ _ h => by cases h⟩

section Runs

variable {scopes : List Scope} {lookup : Option Expr} {clauses : List Match}
  {before after : Bindings}

theorem Selected.step (hlookup : LookupConstant lookup) {selection next : Selection}
    (h : Selected clauses selection) {clause : Match} (haccepted : Accepted before after clause)
    (hbound : ∀ var, before.contains var = true ↔ var ∈ selection.bound)
    (hmatch : normalizeMatch scopes lookup selection clause = .ok next) :
    Selected (clauses ++ [clause]) next ∧
      ∀ var, after.contains var = true ↔ var ∈ next.bound := by
  obtain ⟨readScope, -, hexpand⟩ := bind_eq_ok.mp hmatch
  obtain ⟨added, root, edges, heq, hextends⟩ :=
    exists_expandMatch hlookup readScope h.sane haccepted.countless
  rw [heq] at hexpand
  cases hexpand
  refine ⟨⟨h.covers.extend h.bound h.hasScope haccepted hbound hextends, ?_, ?_, ?_⟩,
    fun var => ?_⟩
  · simp [clauseNames, h.bound]
  · intro hnone
    cases hnone
  · intro plan hunique hplan id hid
    cases hid
    have hsubset := List.Subset.trans (List.subset_append_left _ _) hplan
    exact hextends.hasScope plan hunique hplan (h.hasScope plan hunique hsubset)
  · rw [haccepted.bound.contains_iff, hbound, List.mem_append, Pattern.names, List.mem_map]
    simp

theorem Selected.run (hlookup : LookupConstant lookup) {rest : List Match}
    {selection last : Selection} (h : Selected clauses selection)
    (haccepted : AcceptedAll before rest after)
    (hbound : ∀ var, before.contains var = true ↔ var ∈ selection.bound)
    (hfold : rest.foldlM (normalizeMatch scopes lookup) selection = .ok last) :
    Selected (clauses ++ rest) last ∧ ∀ var, after.contains var = true ↔ var ∈ last.bound := by
  induction haccepted generalizing clauses selection with
  | nil =>
    cases hfold
    exact ⟨by simpa using h, hbound⟩
  | cons first _ ih =>
    obtain ⟨next, hmatch, hrest⟩ := bind_eq_ok.mp hfold
    obtain ⟨hnext, hbound'⟩ := h.step hlookup first hbound hmatch
    rw [List.append_cons]
    exact ih hnext hbound' hrest

end Runs

/-! ### Plans of statements -/

/-- A plan under construction that has the nodes of all clauses. -/
structure Planned (clauses : List Match) (draft : Draft) : Prop where
  covers : Covers clauses draft.nodes
  hasScope : ∀ plan, UniqueIds plan → draft.nodes ⊆ plan →
    HasScope plan draft.root (clauseNames clauses)

/-- The expressions that the analysis accepts use the variables of the clauses. -/
def Names (clauses : List Match) (bindings : Bindings) : Prop :=
  ∀ var, bindings.contains var = true ↔ var ∈ clauseNames clauses

section Plans

variable {clauses : List Match} {bindings : Bindings}

theorem Names.usable (hnames : Names clauses bindings) {expression : Expr}
    (h : Usable bindings expression) : ∀ var ∈ expression.variables, var ∈ clauseNames clauses :=
  fun var hvar => (hnames var).mp (h.2 var hvar)

theorem Planned.grow {before after : Draft} {added : List LogicalNode} {condition : Prop}
    (h : Planned clauses before) (hcondition : condition)
    (hgrows : Grows before after added (clauseNames clauses) (clauseNames clauses) [] []
      condition) : Planned clauses after := by
  have hsubset : before.nodes ⊆ after.nodes := by
    rw [hgrows.nodes_eq]
    exact List.subset_append_left _ _
  refine ⟨?_, fun plan hunique hplan => hgrows.hasScope plan hunique hplan
    (h.hasScope plan hunique (List.Subset.trans hsubset hplan))⟩
  rw [hgrows.nodes_eq]
  refine h.covers.append hgrows.names_eq hgrows.edges_eq fun plan hunique hplan => ?_
  rw [← hgrows.nodes_eq] at hplan
  exact (hgrows.scoped_iff plan hunique hplan
    (h.hasScope plan hunique (List.Subset.trans hsubset hplan))).mpr hcondition

theorem planned_of_normalizeSelection {scopes : List Scope} {condition : Option (Expr × Expr)}
    {draft : Draft} (haccepted : AcceptedAll ∅ clauses bindings)
    (hcondition : ∀ pair, condition = some pair → Usable bindings pair.1 ∧ Usable bindings pair.2)
    (h : normalizeSelection scopes clauses condition = .ok draft) :
    Planned clauses draft ∧ Names clauses bindings := by
  obtain ⟨selection, hfold, hrest⟩ := bind_eq_ok.mp h
  obtain ⟨hselected, hbound⟩ := Selected.empty.run (exactVertexLookup_constant clauses condition)
    haccepted (by simp [Selection.empty]) hfold
  rw [List.nil_append] at hselected
  have hnames : Names clauses bindings := fun var => by rw [hbound, hselected.bound]
  split at hrest
  · cases hrest
  · next root hroot =>
    have hplanned : Planned clauses ⟨selection.nodes, root⟩ :=
      ⟨hselected.covers, fun plan hunique hplan =>
        hselected.bound ▸ hselected.hasScope plan hunique hplan root hroot⟩
    obtain ⟨after, added, hwhere, hgrows⟩ := exists_normalizeWhere
      (exactVertexLookup clauses condition)
      (fun pair hpair => ⟨(hcondition pair hpair).1.1, (hcondition pair hpair).2.1⟩)
      ⟨selection.nodes, root⟩
    obtain rfl : after = draft := Except.ok.inj (hwhere.symm.trans hrest)
    refine ⟨hplanned.grow ?_ hgrows, hnames⟩
    intro _ pair hpair var hvar
    rcases List.mem_append.mp hvar with hvar | hvar
    · exact hnames.usable (hcondition pair hpair).1 var hvar
    · exact hnames.usable (hcondition pair hpair).2 var hvar

/-- The result node refers to what the clauses bind. -/
theorem covers_resultNode {draft : Draft} (h : Planned clauses draft)
    {projections : Option (List Projection)}
    (hcolumns : ∀ columns, projections = some columns → ∀ projection ∈ columns,
      ∀ var ∈ projection.expression.columns, var ∈ clauseNames clauses) :
    Covers clauses (resultNode projections draft).nodes := by
  cases projections with
  | none =>
    refine h.covers.append rfl rfl fun plan _ _ node hnode column hcolumn => ?_
    rw [List.mem_singleton.mp hnode] at hcolumn
    cases hcolumn
  | some columns =>
    unfold resultNode
    dsimp only
    split_ifs
    · exact h.covers
    · refine h.covers.append rfl rfl fun plan hunique hplan node hnode column hcolumn => ?_
      rw [List.mem_singleton.mp hnode] at hcolumn ⊢
      obtain ⟨projection, hprojection, hvar⟩ := List.mem_flatMap.mp hcolumn
      have hsubset := List.Subset.trans (List.subset_append_left _ _) hplan
      exact ⟨draft.root, List.mem_cons_self, (h.hasScope plan hunique hsubset column).mpr
        (hcolumns columns rfl projection hprojection column hvar)⟩

theorem covers_of_normalizeQuery {query : Query} {plan : LogicalPlan} {schema : RowSchema}
    (haccepted : QueryAccepted query bindings) (h : normalizeQuery query = .ok (plan, schema)) :
    Covers query.matchClauses plan.nodes := by
  obtain ⟨⟨projections, schema'⟩, hresult, hrest⟩ := bind_eq_ok.mp h
  obtain ⟨draft, hselection, hrest⟩ := bind_eq_ok.mp hrest
  obtain ⟨ordered, horder, hrest⟩ := bind_eq_ok.mp hrest
  cases hrest
  obtain ⟨hplanned, hnames⟩ :=
    planned_of_normalizeSelection haccepted.clauses haccepted.condition hselection
  obtain ⟨after, added, heq, hgrows⟩ := exists_normalizeOrder
    (fun key hkey => (haccepted.order key hkey).1) draft
  obtain rfl : after = ordered := Except.ok.inj (heq.symm.trans horder)
  refine covers_resultNode (hplanned.grow (fun key hkey =>
    hnames.usable (haccepted.order key hkey)) hgrows) ?_
  intro columns hcolumns projection hprojection var hvar
  have halone : query.CountsAlone := by
    by_contra hnot
    obtain ⟨error, herror⟩ := resultColumns_of_not_alone hnot
    rw [herror] at hresult
    cases hresult
  obtain ⟨projections', schema'', hresult', hprojects⟩ := exists_resultColumns halone
  rw [hresult'] at hresult
  cases hresult
  obtain ⟨expression, hexpression, hne, hvariables⟩ :=
    hprojects columns hcolumns projection hprojection
  exact hnames.usable (haccepted.returns expression hexpression hne) var (hvariables ▸ hvar)

end Plans

/-! ### Programs -/

def plansOf : LogicalStatement → List LogicalPlan
  | .query plan => [plan]
  | .write write => write.input.toList
  | _ => []

def clausesOf : Statement → List Match
  | .query query => query.matchClauses
  | .write (.createRelationship clauses _ _) => clauses
  | .write (.set clauses _ _ _) => clauses
  | .write (.delete clauses _ _) => clauses
  | _ => []

/-- The plans of a statement, of which there is one when there are clauses. -/
structure CoveredBy (statement : Statement) (plans : List LogicalPlan) : Prop where
  covers : ∀ plan ∈ plans, Covers (clausesOf statement) plan.nodes
  exists_plan : plans = [] → clausesOf statement = []

theorem covers_of_selection {draft : Draft} (haccepted : SelectionAccepted clauses)
    (h : normalizeSelection [] clauses none = .ok draft) : Covers clauses draft.nodes := by
  obtain ⟨⟨bindings, hclauses⟩, -⟩ := haccepted
  exact (planned_of_normalizeSelection hclauses (by simp) h).1.covers

theorem coveredBy_of_normalizeWrite {write : Write} {logical : LogicalWrite}
    (haccepted : WriteAccepted write) (h : normalizeWrite write = .ok logical) :
    CoveredBy (.write write) logical.input.toList := by
  have hsingle : ∀ (clauses : List Match) (draft : Draft), clausesOf (.write write) = clauses →
      SelectionAccepted clauses → normalizeSelection [] clauses none = .ok draft →
      CoveredBy (.write write) [draft.plan] := by
    rintro clauses draft rfl hselection hdraft
    refine ⟨fun plan hplan => ?_, by simp⟩
    rw [List.mem_singleton.mp hplan]
    exact covers_of_selection hselection hdraft
  cases write with
  | create =>
    obtain ⟨properties, -, h⟩ := bind_eq_ok.mp h
    obtain ⟨time, -, h⟩ := bind_eq_ok.mp h
    cases h
    exact ⟨by simp, fun _ => rfl⟩
  | createRelationship clauses =>
    obtain ⟨relationship, -, h⟩ := bind_eq_ok.mp h
    obtain ⟨left, -, h⟩ := bind_eq_ok.mp h
    obtain ⟨right, -, h⟩ := bind_eq_ok.mp h
    obtain ⟨ends, -, h⟩ := bind_eq_ok.mp h
    obtain ⟨draft, hdraft, h⟩ := bind_eq_ok.mp h
    obtain ⟨relationshipType, -, h⟩ := bind_eq_ok.mp h
    obtain ⟨properties, -, h⟩ := bind_eq_ok.mp h
    obtain ⟨time, -, h⟩ := bind_eq_ok.mp h
    cases h
    exact hsingle clauses draft rfl haccepted.1 hdraft
  | set clauses var properties =>
    obtain ⟨draft, hdraft, h⟩ := bind_eq_ok.mp h
    obtain ⟨properties, -, h⟩ := bind_eq_ok.mp h
    obtain ⟨time, -, h⟩ := bind_eq_ok.mp h
    cases h
    exact hsingle clauses draft rfl haccepted.1 hdraft
  | delete clauses =>
    obtain ⟨draft, hdraft, h⟩ := bind_eq_ok.mp h
    obtain ⟨time, -, h⟩ := bind_eq_ok.mp h
    cases h
    exact hsingle clauses draft rfl haccepted hdraft

theorem coveredBy_of_normalizeStatement {statement : Statement} {logical : LogicalStatement}
    {schema : RowSchema} (haccepted : StatementAccepted statement)
    (h : normalizeStatement statement = .ok (logical, schema)) :
    CoveredBy statement (plansOf logical) := by
  cases statement with
  | query =>
    obtain ⟨⟨plan, schema'⟩, hquery, h⟩ := bind_eq_ok.mp h
    cases h
    obtain ⟨bindings, haccepted⟩ := haccepted
    refine ⟨fun other hother => ?_, by simp [plansOf]⟩
    rw [List.mem_singleton.mp hother]
    exact covers_of_normalizeQuery haccepted hquery
  | write =>
    obtain ⟨logical', hwrite, h⟩ := bind_eq_ok.mp h
    cases h
    exact coveredBy_of_normalizeWrite haccepted hwrite
  | boundary boundary =>
    cases boundary <;> cases h <;> exact ⟨by simp [plansOf], fun _ => rfl⟩
  | submitAnalytics =>
    unfold normalizeStatement at h
    dsimp only at h
    split at h
    · cases h
      exact ⟨by simp [plansOf], fun _ => rfl⟩
    · cases h
  | procedure => cases h

/-- Distinct numbers pass the check. -/
theorem nodup_of_checkDistinct {ids : List LogicalNodeId} (h : checkDistinct ids = .ok ()) :
    ids.Nodup := by
  obtain ⟨seen', hfold, -⟩ := bind_eq_ok.mp h
  have hdistinct : ∀ (ids seen seen' : List LogicalNodeId),
      ids.foldlM (fun seen id => if id ∈ seen then Except.error (IrError.duplicateNode id)
        else .ok (id :: seen)) seen = .ok seen' → ids.Nodup ∧ ∀ id ∈ ids, id ∉ seen := by
    intro ids
    induction ids with
    | nil => simp
    | cons id ids ih =>
      intro seen seen' hfold
      rw [List.foldlM_cons] at hfold
      obtain ⟨next, hnext, hrest⟩ := bind_eq_ok.mp hfold
      split_ifs at hnext with hmem
      cases hnext
      obtain ⟨hnodup, hfresh⟩ := ih (id :: seen) seen' hrest
      refine ⟨List.nodup_cons.mpr ⟨fun hid => hfresh id hid List.mem_cons_self, hnodup⟩, ?_⟩
      intro other hother
      rcases List.mem_cons.mp hother with rfl | hother
      · exact hmem
      · exact fun hseen => hfresh other hother (List.mem_cons_of_mem id hseen)
  exact (hdistinct ids [] seen' hfold).1

variable {plan : LogicalPlan}

theorem uniqueIds_of_validatePlan {parameters : List String}
    (h : validatePlan parameters plan = .ok ()) : UniqueIds plan.nodes := by
  obtain ⟨root, nodes⟩ := plan
  unfold validatePlan at h
  split_ifs at h with hempty
  · cases h
  · obtain ⟨_, hdistinct, -⟩ := bind_eq_ok.mp h
    exact nodup_of_checkDistinct hdistinct

theorem uniqueIds_of_validateProgram (h : validateProgram program = .ok ()) :
    ∀ plan ∈ plansOf program.statement, UniqueIds plan.nodes := by
  unfold validateProgram at h
  split_ifs at h with hversion
  · cases h
  · obtain ⟨parameters, -, h⟩ := bind_eq_ok.mp h
    obtain ⟨_, -, h⟩ := bind_eq_ok.mp h
    intro plan hplan
    cases hstatement : program.statement with
    | query =>
      rw [hstatement] at h hplan
      rw [List.mem_singleton.mp hplan]
      exact uniqueIds_of_validatePlan h
    | write write =>
      rw [hstatement] at h hplan
      change validateWrite parameters write = .ok () at h
      unfold validateWrite at h
      rw [Option.mem_toList.mp hplan] at h
      obtain ⟨_, hvalid, -⟩ := bind_eq_ok.mp h
      exact uniqueIds_of_validatePlan hvalid
    | _ =>
      rw [hstatement] at hplan
      cases hplan

theorem validateProgram_of_validateOutput
    (h : validateOutput program = .ok ()) : validateProgram program = .ok () := by
  unfold validateOutput at h
  split at h
  · assumption
  · cases h

/-- An expansion is determined by its relationship. -/
theorem Covers.filter_eq {nodes : List LogicalNode} (h : Covers clauses nodes) {edge : Expand}
    (hedge : edge ∈ nodes.filterMap (·.kind.edge)) :
    (nodes.filterMap (·.kind.edge)).filter
      (fun other => decide (other.relationship = edge.relationship)) = [edge] := by
  have hsublist : ((nodes.filterMap (·.kind.edge)).map (·.relationship)).Sublist
      (nodes.flatMap (·.kind.introduces)) := by
    clear h hedge
    induction nodes with
    | nil => exact .slnil
    | cons node nodes ih =>
      rw [List.flatMap_cons]
      cases hkind : node.kind with
      | expand step =>
        rw [List.filterMap_cons_some (by rw [hkind]; rfl)]
        exact (ih.cons step.destination).cons_cons step.relationship
      | _ =>
        rw [List.filterMap_cons_none (by rw [hkind]; rfl)]
        exact ih.trans (List.sublist_append_right _ _)
  have hnodup := h.names_nodup.sublist hsublist
  refine List.perm_singleton.mp ((List.perm_ext_iff_of_nodup ?_ (List.nodup_singleton edge)).mpr ?_)
  · exact (List.Nodup.of_map _ hnodup).filter _
  · intro other
    rw [List.mem_filter, List.mem_singleton, decide_eq_true_eq]
    constructor
    · rintro ⟨hother, heq⟩
      exact List.inj_on_of_nodup_map hnodup hother hedge heq
    · rintro rfl
      exact ⟨hedge, rfl⟩

theorem Covers.wellNormalized_iff (h : Covers clauses plan.nodes) (hunique : UniqueIds plan.nodes) :
    WellNormalized clauses plan ↔ ClausesScoped clauses := by
  have hscoped := h.scoped_iff plan.nodes hunique (List.Subset.refl _)
  refine ⟨fun hwell => hscoped.mp hwell.wellScoped, fun hclauses => ⟨hscoped.mpr hclauses, ?_, ?_⟩⟩
  · intro var hvar
    exact List.count_eq_one_of_mem h.names_nodup ((h.names_iff var).mpr hvar)
  · intro clause hclause i relationship left right hends
    obtain ⟨edge, hedge, hrelationship, halong⟩ := h.edges clause hclause i _ _ _ hends
    refine ⟨edge, ?_, halong, h.sources plan.nodes hunique (List.Subset.refl _) edge hedge⟩
    rw [← hrelationship]
    exact h.filter_eq hedge

/-- The plans that a source compiles to. -/
theorem covered_of_compile {source : String} {catalog : SchemaCatalog} {tokens : List Token}
    {ast : Program} (hlex : lex source = .ok tokens) (hparse : parse tokens = .ok ast)
    (hcompile : compile source catalog = .ok program) :
    CoveredBy ast.statement (plansOf program.statement) ∧
      ∀ plan ∈ plansOf program.statement, UniqueIds plan.nodes := by
  obtain ⟨tokens', hlex', hcompile⟩ := bind_eq_ok.mp hcompile
  obtain rfl : tokens = tokens' := Except.ok.inj (hlex.symm.trans hlex')
  obtain ⟨ast', hparse', hcompile⟩ := bind_eq_ok.mp hcompile
  obtain rfl : ast = ast' := Except.ok.inj (hparse.symm.trans hparse')
  obtain ⟨typed, htyped, hcompile⟩ := bind_eq_ok.mp hcompile
  obtain ⟨program', hnormalize, hcompile⟩ := bind_eq_ok.mp hcompile
  obtain ⟨_, hvalid, hcompile⟩ := bind_eq_ok.mp hcompile
  cases hcompile
  obtain ⟨hstatement, haccepted⟩ := (meets_analyze catalog ast).of_ok htyped
  obtain ⟨⟨statement, schema⟩, hlogical, hrest⟩ := bind_eq_ok.mp hnormalize
  cases hrest
  rw [hstatement] at hlogical
  exact ⟨coveredBy_of_normalizeStatement haccepted hlogical,
    uniqueIds_of_validateProgram (validateProgram_of_validateOutput hvalid)⟩

/-- The plans that a source compiles to are well scoped, bind every variable once
and expand every edge once, exactly when every property map uses what is bound at
its place in the order of expansion. -/
theorem compile_wellNormalized_iff {source : String} {catalog : SchemaCatalog}
    {tokens : List Token} {ast : Program} {program : LogicalProgram}
    (hlex : lex source = .ok tokens) (hparse : parse tokens = .ok ast)
    (hcompile : compile source catalog = .ok program) :
    (∀ plan ∈ plansOf program.statement, WellNormalized (clausesOf ast.statement) plan) ↔
      ClausesScoped (clausesOf ast.statement) := by
  obtain ⟨hcovered, hunique⟩ := covered_of_compile hlex hparse hcompile
  constructor
  · intro hall
    match hplans : plansOf program.statement with
    | [] =>
      rw [hcovered.exists_plan hplans]
      simp [ClausesScoped]
    | plan :: _ =>
      have hplan : plan ∈ plansOf program.statement := by simp [hplans]
      exact ((hcovered.covers plan hplan).wellNormalized_iff (hunique plan hplan)).mp
        (hall plan hplan)
  · intro hscoped plan hplan
    exact ((hcovered.covers plan hplan).wellNormalized_iff (hunique plan hplan)).mpr hscoped

/-- A clause that goes back from its second node to its first. -/
def backwardSource : String :=
  "MATCH (a)-[r]->(b) MATCH (c \x7bx: b.y\x7d)<-[s]-(b) RETURN c"

theorem compile_wellNormalized_iff_backward :
    ∃ tokens ast program, lex backwardSource = .ok tokens ∧ parse tokens = .ok ast ∧
      compile backwardSource (fun _ => none) = .ok program ∧
      ∀ plan ∈ plansOf program.statement, WellNormalized (clausesOf ast.statement) plan := by
  have hlex : (lex backwardSource).isOk = true := by decide +kernel
  have hparse : (parse (Result.value _ hlex)).isOk = true := by decide +kernel +revert
  have hcompile : (compile backwardSource fun _ => none).isOk = true := by decide +kernel
  refine ⟨_, _, _, Result.eq_ok_value _ hlex, Result.eq_ok_value _ hparse,
    Result.eq_ok_value _ hcompile, ?_⟩
  refine (compile_wellNormalized_iff (Result.eq_ok_value _ hlex) (Result.eq_ok_value _ hparse)
    (Result.eq_ok_value _ hcompile)).mpr ?_
  decide +kernel +revert

/-- The second clause compares a property with one of the first clause, but its
filter stands below the join of the two. -/
def earlierReference : String := "MATCH (a) MATCH (b \x7bx: a.y\x7d) RETURN b"

theorem earlierReference_not_wellNormalized :
    ∃ tokens ast program, lex earlierReference = .ok tokens ∧ parse tokens = .ok ast ∧
      compile earlierReference (fun _ => none) = .ok program ∧
      ∃ plan ∈ plansOf program.statement, ¬ WellNormalized (clausesOf ast.statement) plan := by
  have hlex : (lex earlierReference).isOk = true := by decide +kernel
  have hparse : (parse (Result.value _ hlex)).isOk = true := by decide +kernel +revert
  have hcompile : (compile earlierReference fun _ => none).isOk = true := by decide +kernel
  have hplans : (plansOf (Result.value _ hcompile).statement).length = 1 := by
    decide +kernel +revert
  have hnot : ¬ ClausesScoped (clausesOf (Result.value _ hparse).statement) := by
    decide +kernel +revert
  obtain ⟨plan, hplan⟩ := List.length_eq_one_iff.mp hplans
  have hmem : plan ∈ plansOf (Result.value _ hcompile).statement := by simp [hplan]
  obtain ⟨hcovered, hunique⟩ := covered_of_compile (Result.eq_ok_value _ hlex)
    (Result.eq_ok_value _ hparse) (Result.eq_ok_value _ hcompile)
  refine ⟨_, _, _, Result.eq_ok_value _ hlex, Result.eq_ok_value _ hparse,
    Result.eq_ok_value _ hcompile, plan, hmem, ?_⟩
  rwa [(hcovered.covers plan hmem).wellNormalized_iff (hunique plan hmem)]

end DtgProxy.Language

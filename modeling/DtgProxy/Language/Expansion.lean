import DtgProxy.Language.Analysis
import DtgProxy.Language.PlanScope

/-! # The plan of a clause

The expansions of a pattern are its hops, in the order in which the plan makes
them.  Every hop leaves from a node that is bound, and together with the node
where the clause starts the hops bind every variable of the pattern once.  A
property map, however, is compared as soon as its element is bound, so it can
only use what is bound by then.
-/
namespace DtgProxy.Language

open Lib

variable {scope : List String}

/-! ### Property maps -/

theorem exists_logicalExpr {expression : Expr} (hcount : expression ≠ .countStar) :
    ∃ logical, logicalExpr expression = .ok logical ∧ logical.columns = expression.variables := by
  cases expression with
  | countStar => exact absurd rfl hcount
  | property => exact ⟨_, rfl, by simp [LogicalExpr.columns, Expr.variables]⟩
  | _ => exact ⟨_, rfl, by simp [LogicalExpr.columns, Expr.variables]⟩

/-- The variables of the property map are in scope. -/
def Refers (scope : List String) (properties : Properties) : Prop :=
  ∀ entry ∈ properties.toList, ∀ var ∈ entry.2.variables, var ∈ scope

instance (scope : List String) (properties : Properties) : Decidable (Refers scope properties) :=
  inferInstanceAs (Decidable (∀ entry ∈ properties.toList, ∀ var ∈ entry.2.variables, var ∈ scope))

/-- The columns of an expression that may be absent. -/
def predicateColumns (predicate : Option LogicalExpr) : List String :=
  predicate.toList.flatMap (·.columns)

variable {properties : Properties}

theorem exists_propertyPredicate (var : String) (hcountless : Countless properties) :
    ∃ predicate, propertyPredicate var properties = .ok predicate ∧
      predicateColumns predicate =
        properties.toList.flatMap fun entry => var :: entry.2.variables := by
  unfold propertyPredicate
  unfold Countless at hcountless
  have hnone : predicateColumns none = [] := rfl
  rw [← List.nil_append (List.flatMap _ _), ← hnone]
  generalize (none : Option LogicalExpr) = predicate
  generalize properties.toList = entries at hcountless
  induction entries generalizing predicate with
  | nil => exact ⟨predicate, rfl, by simp⟩
  | cons entry entries ih =>
    obtain ⟨value, hvalue, hcolumns⟩ := exists_logicalExpr (hcountless entry List.mem_cons_self)
    rw [List.foldlM_cons, hvalue]
    obtain ⟨result, hresult, heq⟩ := ih
      (some (predicate.elim (propertyEquality var entry.1 value)
        fun previous => .binary previous .and (propertyEquality var entry.1 value)))
      (fun e he => hcountless e (List.mem_cons_of_mem entry he))
    refine ⟨result, ?_, heq.trans ?_⟩
    · cases predicate <;> exact hresult
    · cases predicate <;>
        simp [predicateColumns, propertyEquality, LogicalExpr.columns, hcolumns]

theorem exists_filterProperties (draft : Draft) {var : String} (hcountless : Countless properties)
    (hvar : var ∈ scope) :
    ∃ after added, filterProperties draft var properties = .ok after ∧
      Grows draft after added scope scope [] [] (Refers scope properties) := by
  obtain ⟨predicate, hpredicate, hcolumns⟩ := exists_propertyPredicate var hcountless
  have hrefers : (∀ column ∈ predicateColumns predicate, column ∈ scope) ↔
      Refers scope properties := by
    simp only [hcolumns, List.mem_flatMap, List.mem_cons, forall_exists_index, and_imp, Refers]
    constructor
    · intro h entry hentry v hv
      exact h v entry hentry (.inr hv)
    · rintro h column entry hentry (rfl | hcolumn)
      · exact hvar
      · exact h entry hentry column hcolumn
  unfold filterProperties
  rw [hpredicate]
  cases predicate with
  | none =>
    exact ⟨draft, [], rfl, (Grows.refl draft scope).congr rfl rfl
      ⟨fun _ => hrefers.mp (by simp [predicateColumns]), fun _ => trivial⟩⟩
  | some predicate =>
    have hpush : Grows draft (push draft.nodes (.filter draft.root predicate)) _ scope (scope ++ [])
        [] [] _ := Grows.push rfl rfl (fun edge h => by cases h)
    rw [List.append_nil] at hpush
    refine ⟨_, _, rfl, hpush.congr rfl rfl (Iff.trans ?_ hrefers)⟩
    simp [predicateColumns, LogicalNodeKind.references]

/-! ### Hops -/

/-- One expansion: along which relationship, from which node to which, and in
which direction. -/
structure Hop where
  relationship : RelationshipPattern
  source : NodePattern
  destination : NodePattern
  direction : RelationshipDirection

namespace Hop

def names (hop : Hop) : List String := [hop.relationship.var, hop.destination.var]

def expand (hop : Hop) (scope : ReadScope) (input : LogicalNodeId) : Expand where
  input
  source := hop.source.var
  relationship := hop.relationship.var
  destination := hop.destination.var
  destinationLabels := hop.destination.labels
  direction := expandDirection hop.direction
  relationshipTypes := hop.relationship.types
  readScope := scope

/-- The expansion is along the hop. -/
structure Realizes (hop : Hop) (edge : Expand) : Prop where
  source : edge.source = hop.source.var
  relationship : edge.relationship = hop.relationship.var
  destination : edge.destination = hop.destination.var
  direction : edge.direction = expandDirection hop.direction

end Hop

/-- The hop along the relationship numbered `i`, from its left end or, in reverse,
from its right end. -/
def hopAt (pattern : Pattern) (reverse : Bool) (i : ℕ) : Option Hop := do
  let relationship ← pattern.relationships[i]?
  let left ← pattern.nodes[i]?
  let right ← pattern.nodes[i + 1]?
  if reverse then some ⟨relationship, right, left, reverseDirection relationship.direction⟩
  else some ⟨relationship, left, right, relationship.direction⟩

/-- The hops of a pattern from one of its nodes: to the end, then to the start. -/
def hops (pattern : Pattern) (anchor : ℕ) : List Hop :=
  (List.range' anchor (pattern.relationships.length - anchor)).filterMap (hopAt pattern false) ++
    (List.range anchor).reverse.filterMap (hopAt pattern true)

def expandHop (scope : ReadScope) (draft : Draft) (hop : Hop) : Outcome Draft := do
  let draft := push draft.nodes (.expand (hop.expand scope draft.root))
  let draft ← filterProperties draft hop.relationship.var hop.relationship.properties
  filterProperties draft hop.destination.var hop.destination.properties

section Hops

variable {pattern : Pattern} {reverse : Bool} {i : ℕ}
variable {anchor : ℕ} {node : NodePattern}
variable {scope : List String}

/-- A relationship of a pattern and its ends. -/
structure Ends (pattern : Pattern) (i : ℕ) (relationship : RelationshipPattern)
    (left right : NodePattern) : Prop where
  relationship : pattern.relationships[i]? = some relationship
  left : pattern.nodes[i]? = some left
  right : pattern.nodes[i + 1]? = some right

theorem exists_ends (h : i < pattern.relationships.length) :
    ∃ relationship left right, Ends pattern i relationship left right := by
  have hlength := pattern.length_nodes
  exact ⟨_, _, _, List.getElem?_eq_getElem h,
    List.getElem?_eq_getElem (by omega : i < pattern.nodes.length),
    List.getElem?_eq_getElem (by omega : i + 1 < pattern.nodes.length)⟩

variable {relationship : RelationshipPattern}

theorem Ends.hopAt_false {left right : NodePattern} (h : Ends pattern i relationship left right) :
    hopAt pattern false i = some ⟨relationship, left, right, relationship.direction⟩ := by
  simp [hopAt, h.relationship, h.left, h.right]

theorem Ends.hopAt_true {left right : NodePattern} (h : Ends pattern i relationship left right) :
    hopAt pattern true i =
      some ⟨relationship, right, left, reverseDirection relationship.direction⟩ := by
  simp [hopAt, h.relationship, h.left, h.right]

/-- The expansion along a relationship of the pattern is the expansion along its hop. -/
theorem expandEdge_eq (scope : ReadScope) (draft : Draft) (h : i < pattern.relationships.length) :
    ∃ hop, hopAt pattern reverse i = some hop ∧
      expandEdge pattern scope reverse draft i = expandHop scope draft hop := by
  obtain ⟨relationship, left, right, hends⟩ := exists_ends h
  have hedge : expandEdge pattern scope reverse draft i =
      expandHop scope draft (if reverse then
        ⟨relationship, right, left, reverseDirection relationship.direction⟩
      else ⟨relationship, left, right, relationship.direction⟩) := by
    simp only [expandEdge, index, hends.relationship, hends.left, hends.right]
    cases reverse <;> rfl
  cases reverse with
  | false => exact ⟨_, hends.hopAt_false, hedge⟩
  | true => exact ⟨_, hends.hopAt_true, hedge⟩

theorem foldlM_expandEdge (scope : ReadScope) {indices : List ℕ}
    (h : ∀ i ∈ indices, i < pattern.relationships.length) (draft : Draft) :
    indices.foldlM (expandEdge pattern scope reverse) draft =
      (indices.filterMap (hopAt pattern reverse)).foldlM (expandHop scope) draft := by
  induction indices generalizing draft with
  | nil => rfl
  | cons i indices ih =>
    obtain ⟨hop, hhop, hedge⟩ := expandEdge_eq scope draft (h i List.mem_cons_self)
    rw [List.foldlM_cons, hedge, List.filterMap_cons_some hhop, List.foldlM_cons]
    exact bind_congr fun next => ih (fun j hj => h j (List.mem_cons_of_mem i hj)) next

/-- A hop of a pattern goes along one of its relationships, backwards before the anchor. -/
theorem mem_hops_iff (hanchor : anchor ≤ pattern.relationships.length) (hop : Hop) :
    hop ∈ hops pattern anchor ↔
      ∃ i < pattern.relationships.length, hopAt pattern (decide (i < anchor)) i = some hop := by
  simp only [hops, List.mem_append, List.mem_filterMap, List.mem_reverse, List.mem_range,
    List.mem_range'_1]
  constructor
  · rintro (⟨i, ⟨hle, hlt⟩, hhop⟩ | ⟨i, hlt, hhop⟩)
    · exact ⟨i, by omega, by rwa [decide_eq_false (by omega)]⟩
    · exact ⟨i, by omega, by rwa [decide_eq_true hlt]⟩
  · rintro ⟨i, hi, hhop⟩
    by_cases hlt : i < anchor
    · exact .inr ⟨i, hlt, by rwa [decide_eq_true hlt] at hhop⟩
    · exact .inl ⟨i, by omega, by rwa [decide_eq_false hlt] at hhop⟩

/-- Every hop leaves from a variable that is in scope or that a hop before it binds. -/
def Chained : List String → List Hop → Prop
  | _, [] => True
  | scope, hop :: hops => hop.source.var ∈ scope ∧ Chained (scope ++ hop.names) hops

theorem Chained.append {first second : List Hop} (h : Chained scope first)
    (h' : Chained (scope ++ first.flatMap Hop.names) second) : Chained scope (first ++ second) := by
  induction first generalizing scope with
  | nil => simpa using h'
  | cons hop first ih =>
    refine ⟨h.1, ih h.2 ?_⟩
    simpa [List.append_assoc] using h'

section Anchored

variable (hnode : pattern.nodes[anchor]? = some node) (hscope : node.var ∈ scope)

include hnode hscope

theorem chained_forward {count : ℕ} (hcount : anchor + count ≤ pattern.relationships.length) :
    Chained scope ((List.range' anchor count).filterMap (hopAt pattern false)) := by
  induction count generalizing anchor node scope with
  | zero => exact trivial
  | succ count ih =>
    obtain ⟨relationship, left, right, hends⟩ :=
      @exists_ends pattern anchor (by omega)
    obtain rfl : left = node := Option.some_injective _ (hends.left.symm.trans hnode)
    rw [List.range'_succ, List.filterMap_cons_some hends.hopAt_false]
    exact ⟨hscope, ih hends.right (by simp [Hop.names]) (by omega)⟩

theorem chained_backward (hanchor : anchor ≤ pattern.relationships.length) :
    Chained scope ((List.range anchor).reverse.filterMap (hopAt pattern true)) := by
  induction anchor generalizing node scope with
  | zero => exact trivial
  | succ anchor ih =>
    obtain ⟨relationship, left, right, hends⟩ := @exists_ends pattern anchor hanchor
    obtain rfl : right = node := Option.some_injective _ (hends.right.symm.trans hnode)
    rw [List.range_succ, List.reverse_append, List.reverse_singleton, List.singleton_append,
      List.filterMap_cons_some hends.hopAt_true]
    exact ⟨hscope, ih hends.left (by simp [Hop.names]) (by omega)⟩

theorem chained_hops (hanchor : anchor ≤ pattern.relationships.length) :
    Chained scope (hops pattern anchor) :=
  (chained_forward hnode hscope (by omega)).append
    (chained_backward hnode (List.mem_append_left _ hscope) hanchor)

end Anchored

def Pattern.names (pattern : Pattern) : List String := pattern.variables.map Prod.fst

theorem names_eq (pattern : Pattern) :
    pattern.names = pattern.nodes.map (·.var) ++ pattern.relationships.map (·.var) := by
  simp [Pattern.names, Pattern.variables, Function.comp_def]

theorem drop_eq_cons {α : Type} {xs : List α} {x : α} (h : xs[i]? = some x) :
    xs.drop i = x :: xs.drop (i + 1) := by
  rw [List.drop_eq_getElem?_toList_append, h]
  rfl

theorem names_forward {count : ℕ} (hcount : anchor + count = pattern.relationships.length)
    (hnode : pattern.nodes[anchor]? = some node) :
    (node.var :: ((List.range' anchor count).filterMap (hopAt pattern false)).flatMap
      Hop.names).Perm ((pattern.nodes.drop anchor).map (·.var) ++
        (pattern.relationships.drop anchor).map (·.var)) := by
  induction count generalizing anchor node with
  | zero =>
    have hlength := pattern.length_nodes
    rw [drop_eq_cons hnode, List.drop_eq_nil_of_le (by omega : pattern.nodes.length ≤ anchor + 1),
      List.drop_eq_nil_of_le (by omega : pattern.relationships.length ≤ anchor)]
    exact .refl _
  | succ count ih =>
    obtain ⟨relationship, left, right, hends⟩ :=
      @exists_ends pattern anchor (by omega)
    obtain rfl : left = node := Option.some_injective _ (hends.left.symm.trans hnode)
    have hrest := ih (by omega) hends.right
    rw [List.range'_succ, List.filterMap_cons_some hends.hopAt_false, drop_eq_cons hends.left,
      drop_eq_cons hends.relationship]
    exact ((hrest.cons relationship.var).trans List.perm_middle.symm).cons left.var

theorem names_backward (hanchor : anchor ≤ pattern.relationships.length) :
    (((List.range anchor).reverse.filterMap (hopAt pattern true)).flatMap Hop.names).Perm
      ((pattern.nodes.take anchor).map (·.var) ++
        (pattern.relationships.take anchor).map (·.var)) := by
  induction anchor with
  | zero => exact .refl _
  | succ anchor ih =>
    obtain ⟨relationship, left, right, hends⟩ := @exists_ends pattern anchor hanchor
    rw [List.range_succ, List.reverse_append, List.reverse_singleton, List.singleton_append,
      List.filterMap_cons_some hends.hopAt_true, List.take_add_one, List.take_add_one, hends.left,
      hends.relationship]
    have hrest := ih (by omega)
    simp only [List.flatMap_cons, Hop.names, Option.toList_some, List.map_append, List.map_cons,
      List.map_nil, List.cons_append, List.nil_append]
    refine List.perm_iff_count.mpr fun var => ?_
    have hcount := hrest.count_eq var
    simp only [List.count_append, List.count_cons, List.count_nil] at hcount ⊢
    omega

/-- The node where the hops start and the hops bind every variable of the pattern once. -/
theorem names_hops (hanchor : anchor ≤ pattern.relationships.length)
    (hnode : pattern.nodes[anchor]? = some node) :
    (node.var :: (hops pattern anchor).flatMap Hop.names).Perm pattern.names := by
  have hforward := names_forward (by omega :
    anchor + (pattern.relationships.length - anchor) = pattern.relationships.length) hnode
  have hbackward := names_backward hanchor
  rw [names_eq, hops, List.flatMap_append]
  refine List.perm_iff_count.mpr fun var => ?_
  have hnodes := congrArg (fun nodes => (nodes.map (·.var)).count var)
    (List.take_append_drop anchor pattern.nodes)
  have hrelationships := congrArg (fun nodes => (nodes.map (·.var)).count var)
    (List.take_append_drop anchor pattern.relationships)
  have hcount := hforward.count_eq var
  have hcount' := hbackward.count_eq var
  simp only [List.map_append, List.count_append, List.count_cons] at *
  omega

end Hops

/-- The property maps along the hops use what is bound when they are compared. -/
def HopsScoped : List String → List Hop → Prop
  | _, [] => True
  | scope, hop :: hops => Refers (scope ++ hop.names) hop.relationship.properties ∧
      Refers (scope ++ hop.names) hop.destination.properties ∧ HopsScoped (scope ++ hop.names) hops

instance decidableHopsScoped :
    (scope : List String) → (hops : List Hop) → Decidable (HopsScoped scope hops)
  | _, [] => inferInstanceAs (Decidable True)
  | scope, hop :: hops =>
    have := decidableHopsScoped (scope ++ hop.names) hops
    inferInstanceAs (Decidable (_ ∧ _ ∧ _))

theorem exists_expandHop (readScope : ReadScope) (draft : Draft) {hop : Hop}
    (hrelationship : Countless hop.relationship.properties)
    (hdestination : Countless hop.destination.properties) (hsource : hop.source.var ∈ scope) :
    ∃ after added edge, expandHop readScope draft hop = .ok after ∧
      Grows draft after added scope (scope ++ hop.names) hop.names [edge]
        (Refers (scope ++ hop.names) hop.relationship.properties ∧
          Refers (scope ++ hop.names) hop.destination.properties) ∧ hop.Realizes edge := by
  have hpush : Grows draft (push draft.nodes (.expand (hop.expand readScope draft.root))) _ scope
      (scope ++ hop.names) hop.names [hop.expand readScope draft.root] _ :=
    Grows.push rfl rfl (fun edge h => by cases h; exact ⟨rfl, hsource⟩)
  obtain ⟨middle, added, hmiddle, hgrows⟩ := exists_filterProperties
    (push draft.nodes (.expand (hop.expand readScope draft.root))) hrelationship
    (by simp [Hop.names] : hop.relationship.var ∈ scope ++ hop.names)
  obtain ⟨after, added', hafter, hgrows'⟩ := exists_filterProperties middle hdestination
    (by simp [Hop.names] : hop.destination.var ∈ scope ++ hop.names)
  refine ⟨after, _, hop.expand readScope draft.root, ?_, ((hpush.trans hgrows).trans hgrows').congr (by simp) (by simp) ?_,
    ⟨rfl, rfl, rfl, rfl⟩⟩
  · unfold expandHop
    dsimp only
    rw [hmiddle]
    exact hafter
  · simpa [LogicalNodeKind.references, Hop.expand] using fun _ _ => hsource

/-- The expansions along chained hops. -/
theorem exists_expandHops (readScope : ReadScope) {hops : List Hop}
    (hcountless : ∀ hop ∈ hops,
      Countless hop.relationship.properties ∧ Countless hop.destination.properties)
    (hchained : Chained scope hops) (draft : Draft) :
    ∃ after added edges, hops.foldlM (expandHop readScope) draft = .ok after ∧
      Grows draft after added scope (scope ++ hops.flatMap Hop.names) (hops.flatMap Hop.names) edges
        (HopsScoped scope hops) ∧ List.Forall₂ Hop.Realizes hops edges := by
  induction hops generalizing scope draft with
  | nil => exact ⟨draft, [], [], rfl, by simpa [HopsScoped] using Grows.refl draft scope, .nil⟩
  | cons hop hops ih =>
    obtain ⟨hrelationship, hdestination⟩ := hcountless hop List.mem_cons_self
    obtain ⟨middle, added, edge, hmiddle, hgrows, hedge⟩ :=
      exists_expandHop readScope draft hrelationship hdestination hchained.1
    obtain ⟨after, added', edges, hafter, hgrows', hedges⟩ :=
      ih (fun h hh => hcountless h (List.mem_cons_of_mem hop hh)) hchained.2 middle
    have hall := hgrows.trans hgrows'
    rw [List.append_assoc] at hall
    refine ⟨after, _, edge :: edges, ?_, hall.congr rfl rfl (by simp [HopsScoped, and_assoc]),
      .cons hedge hedges⟩
    rw [List.foldlM_cons, hmiddle]
    exact hafter

/-! ### Clauses -/

/-- The number of the node where a clause starts. -/
def anchorOf (bound : List String) (pattern : Pattern) : ℕ := (findAnchor bound pattern).getD 0

/-- What is bound where a clause starts: what the clauses before it bind, or the
node that it scans. -/
def startScope (bound : List String) (pattern : Pattern) : List String :=
  match findAnchor bound pattern with
  | some _ => bound
  | none => pattern.nodes.head?.toList.map (·.var)

/-- The property maps of a clause use what is bound when they are compared. -/
def ClauseScoped (bound : List String) (pattern : Pattern) : Prop :=
  (∀ node ∈ pattern.nodes[anchorOf bound pattern]?.toList,
    Refers (startScope bound pattern) node.properties) ∧
  HopsScoped (startScope bound pattern) (hops pattern (anchorOf bound pattern))

instance (bound : List String) (pattern : Pattern) : Decidable (ClauseScoped bound pattern) :=
  inferInstanceAs (Decidable (_ ∧ _))

section Clauses

variable {bound : List String} {pattern : Pattern}
variable {node first : NodePattern} {lookup : Option Expr} {selection : Selection}
  {added : List LogicalNode} {edges : List Expand}

theorem anchorOf_le (bound : List String) (pattern : Pattern) :
    anchorOf bound pattern ≤ pattern.relationships.length := by
  have hlength := pattern.length_nodes
  unfold anchorOf findAnchor
  cases h : pattern.nodes.findIdx? fun node => decide (node.var ∈ bound) with
  | none => exact Nat.zero_le _
  | some =>
    have := (List.findIdx?_eq_some_iff_getElem.mp h).1
    simp only [Option.getD_some]
    omega

theorem exists_anchor (bound : List String) (pattern : Pattern) :
    ∃ node, pattern.nodes[anchorOf bound pattern]? = some node := by
  have hlength := pattern.length_nodes
  have hle := anchorOf_le bound pattern
  exact ⟨_, List.getElem?_eq_getElem (by omega)⟩

theorem anchor_mem_startScope (hnode : pattern.nodes[anchorOf bound pattern]? = some node) :
    node.var ∈ startScope bound pattern := by
  unfold anchorOf at hnode
  unfold startScope
  cases h : findAnchor bound pattern with
  | none =>
    rw [h, Option.getD_none] at hnode
    simp [List.head?_eq_getElem?, hnode]
  | some =>
    rw [h] at hnode
    obtain ⟨hlt, hmem, -⟩ := List.findIdx?_eq_some_iff_getElem.mp h
    obtain ⟨-, rfl⟩ := List.getElem?_eq_some_iff.mp hnode
    simpa using hmem

theorem hop_countless (hcountless : pattern.Countless) {anchor : ℕ}
    (hanchor : anchor ≤ pattern.relationships.length) :
    ∀ hop ∈ hops pattern anchor,
      Countless hop.relationship.properties ∧ Countless hop.destination.properties := by
  intro hop hhop
  obtain ⟨i, hi, heq⟩ := (mem_hops_iff hanchor hop).mp hhop
  obtain ⟨relationship, left, right, hends⟩ := exists_ends hi
  have hrelationship := hcountless.2 relationship (List.mem_of_getElem? hends.relationship)
  by_cases hlt : i < anchor
  · rw [decide_eq_true hlt, hends.hopAt_true] at heq
    cases heq
    exact ⟨hrelationship, hcountless.1 left (List.mem_of_getElem? hends.left)⟩
  · rw [decide_eq_false hlt, hends.hopAt_false] at heq
    cases heq
    exact ⟨hrelationship, hcountless.1 right (List.mem_of_getElem? hends.right)⟩

/-- What a clause adds to the plan: in any plan that the nodes are part of, in
which the root before them binds what the clauses before bind. -/
structure Extends (selection : Selection) (pattern : Pattern) (added : List LogicalNode)
    (root : LogicalNodeId) (edges : List Expand) : Prop where
  /-- The new variables are those of the pattern but for the one it starts at, when
  that is bound. -/
  names : ∃ kept, (kept ++ added.flatMap (·.kind.introduces)).Perm pattern.names ∧
    (∀ var ∈ kept, var ∈ selection.bound) ∧
    (kept = [] → ∀ node ∈ pattern.nodes, node.var ∉ selection.bound)
  edges_eq : added.filterMap (·.kind.edge) = edges
  realized : List.Forall₂ Hop.Realizes (hops pattern (anchorOf selection.bound pattern)) edges
  hasScope : ∀ plan, UniqueIds plan → selection.nodes ++ added ⊆ plan →
    (∀ id, selection.root = some id → HasScope plan id selection.bound) →
    HasScope plan root (selection.bound ++ pattern.names)
  sources : ∀ plan, UniqueIds plan → selection.nodes ++ added ⊆ plan →
    (∀ id, selection.root = some id → HasScope plan id selection.bound) →
    ∀ edge ∈ edges, Binds plan edge.input edge.source
  scoped_iff : ∀ plan, UniqueIds plan → selection.nodes ++ added ⊆ plan →
    (∀ id, selection.root = some id → HasScope plan id selection.bound) →
    ((∀ node ∈ added, NodeScoped plan node) ↔ ClauseScoped selection.bound pattern)

/-- A selection without a root has bound nothing. -/
def Selection.Sane (selection : Selection) : Prop := selection.root = none → selection.bound = []

/-- An identity to look up refers to no column. -/
def LookupConstant (lookup : Option Expr) : Prop :=
  ∀ identity, lookup = some identity → identity ≠ .countStar ∧ identity.variables = []

/-- The nodes of a clause over the draft where it starts. -/
structure Expansion (bound : List String) (pattern : Pattern) (start after : Draft)
    (added : List LogicalNode) (edges : List Expand) : Prop where
  grows : Grows start after added (startScope bound pattern)
    (startScope bound pattern ++ (hops pattern (anchorOf bound pattern)).flatMap Hop.names)
    ((hops pattern (anchorOf bound pattern)).flatMap Hop.names) edges (ClauseScoped bound pattern)
  realized : List.Forall₂ Hop.Realizes (hops pattern (anchorOf bound pattern)) edges

/-- The filter at the node where a clause starts, and the hops from it. -/
theorem exists_expansion (readScope : ReadScope) (hcountless : pattern.Countless) (draft : Draft) :
    ∃ node middle after added edges,
      pattern.nodes[anchorOf bound pattern]? = some node ∧
      filterProperties draft node.var node.properties = .ok middle ∧
      (hops pattern (anchorOf bound pattern)).foldlM (expandHop readScope) middle = .ok after ∧
      Expansion bound pattern draft after added edges := by
  obtain ⟨node, hnode⟩ := exists_anchor bound pattern
  have hscope := anchor_mem_startScope hnode
  have hle := anchorOf_le bound pattern
  obtain ⟨middle, added, hmiddle, hgrows⟩ := exists_filterProperties draft
    (hcountless.1 node (List.mem_of_getElem? hnode)) hscope
  obtain ⟨after, added', edges, hafter, hgrows', hedges⟩ :=
    exists_expandHops readScope (hop_countless hcountless hle) (chained_hops hnode hscope hle) middle
  refine ⟨node, middle, after, _, edges, hnode, hmiddle, hafter,
    (hgrows.trans hgrows').congr rfl rfl ?_, hedges⟩
  simp [ClauseScoped, hnode]

theorem expandMatch_eq (lookup : Option Expr) (readScope : ReadScope) (selection : Selection)
    (pattern : Pattern) :
    expandMatch lookup readScope selection pattern =
      startMatch lookup readScope selection pattern >>= fun draft =>
        index pattern.nodes (anchorOf selection.bound pattern) >>= fun node =>
          filterProperties draft node.var node.properties >>= fun draft =>
            (hops pattern (anchorOf selection.bound pattern)).foldlM (expandHop readScope) draft >>=
              fun draft => .ok ⟨(joinMatch selection pattern draft).nodes,
                some (joinMatch selection pattern draft).root, selection.bound ++ pattern.names⟩ := by
  have hle := anchorOf_le selection.bound pattern
  refine bind_congr fun draft => bind_congr fun node => bind_congr fun draft => ?_
  rw [hops, List.foldlM_append, bind_assoc, ← foldlM_expandEdge]
  · refine bind_congr fun draft => ?_
    rw [← foldlM_expandEdge]
    · rfl
    · simp only [List.mem_reverse, List.mem_range]
      omega
  · simp only [List.mem_range'_1]
    omega

theorem expandMatch_eq_ok {readScope : ReadScope} {start middle after : Draft}
    (hstart : startMatch lookup readScope selection pattern = .ok start)
    (hnode : pattern.nodes[anchorOf selection.bound pattern]? = some node)
    (hmiddle : filterProperties start node.var node.properties = .ok middle)
    (hafter : (hops pattern (anchorOf selection.bound pattern)).foldlM (expandHop readScope) middle =
      .ok after) :
    expandMatch lookup readScope selection pattern =
      .ok ⟨(joinMatch selection pattern after).nodes,
        some (joinMatch selection pattern after).root, selection.bound ++ pattern.names⟩ := by
  have hindex : index pattern.nodes (anchorOf selection.bound pattern) = .ok node := by
    simp only [index, hnode]
  rw [expandMatch_eq]
  exact Result.bind_eq_ok.mpr ⟨start, hstart, Result.bind_eq_ok.mpr ⟨node, hindex,
    Result.bind_eq_ok.mpr ⟨middle, hmiddle, Result.bind_eq_ok.mpr ⟨after, hafter, rfl⟩⟩⟩⟩

/-- A clause that goes on from a node of the clauses before it. -/
theorem Extends.of_correlated {draft : Draft} {root : LogicalNodeId} {anchor : ℕ}
    (hanchor : findAnchor selection.bound pattern = some anchor)
    (hroot : selection.root = some root)
    (hnode : pattern.nodes[anchorOf selection.bound pattern]? = some node)
    (h : Expansion selection.bound pattern ⟨selection.nodes, root⟩ draft added edges) :
    Extends selection pattern added draft.root edges := by
  obtain ⟨hgrows, hedges⟩ := h
  have hstart : startScope selection.bound pattern = selection.bound := by
    simp [startScope, hanchor]
  have hscope := anchor_mem_startScope hnode
  have hperm := names_hops (anchorOf_le selection.bound pattern) hnode
  have hnodes := hgrows.nodes_eq
  rw [hstart] at hscope hgrows
  refine ⟨⟨[node.var], by rwa [hgrows.names_eq], by simpa using hscope, by simp⟩, hgrows.edges_eq,
    hedges, ?_, ?_, ?_⟩
  · intro plan hunique hsubset hbefore var
    rw [hgrows.hasScope plan hunique (hnodes ▸ hsubset) (hbefore root hroot) var,
      List.mem_append, List.mem_append, ← hperm.mem_iff, List.mem_cons]
    constructor
    · rintro (hvar | hvar)
      · exact .inl hvar
      · exact .inr (.inr hvar)
    · rintro (hvar | rfl | hvar)
      · exact .inl hvar
      · exact .inl hscope
      · exact .inr hvar
  · intro plan hunique hsubset hbefore
    exact hgrows.sources plan hunique (hnodes ▸ hsubset) (hbefore root hroot)
  · intro plan hunique hsubset hbefore
    exact hgrows.scoped_iff plan hunique (hnodes ▸ hsubset) (hbefore root hroot)

/-- The source of a clause is a scan or a lookup of its first node. -/
structure IsSource (first : NodePattern) (kind : LogicalNodeKind) : Prop where
  introduces : kind.introduces = [first.var]
  inputs : kind.inputs = []
  computes : kind.computes = none
  references : kind.references = []
  edge : kind.edge = none

theorem exists_sourceKind (hlookup : LookupConstant lookup) (first : NodePattern)
    (readScope : ReadScope) :
    ∃ kind, sourceKind lookup first readScope = .ok kind ∧ IsSource first kind := by
  cases lookup with
  | none => exact ⟨_, rfl, rfl, rfl, rfl, rfl, rfl⟩
  | some identity =>
    obtain ⟨hcount, hconstant⟩ := hlookup identity rfl
    obtain ⟨id, hid, hcolumns⟩ := exists_logicalExpr hcount
    refine ⟨.vertexLookup ⟨first.var, id, first.labels, readScope⟩, ?_, rfl, rfl, rfl, ?_, rfl⟩
    · simp only [sourceKind, hid]
      rfl
    · exact hcolumns.trans hconstant

theorem IsSource.hasScope {node : LogicalNode} {plan : List LogicalNode}
    (h : IsSource first node.kind) (hunique : UniqueIds plan) (hmem : node ∈ plan) :
    HasScope plan node.id [first.var] := by
  intro var
  rw [binds_iff hunique hmem h.computes, h.introduces, h.inputs]
  simp

/-- The nodes of a clause over a source of its own bind the variables of the pattern. -/
theorem scope_over_source {nodes : List LogicalNode} {draft : Draft} {kind : LogicalNodeKind}
    {plan : List LogicalNode} (hanchor : findAnchor bound pattern = none)
    (hfirst : pattern.nodes[anchorOf bound pattern]? = some first) (hsource : IsSource first kind)
    (h : Expansion bound pattern (push nodes kind) draft added edges)
    (hunique : UniqueIds plan) (hsubset : draft.nodes ⊆ plan) :
    HasScope plan draft.root pattern.names ∧
      (∀ edge ∈ edges, Binds plan edge.input edge.source) ∧
      ((∀ node ∈ ⟨UInt32.ofNat nodes.length, kind⟩ :: added, NodeScoped plan node) ↔
        ClauseScoped bound pattern) := by
  have hgrows := h.grows
  have hstart : startScope bound pattern = [first.var] := by
    unfold anchorOf at hfirst
    rw [hanchor, Option.getD_none] at hfirst
    simp [startScope, hanchor, List.head?_eq_getElem?, hfirst]
  have hperm := names_hops (anchorOf_le bound pattern) hfirst
  have hmem : (⟨UInt32.ofNat nodes.length, kind⟩ : LogicalNode) ∈ plan := by
    refine hsubset ?_
    rw [hgrows.nodes_eq]
    simp [push]
  have hscope : HasScope plan (push nodes kind).root (startScope bound pattern) := by
    rw [hstart]
    exact IsSource.hasScope hsource hunique hmem
  refine ⟨fun var => ?_, hgrows.sources plan hunique hsubset hscope, ?_⟩
  · rw [hgrows.hasScope plan hunique hsubset hscope var, hstart, ← hperm.mem_iff]
    rfl
  · rw [List.forall_mem_cons, hgrows.scoped_iff plan hunique hsubset hscope]
    refine and_iff_right fun column hcolumn => ?_
    rw [hsource.references] at hcolumn
    cases hcolumn

/-- A clause with a source of its own, as the first or joined with those before it. -/
theorem Extends.of_source {draft : Draft} {kind : LogicalNodeKind} (hsane : selection.Sane)
    (hanchor : findAnchor selection.bound pattern = none)
    (hfirst : pattern.nodes[anchorOf selection.bound pattern]? = some first)
    (hsource : IsSource first kind)
    (h : Expansion selection.bound pattern (push selection.nodes kind) draft added edges) :
    ∃ joined, (joinMatch selection pattern draft).nodes = selection.nodes ++ joined ∧
      Extends selection pattern joined (joinMatch selection pattern draft).root edges := by
  obtain ⟨hgrows, hedges⟩ := id h
  have hnone : ∀ node ∈ pattern.nodes, node.var ∉ selection.bound := by
    simpa [findAnchor] using hanchor
  have hperm := names_hops (anchorOf_le selection.bound pattern) hfirst
  have hnodes : draft.nodes =
      selection.nodes ++ ⟨UInt32.ofNat selection.nodes.length, kind⟩ :: added := by
    rw [hgrows.nodes_eq, push, List.append_assoc]
    rfl
  have hover (plan : List LogicalNode) (hunique : UniqueIds plan) (hsubset : draft.nodes ⊆ plan) :=
    scope_over_source hanchor hfirst hsource h hunique hsubset
  cases hroot : selection.root with
  | none =>
    have hjoin : joinMatch selection pattern draft = draft := by
      simp only [joinMatch, hanchor, hroot]
    rw [hjoin, hnodes]
    refine ⟨_, rfl, ⟨[], ?_, by simp, fun _ => hnone⟩, ?_, hedges, ?_, ?_, ?_⟩
    · simpa [hsource.introduces, hgrows.names_eq] using hperm
    · simpa [hsource.edge] using hgrows.edges_eq
    · intro plan hunique hsubset _
      rw [hsane hroot]
      exact (hover plan hunique (hnodes ▸ hsubset)).1
    · intro plan hunique hsubset _
      exact (hover plan hunique (hnodes ▸ hsubset)).2.1
    · intro plan hunique hsubset _
      exact (hover plan hunique (hnodes ▸ hsubset)).2.2
  | some left =>
    have hjoin : joinMatch selection pattern draft =
        push draft.nodes (.join ⟨left, draft.root, .inner, none⟩) := by
      simp only [joinMatch, hanchor, hroot]
    rw [hjoin]
    refine ⟨⟨UInt32.ofNat selection.nodes.length, kind⟩ :: added ++
      [⟨UInt32.ofNat draft.nodes.length, .join ⟨left, draft.root, .inner, none⟩⟩], ?_, ?_⟩
    · simp [push, hnodes]
    have hpart : ∀ plan, selection.nodes ++ (⟨UInt32.ofNat selection.nodes.length, kind⟩ :: added ++
        [⟨UInt32.ofNat draft.nodes.length, .join ⟨left, draft.root, .inner, none⟩⟩]) ⊆ plan →
        draft.nodes ⊆ plan ∧ (⟨UInt32.ofNat draft.nodes.length,
          .join ⟨left, draft.root, .inner, none⟩⟩ : LogicalNode) ∈ plan := by
      intro plan hsubset
      rw [← List.append_assoc, ← hnodes, List.append_subset] at hsubset
      exact ⟨hsubset.1, hsubset.2 List.mem_cons_self⟩
    refine ⟨⟨[], ?_, by simp, fun _ => hnone⟩, ?_, hedges, ?_, ?_, ?_⟩
    · have hnames : (LogicalNodeKind.join ⟨left, draft.root, .inner, none⟩).introduces = [] := rfl
      simpa [hsource.introduces, hgrows.names_eq, hnames] using hperm
    · have hedge : (LogicalNodeKind.join ⟨left, draft.root, .inner, none⟩).edge = none := rfl
      simpa [hsource.edge, List.filterMap_cons, hedge] using hgrows.edges_eq
    · intro plan hunique hsubset hbefore var
      obtain ⟨hdraft, hmem⟩ := hpart plan hsubset
      have hleft := hbefore left hroot var
      have hright := (hover plan hunique hdraft).1 var
      have hbinds := binds_iff hunique hmem rfl var
      simp only [LogicalNodeKind.introduces, LogicalNodeKind.inputs, List.not_mem_nil, false_or,
        List.mem_cons, or_false, exists_eq_or_imp, exists_eq_left, hleft, hright] at hbinds
      rw [List.mem_append]
      exact hbinds
    · intro plan hunique hsubset _
      exact (hover plan hunique (hpart plan hsubset).1).2.1
    · intro plan hunique hsubset _
      rw [List.forall_mem_append, (hover plan hunique (hpart plan hsubset).1).2.2]
      refine and_iff_left fun node hnode column hcolumn => ?_
      rw [List.mem_singleton.mp hnode] at hcolumn
      cases hcolumn

/-- A clause without `COUNT(*)` in its property maps has a plan. -/
theorem exists_expandMatch (hlookup : LookupConstant lookup) (readScope : ReadScope)
    (hsane : selection.Sane) (hcountless : pattern.Countless) :
    ∃ added root edges, expandMatch lookup readScope selection pattern =
        .ok ⟨selection.nodes ++ added, some root, selection.bound ++ pattern.names⟩ ∧
      Extends selection pattern added root edges := by
  obtain ⟨first, hfirst⟩ : ∃ first, pattern.nodes.head? = some first := by
    have hlength := pattern.length_nodes
    exact ⟨_, List.head?_eq_some_head (List.ne_nil_of_length_pos (by omega))⟩
  cases hanchor : findAnchor selection.bound pattern with
  | some =>
    obtain ⟨root, hroot⟩ : ∃ root, selection.root = some root := by
      obtain ⟨hlt, hmem, -⟩ := List.findIdx?_eq_some_iff_getElem.mp hanchor
      refine Option.ne_none_iff_exists'.mp fun hnone => ?_
      rw [hsane hnone] at hmem
      simp at hmem
    have hstart : startMatch lookup readScope selection pattern = .ok ⟨selection.nodes, root⟩ := by
      simp only [startMatch, hfirst, hanchor, hroot]
    obtain ⟨node, middle, after, added, edges, hnode, hmiddle, hafter, h⟩ :=
      @exists_expansion selection.bound pattern readScope hcountless ⟨selection.nodes, root⟩
    refine ⟨added, after.root, edges, ?_, .of_correlated hanchor hroot hnode h⟩
    have hjoin : joinMatch selection pattern after = after := by
      simp only [joinMatch, hanchor]
    have hnodes : after.nodes = selection.nodes ++ added := h.grows.nodes_eq
    rw [expandMatch_eq_ok hstart hnode hmiddle hafter, hjoin, hnodes]
  | none =>
    obtain ⟨kind, hkind, hsource⟩ := exists_sourceKind hlookup first readScope
    have hstart : startMatch lookup readScope selection pattern =
        .ok (push selection.nodes kind) := by
      simp only [startMatch, hfirst, hanchor, hkind]
      rfl
    obtain ⟨node, middle, after, added, edges, hnode, hmiddle, hafter, h⟩ :=
      @exists_expansion selection.bound pattern readScope hcountless (push selection.nodes kind)
    obtain rfl : node = first := by
      have hzero : anchorOf selection.bound pattern = 0 := by simp [anchorOf, hanchor]
      rw [hzero, ← List.head?_eq_getElem?, hfirst] at hnode
      exact (Option.some_injective _ hnode).symm
    obtain ⟨joined, hnodes, hextends⟩ :=
      Extends.of_source hsane hanchor hnode hsource h
    refine ⟨joined, _, edges, ?_, hextends⟩
    rw [expandMatch_eq_ok hstart hnode hmiddle hafter, hnodes]

end Clauses

end DtgProxy.Language

import DtgProxy.Language.Normalize
import Mathlib.Data.List.Perm.Basic

/-! # The variables of a plan

A node of a plan refers to columns, and its inputs bind them: a scan, a lookup or
an expansion binds the variables it introduces, a projection or an aggregate the
columns it computes, and any other node what its inputs bind.
-/
namespace DtgProxy.Language

open Lib

/-! ### Columns -/

mutual

/-- The columns that an expression refers to. -/
def LogicalExpr.columns : LogicalExpr → List String
  | .literal _ => []
  | .parameter _ => []
  | .column name => [name]
  | .property input _ => input.columns
  | .unary _ input => input.columns
  | .binary left _ right => left.columns ++ right.columns
  | .list values => columnsOf values
  | .map entries => columnsOfEntries entries

def columnsOf : List LogicalExpr → List String
  | [] => []
  | value :: values => value.columns ++ columnsOf values

def columnsOfEntries : List (String × LogicalExpr) → List String
  | [] => []
  | (_, value) :: entries => value.columns ++ columnsOfEntries entries

end

namespace LogicalNodeKind

/-- The columns that a node refers to. -/
def references : LogicalNodeKind → List String
  | .nodeScan _ => []
  | .relationshipScan _ => []
  | .vertexLookup lookup => lookup.id.columns
  | .relationshipLookup lookup => lookup.id.columns
  | .expand step => [step.source]
  | .filter _ predicate => predicate.columns
  | .project _ projections => projections.flatMap (·.expression.columns)
  | .join pair => pair.predicate.toList.flatMap (·.columns)
  | .aggregate rows => rows.groups.flatMap (·.expression.columns) ++
      rows.aggregates.flatMap fun function => function.argument.toList.flatMap (·.columns)
  | .sort rows => rows.keys.flatMap (·.expression.columns)
  | .limit rows => (rows.skip.toList ++ rows.limit.toList).flatMap (·.columns)
  | .unwind rows => rows.expression.columns
  | .subquery _ _ correlatedVariables => correlatedVariables

def inputs : LogicalNodeKind → List LogicalNodeId
  | .nodeScan _ => []
  | .relationshipScan _ => []
  | .vertexLookup _ => []
  | .relationshipLookup _ => []
  | .expand step => [step.input]
  | .filter input _ => [input]
  | .project input _ => [input]
  | .join pair => [pair.left, pair.right]
  | .aggregate rows => [rows.input]
  | .sort rows => [rows.input]
  | .limit rows => [rows.input]
  | .unwind rows => [rows.input]
  | .subquery input _ _ => input.toList

/-- The variables that a node introduces. -/
def introduces : LogicalNodeKind → List String
  | .nodeScan scan => [scan.var]
  | .relationshipScan scan => [scan.var]
  | .vertexLookup lookup => [lookup.var]
  | .relationshipLookup lookup => [lookup.var]
  | .expand step => [step.relationship, step.destination]
  | .unwind rows => [rows.outputAlias]
  | _ => []

/-- The columns that a node computes in place of those of its input. -/
def computes : LogicalNodeKind → Option (List String)
  | .project _ projections => some (projections.map (·.outputAlias))
  | .aggregate rows => some (rows.groups.map (·.outputAlias) ++
      rows.aggregates.map (·.outputAlias))
  | _ => none

def edge : LogicalNodeKind → Option Expand
  | .expand step => some step
  | _ => none

end LogicalNodeKind

/-! ### Scopes -/

/-- The node `id` of a plan binds the variable. -/
inductive Binds (nodes : List LogicalNode) : LogicalNodeId → String → Prop where
  | introduced {node : LogicalNode} {var : String} (mem : node ∈ nodes)
      (own : var ∈ node.kind.introduces) : Binds nodes node.id var
  | computed {node : LogicalNode} {var : String} {columns : List String} (mem : node ∈ nodes)
      (own : node.kind.computes = some columns) (column : var ∈ columns) : Binds nodes node.id var
  | passed {node : LogicalNode} {input : LogicalNodeId} {var : String} (mem : node ∈ nodes)
      (keeps : node.kind.computes = none) (edge : input ∈ node.kind.inputs)
      (bound : Binds nodes input var) : Binds nodes node.id var

def UniqueIds (nodes : List LogicalNode) : Prop := (nodes.map (·.id)).Nodup

/-- The node `id` binds exactly the variables of `scope`. -/
def HasScope (nodes : List LogicalNode) (id : LogicalNodeId) (scope : List String) : Prop :=
  ∀ var, Binds nodes id var ↔ var ∈ scope

/-- Every column that the node refers to is bound by one of its inputs. -/
def NodeScoped (nodes : List LogicalNode) (node : LogicalNode) : Prop :=
  ∀ column ∈ node.kind.references, ∃ input ∈ node.kind.inputs, Binds nodes input column

section Scopes

variable {nodes : List LogicalNode} {node : LogicalNode} {scope : List String}

theorem UniqueIds.eq_of_id {other : LogicalNode} (hunique : UniqueIds nodes) (hmem : node ∈ nodes)
    (hother : other ∈ nodes) (hid : node.id = other.id) : node = other :=
  List.inj_on_of_nodup_map hunique hmem hother hid

/-- What a node binds that keeps what its inputs bind. -/
theorem binds_iff (hunique : UniqueIds nodes) (hmem : node ∈ nodes)
    (hkeeps : node.kind.computes = none) (var : String) :
    Binds nodes node.id var ↔
      var ∈ node.kind.introduces ∨ ∃ input ∈ node.kind.inputs, Binds nodes input var := by
  constructor
  · intro hbinds
    generalize hid : node.id = id at hbinds
    cases hbinds with
    | introduced hother hown =>
      obtain rfl := hunique.eq_of_id hmem hother hid
      exact .inl hown
    | computed hother hown =>
      obtain rfl := hunique.eq_of_id hmem hother hid
      rw [hkeeps] at hown
      cases hown
    | passed hother hkeeps' hinput hbound =>
      obtain rfl := hunique.eq_of_id hmem hother hid
      exact .inr ⟨_, hinput, hbound⟩
  · rintro (hown | ⟨input, hinput, hbound⟩)
    · exact .introduced hmem hown
    · exact .passed hmem hkeeps hinput hbound

/-- A node with one input adds what it introduces. -/
theorem hasScope_of_input {input : LogicalNodeId} (hunique : UniqueIds nodes)
    (hmem : node ∈ nodes) (hkeeps : node.kind.computes = none)
    (hinputs : node.kind.inputs = [input]) (hinput : HasScope nodes input scope) :
    HasScope nodes node.id (scope ++ node.kind.introduces) := by
  intro var
  rw [binds_iff hunique hmem hkeeps, hinputs, List.mem_append, ← hinput var]
  simp [or_comm]

theorem nodeScoped_iff_of_input {input : LogicalNodeId}
    (hinputs : node.kind.inputs = [input]) (hinput : HasScope nodes input scope) :
    NodeScoped nodes node ↔ ∀ column ∈ node.kind.references, column ∈ scope := by
  unfold NodeScoped
  simp only [hinputs, List.mem_singleton, exists_eq_left]
  exact forall₂_congr fun column _ => hinput column

end Scopes

/-! ### Growing drafts -/

/-- What the nodes `added` between two drafts do in any plan they are part of, when
the root before them binds the variables of `scope`: the new root binds those of
`scope'`, the nodes introduce `names`, their expansions are `edges` with sources
that are bound, and all their columns are bound exactly under `condition`. -/
structure Grows (before after : Draft) (added : List LogicalNode) (scope scope' : List String)
    (names : List String) (edges : List Expand) (condition : Prop) : Prop where
  nodes_eq : after.nodes = before.nodes ++ added
  names_eq : added.flatMap (·.kind.introduces) = names
  edges_eq : added.filterMap (·.kind.edge) = edges
  hasScope : ∀ plan, UniqueIds plan → after.nodes ⊆ plan → HasScope plan before.root scope →
    HasScope plan after.root scope'
  sources : ∀ plan, UniqueIds plan → after.nodes ⊆ plan → HasScope plan before.root scope →
    ∀ edge ∈ edges, Binds plan edge.input edge.source
  scoped_iff : ∀ plan, UniqueIds plan → after.nodes ⊆ plan → HasScope plan before.root scope →
    ((∀ node ∈ added, NodeScoped plan node) ↔ condition)

namespace Grows

variable {before middle after : Draft} {added added' : List LogicalNode}
  {scope scope' scope'' names names' : List String} {edges edges' : List Expand}
  {condition condition' : Prop}

theorem refl (draft : Draft) (scope : List String) :
    Grows draft draft [] scope scope [] [] True where
  nodes_eq := by simp
  names_eq := rfl
  edges_eq := rfl
  hasScope _ _ _ h := h
  sources := by simp
  scoped_iff := by simp

theorem trans (h : Grows before middle added scope scope' names edges condition)
    (h' : Grows middle after added' scope' scope'' names' edges' condition') :
    Grows before after (added ++ added') scope scope'' (names ++ names') (edges ++ edges')
      (condition ∧ condition') := by
  have hsubset : middle.nodes ⊆ after.nodes := by
    rw [h'.nodes_eq]
    exact List.subset_append_left _ _
  refine ⟨?_, ?_, ?_, ?_, ?_, ?_⟩
  · rw [h'.nodes_eq, h.nodes_eq, List.append_assoc]
  · rw [List.flatMap_append, h.names_eq, h'.names_eq]
  · rw [List.filterMap_append, h.edges_eq, h'.edges_eq]
  · intro plan hunique hafter hscope
    exact h'.hasScope plan hunique hafter (h.hasScope plan hunique (List.Subset.trans hsubset hafter) hscope)
  · intro plan hunique hafter hscope edge hedge
    have hmiddle := h.hasScope plan hunique (List.Subset.trans hsubset hafter) hscope
    rcases List.mem_append.mp hedge with hedge | hedge
    · exact h.sources plan hunique (List.Subset.trans hsubset hafter) hscope edge hedge
    · exact h'.sources plan hunique hafter hmiddle edge hedge
  · intro plan hunique hafter hscope
    have hmiddle := h.hasScope plan hunique (List.Subset.trans hsubset hafter) hscope
    rw [List.forall_mem_append, h.scoped_iff plan hunique (List.Subset.trans hsubset hafter) hscope,
      h'.scoped_iff plan hunique hafter hmiddle]

theorem congr (h : Grows before after added scope scope' names edges condition)
    (hnames : names = names') (hedges : edges = edges') (hiff : condition ↔ condition') :
    Grows before after added scope scope' names' edges' condition' := by
  subst hnames hedges
  exact ⟨h.nodes_eq, h.names_eq, h.edges_eq, h.hasScope, h.sources, fun plan hunique hafter hscope =>
    (h.scoped_iff plan hunique hafter hscope).trans hiff⟩

/-- One node over the root. -/
theorem push {kind : LogicalNodeKind} {draft : Draft} (hkeeps : kind.computes = none)
    (hinputs : kind.inputs = [draft.root])
    (hsource : ∀ edge, kind.edge = some edge → edge.input = draft.root ∧ edge.source ∈ scope) :
    Grows draft (Language.push draft.nodes kind) [⟨UInt32.ofNat draft.nodes.length, kind⟩] scope
      (scope ++ kind.introduces) kind.introduces kind.edge.toList
      (∀ column ∈ kind.references, column ∈ scope) where
  nodes_eq := rfl
  names_eq := by simp
  edges_eq := by cases h : kind.edge <;> simp [h]
  hasScope plan hunique hafter hscope := by
    have hmem : (⟨UInt32.ofNat draft.nodes.length, kind⟩ : LogicalNode) ∈ plan :=
      hafter (by simp [Language.push])
    exact hasScope_of_input hunique hmem hkeeps hinputs hscope
  sources plan _ _ hscope edge hedge := by
    obtain ⟨hinput, hmem⟩ := hsource edge (Option.mem_toList.mp hedge)
    rw [hinput]
    exact (hscope _).mpr hmem
  scoped_iff plan _ _ hscope := by
    rw [List.forall_mem_singleton, nodeScoped_iff_of_input hinputs hscope]

end Grows

end DtgProxy.Language

import DtgProxy.Lib.Histories
import DtgProxy.Lib.Result
import DtgProxy.Storage.Mutation
import DtgProxy.Transaction.Types

/-! # The transaction overlay

A transaction stages mutations over a snapshot and validates the graph they lead
to: versions of one id are distinct and valid at different times, an edge keeps
its endpoints and type, and its endpoints live whenever it does.
-/
namespace DtgProxy.Transaction

open Kernel Lib DtgProxy.Storage

/-- What the checks of vertex and edge histories read of a version. -/
structure Versioned (α : Type) where
  version : α → UInt64
  validTime : α → ValidInterval

def vertexVersions : Versioned VertexVersion := ⟨VertexVersion.version, VertexVersion.validTime⟩

def edgeVersions : Versioned EdgeVersion := ⟨EdgeVersion.version, EdgeVersion.validTime⟩

namespace Versioned

variable {α : Type} (kind : Versioned α)

/-- Two versions of one id that cannot stand together. -/
def clash (left right : α) : Bool :=
  decide (kind.version left = kind.version right) ||
    (kind.validTime left).overlaps (kind.validTime right)

/-- Histories are sorted by start, end and version. -/
def sortKey (item : α) : ℤ ×ₗ ℤ ×ₗ ℕ :=
  toLex ((kind.validTime item).start.toInt, toLex ((kind.validTime item).stop.toInt,
    (kind.version item).toNat))

def sortHistory (history : List α) : List α :=
  history.insertionSort fun left right => kind.sortKey left ≤ kind.sortKey right

end Versioned

def validateVertexHistory (versions : List VertexVersion) : Except TxnError Unit :=
  if anyPair vertexVersions.clash versions then .error .duplicateIdentity else .ok ()

/-- Another edge under the same id. -/
def differs (first edge : EdgeVersion) : Bool :=
  decide (edge.source ≠ first.source ∨ edge.target ≠ first.target ∨
    edge.edgeType ≠ first.edgeType)

/-- The first version stands for all; a history is never empty. -/
def validateEdgeHistory (versions : List EdgeVersion) : Except TxnError Unit :=
  if (versions.head?.any fun first => versions.any (differs first)) ||
      anyPair edgeVersions.clash versions then .error .duplicateIdentity
  else .ok ()

def sortIntervals (intervals : List ValidInterval) : List ValidInterval :=
  intervals.insertionSort fun left right =>
    toLex (left.start.toInt, left.stop.toInt) ≤ toLex (right.start.toInt, right.stop.toInt)

/-- The sweep over sorted intervals; `covered` is how far they reach. -/
def sweep (required : ValidInterval) : Int64 → List ValidInterval → Bool
  | _, [] => false
  | covered, interval :: rest =>
    if interval.stop ≤ covered ∨ required.stop ≤ interval.start then sweep required covered rest
    else if covered < interval.start then false
    else
      let covered := if covered < interval.stop then interval.stop else covered
      if required.stop ≤ covered then true else sweep required covered rest

def historyCovers (versions : List VertexVersion) (required : ValidInterval) : Bool :=
  sweep required required.start (sortIntervals (versions.map VertexVersion.validTime))

/-! ## Snapshots and overlays -/

/-- Vertex and edge histories by id. -/
structure BaseGraphSnapshot where
  vertices : Histories VertexVersion.id
  edges : Histories EdgeVersion.id

namespace BaseGraphSnapshot

/-- Every history passes its check once it is sorted, vertices first. -/
def validateHistories (graph : BaseGraphSnapshot) : Except TxnError Unit := do
  graph.vertices.entries.toList.foldlM (fun _ entry =>
    validateVertexHistory (vertexVersions.sortHistory entry.2)) ()
  graph.edges.entries.toList.foldlM (fun _ entry =>
    validateEdgeHistory (edgeVersions.sortHistory entry.2)) ()

def new (vertices : List VertexVersion) (edges : List EdgeVersion) :
    Except TxnError BaseGraphSnapshot := do
  let snapshot : BaseGraphSnapshot := ⟨.ofList _ vertices, .ofList _ edges⟩
  snapshot.validateHistories
  .ok snapshot

/-- A vertex lives throughout an interval. -/
def coversVertex (graph : BaseGraphSnapshot) (id : VertexId) (required : ValidInterval) : Bool :=
  graph.vertices.entries[id]?.any fun history =>
    historyCovers (vertexVersions.sortHistory history) required

def validateReferences (graph : BaseGraphSnapshot) : Except TxnError Unit :=
  graph.edges.entries.toList.foldlM (fun _ entry =>
    (edgeVersions.sortHistory entry.2).foldlM (fun _ edge =>
      if graph.coversVertex edge.source edge.validTime &&
          graph.coversVertex edge.target edge.validTime then .ok ()
      else .error .referentialIntegrity) ()) ()

def apply (graph : BaseGraphSnapshot) :
    LogicalMutation → Except TxnError BaseGraphSnapshot
  | .putVertex vertex => .ok { graph with vertices := graph.vertices.append vertex }
  | .deleteVertex tombstone => .ok { graph with vertices := graph.vertices.remove tombstone.id }
  | .putEdge edge => .ok { graph with edges := graph.edges.append edge }
  | .deleteEdge tombstone => .ok { graph with edges := graph.edges.remove tombstone.id }
  | .putTransaction _ => .error .invalidMutation
  | .putReplicaMetadata _ => .error .invalidMutation

end BaseGraphSnapshot

/-- What a mutation does to the vertex histories. -/
def vertexEdit : LogicalMutation → Option (HistoryEdit VertexVersion VertexId)
  | .putVertex vertex => some (.append vertex)
  | .deleteVertex tombstone => some (.remove tombstone.id)
  | _ => none

def edgeEdit : LogicalMutation → Option (HistoryEdit EdgeVersion EdgeId)
  | .putEdge edge => some (.append edge)
  | .deleteEdge tombstone => some (.remove tombstone.id)
  | _ => none

structure TransactionOverlay where
  mutations : List LogicalMutation

namespace TransactionOverlay

def maxStagedMutations : ℕ := 4096

def stage (overlay : TransactionOverlay) (mutation : LogicalMutation) :
    Except TxnError TransactionOverlay :=
  if overlay.mutations.length = maxStagedMutations then .error .resourceLimit
  else
    match mutation with
    | .putTransaction _ | .putReplicaMetadata _ => .error .invalidMutation
    | _ => .ok ⟨overlay.mutations ++ [mutation]⟩

def vertexEdits (overlay : TransactionOverlay) : List (HistoryEdit VertexVersion VertexId) :=
  overlay.mutations.filterMap vertexEdit

def edgeEdits (overlay : TransactionOverlay) : List (HistoryEdit EdgeVersion EdgeId) :=
  overlay.mutations.filterMap edgeEdit

def vertexPuts (overlay : TransactionOverlay) : Histories VertexVersion.id :=
  .ofList _ (HistoryEdit.items overlay.vertexEdits)

def edgePuts (overlay : TransactionOverlay) : Histories EdgeVersion.id :=
  .ofList _ (HistoryEdit.items overlay.edgeEdits)

/-- A version of the snapshot has the number of a staged one. -/
def reuses {α : Type} (kind : Versioned α) (existing staged : List α) : Bool :=
  staged.any fun version => existing.any fun base =>
    decide (kind.version version = kind.version base)

def overlapping {α : Type} (kind : Versioned α) (versions : List α) : Bool :=
  anyPair (fun left right => (kind.validTime left).overlaps (kind.validTime right)) versions

/-- The checks of staged versions that vertices and edges share: the id is not
deleted too, the versions do not overlap and none has the number of a version
there is. -/
def contested {α κ : Type} [DecidableEq κ] (kind : Versioned α) (removals : List κ)
    (existing : Option (List α)) (id : κ) (versions : List α) : Bool :=
  decide (id ∈ removals) || overlapping kind versions ||
    existing.any fun existing => reuses kind existing versions

def vertexContested (overlay : TransactionOverlay) (base : BaseGraphSnapshot) (id : VertexId)
    (versions : List VertexVersion) : Bool :=
  contested vertexVersions (HistoryEdit.removals overlay.vertexEdits) base.vertices.entries[id]?
    id versions

def validateVertexIdentity (overlay : TransactionOverlay) (base : BaseGraphSnapshot) :
    Except TxnError Unit :=
  if overlay.vertexPuts.entries.toList.any fun entry =>
      overlay.vertexContested base entry.1 entry.2 then .error .duplicateIdentity
  else .ok ()

/-- The staged versions, and those there are, are versions of the edge staged first. -/
def changesEdge (existing : Option (List EdgeVersion)) (versions : List EdgeVersion) : Bool :=
  versions.head?.any fun first =>
    versions.tail.any (differs first) ||
      existing.any fun existing => existing.any (differs first)

def edgeContested (overlay : TransactionOverlay) (base : BaseGraphSnapshot) (id : EdgeId)
    (versions : List EdgeVersion) : Bool :=
  contested edgeVersions (HistoryEdit.removals overlay.edgeEdits) base.edges.entries[id]? id
    versions || changesEdge base.edges.entries[id]? versions

def validateEdgeIdentity (overlay : TransactionOverlay) (base : BaseGraphSnapshot) :
    Except TxnError Unit :=
  if overlay.edgePuts.entries.toList.any fun entry =>
      overlay.edgeContested base entry.1 entry.2 then .error .duplicateIdentity
  else .ok ()

/-- The graph the staged mutations lead to. -/
def applied (overlay : TransactionOverlay) (base : BaseGraphSnapshot) :
    Except TxnError BaseGraphSnapshot :=
  overlay.mutations.foldlM BaseGraphSnapshot.apply base

def validate (overlay : TransactionOverlay) (base : BaseGraphSnapshot) : Except TxnError Unit := do
  overlay.validateVertexIdentity base
  overlay.validateEdgeIdentity base
  let graph ← overlay.applied base
  graph.validateHistories
  graph.validateReferences

end TransactionOverlay

end DtgProxy.Transaction

import DtgProxy.Query.Value
import DtgProxy.Storage.FjallVisibility

/-! # The storage source operator

The operator reads one shard: a point, a scan, the edges at a vertex or the last edges of
walks from a vertex.  Every call returns a batch of at most the batch size and moves a
cursor; the read is over when a call returns no batch.
-/
namespace DtgProxy.Query

open Kernel DtgProxy.Language Storage Lib

inductive ReadOperation where
  | vertexPoint (vertexId : VertexId)
  | vertexScan
  | edgePoint (edgeId : EdgeId)
  | edgeScan
  | adjacency (vertexId : VertexId) (direction : ExpandDirection)
  | traversal (vertexId : VertexId) (directions : List ExpandDirection)
deriving DecidableEq

structure LogicalRead where
  operation : ReadOperation
  rowBound : UInt32
  transactionTime : TransactionTime
  validAt : Int64
  bounded : rowBound ≠ 0

def LogicalRead.new (operation : ReadOperation) (rowBound : UInt32)
    (transactionTime : TransactionTime) (validAt : Int64) : Except QueryError LogicalRead :=
  if h : rowBound = 0 then
    .error (.invalidPlan "logical storage access must have a nonzero row bound")
  else .ok ⟨operation, rowBound, transactionTime, validAt, h⟩

/-- The fence a fragment executes under: complete, immutable and free of drift. -/
structure ExecutionFence where
  readFence : ReadFence
  catalogVersion : ℕ
  schemaVersion : ℕ
  transactionTime : TransactionTime
  validAt : Int64
  versioned : catalogVersion ≠ 0 ∧ schemaVersion ≠ 0
  undrifted : readFence.capabilityDigest = readFence.binding.capabilityDigest

/-- The read side of a storage provider. -/
structure TemporalReadView where
  fence : ReadFence
  getVertex : VertexRead → Except StorageError (Option VertexVersion)
  getEdge : EdgeRead → Except StorageError (Option EdgeVersion)
  expand : AdjacencyRead → Except StorageError (List EdgeVersion)
  scanVertices : VertexScan → Except StorageError (ScanPage VertexId VertexVersion)
  scanEdges : EdgeScan → Except StorageError (ScanPage EdgeId EdgeVersion)

def validateView (fence : ExecutionFence) (actual : ReadFence) : Except QueryError Unit :=
  if actual.binding.shardId ≠ fence.readFence.binding.shardId ∨
      actual.binding.placementEpoch ≠ fence.readFence.binding.placementEpoch ∨
      actual.binding.backendGeneration ≠ fence.readFence.binding.backendGeneration ∨
      actual.appliedIndex ≠ fence.readFence.appliedIndex then .error .snapshotDrift
  else if actual.capabilityDigest ≠ fence.readFence.capabilityDigest then .error .capabilityDrift
  else .ok ()

def adjacencyDirection : ExpandDirection → AdjacencyDirection
  | .outgoing => .outgoing
  | .incoming => .incoming
  | .either => .both

def traversalNextVertex (current : VertexId) (edge : EdgeVersion) (direction : ExpandDirection) :
    Except QueryError VertexId :=
  match direction with
  | .outgoing => if edge.source = current then .ok edge.target else outside
  | .incoming => if edge.target = current then .ok edge.source else outside
  | .either =>
    if edge.source = current then .ok edge.target
    else if edge.target = current then .ok edge.source
    else outside
where
  outside : Except QueryError VertexId := .error (.providerViolation
    "adjacency traversal returned an edge outside its requested direction")

section Traversal

variable (view : TemporalReadView) (validAt : Int64) (transactionTime : TransactionTime)

/-- One hop of a traversal: the vertices of the frontier are expanded in order until
`remaining` edges are found, and each edge is visited. -/
def expandFrontier {β : Type} (direction : ExpandDirection)
    (visit : VertexId → EdgeVersion → Except QueryError β) :
    List VertexId → ℕ → Except QueryError (List β)
  | [], _ => .ok []
  | vertex :: frontier, remaining =>
    if remaining = 0 then .ok []
    else do
      let request ← (AdjacencyRead.new vertex (adjacencyDirection direction) validAt
        transactionTime remaining).mapError QueryError.ofStorage
      let edges ← (view.expand request).mapError QueryError.ofStorage
      if remaining < edges.length then
        .error (.providerViolation "adjacency traversal exceeded the requested bound")
      else do
        let found ← edges.mapM (visit vertex)
        let more ← expandFrontier direction visit frontier (remaining - edges.length)
        .ok (found ++ more)

/-- The hops of a traversal; only the edges of the last one are returned. -/
def traverseHops (limit : ℕ) : List ExpandDirection → List VertexId →
    Except QueryError (List EdgeVersion)
  | [], _ => .ok []
  | [direction], frontier =>
    expandFrontier view validAt transactionTime direction (fun _ edge => .ok edge) frontier limit
  | direction :: directions, frontier => do
    let next ← expandFrontier view validAt transactionTime direction
      (fun vertex edge => traversalNextVertex vertex edge direction) frontier limit
    traverseHops limit directions next

def traverseLogicalAdjacency (vertexId : VertexId) (directions : List ExpandDirection)
    (limit : ℕ) : Except QueryError (List EdgeVersion) :=
  if directions.length < 2 then
    .error (.invalidPlan "logical traversal requires at least two hops")
  else traverseHops view validAt transactionTime limit directions [vertexId]

end Traversal

/-! ## The operator -/

inductive Cursor where
  | start
  | vertex (after : VertexId)
  | edge (after : EdgeId)
  | done
deriving DecidableEq

def Cursor.vertexAfter : Cursor → Option VertexId
  | .vertex after => some after
  | _ => none

def Cursor.edgeAfter : Cursor → Option EdgeId
  | .edge after => some after
  | _ => none

structure StorageSource where
  read : LogicalRead
  view : TemporalReadView
  batchSize : UInt32
  schema : RowSchema
  cursor : Cursor
  remaining : ℕ

namespace StorageSource

/-- The one field of the rows: vertices or relationships. -/
def field (operation : ReadOperation) : Field :=
  match operation with
  | .vertexPoint _ | .vertexScan => ⟨"vertex", .vertex, false⟩
  | .edgePoint _ | .edgeScan | .adjacency _ _ | .traversal _ _ =>
    ⟨"relationship", .relationship, false⟩

def new (read : LogicalRead) (fence : ExecutionFence) (view : TemporalReadView)
    (batchSize : UInt32) : Except QueryError StorageSource :=
  if batchSize = 0 then .error (.invalidPlan "query batch size must be nonzero")
  else do
    validateView fence view.fence
    .ok ⟨read, view, batchSize, ⟨[field read.operation]⟩, .start, read.rowBound.toNat⟩

def nextLimit (source : StorageSource) (context : QueryContext) : Except QueryError ℕ :=
  if source.cursor = .done ∨ source.remaining = 0 then .ok 0
  else
    let budget := min context.remainingRows (2 ^ 32 - 1)
    let limit := min (min source.batchSize.toNat source.remaining) budget
    if limit = 0 then .error .rowBudget else .ok limit

/-- Where a scan continues.  The outer `none` is a finished scan. -/
def scanAfter {ι : Type} (cursor : Cursor) (resume : Cursor → Option ι) :
    Except QueryError (Option (Option ι)) :=
  match cursor with
  | .start => .ok (some none)
  | .done => .ok none
  | cursor =>
    match resume cursor with
    | some after => .ok (some (some after))
    | none => .error (.invalidPlan "invalid scan cursor")

/-- One page of a scan, as values and the next cursor. -/
def scanPage {ι ρ : Type} (cursor : Cursor) (resume : Cursor → Option ι) (advance : ι → Cursor)
    (value : ρ → QueryValue) (excess : String)
    (scan : ScanRead ι → Except StorageError (ScanPage ι ρ)) (read : LogicalRead) (limit : ℕ) :
    Except QueryError (Option (List QueryValue × Cursor)) := do
  let resumed ← scanAfter cursor resume
  match resumed with
  | none => .ok none
  | some after => do
    let request ← (ScanRead.new read.validAt read.transactionTime after limit).mapError
      QueryError.ofStorage
    let page ← (scan request).mapError QueryError.ofStorage
    if limit < page.rows.length then .error (.providerViolation excess)
    else .ok (some (page.rows.map value, page.nextAfter.elim .done advance))

/-- The rows the storage returns for one batch, and the cursor after them. -/
def fetch (source : StorageSource) (limit : ℕ) :
    Except QueryError (Option (List QueryValue × Cursor)) :=
  let read := source.read
  match read.operation with
  | .vertexPoint id => do
    let row ← (source.view.getVertex ⟨id, read.validAt, read.transactionTime⟩).mapError
      QueryError.ofStorage
    .ok (some (row.toList.map QueryValue.vertex, .done))
  | .vertexScan =>
    scanPage source.cursor Cursor.vertexAfter Cursor.vertex QueryValue.vertex
      "vertex scan exceeded requested page bound" source.view.scanVertices read limit
  | .edgePoint id => do
    let row ← (source.view.getEdge ⟨id, read.validAt, read.transactionTime⟩).mapError
      QueryError.ofStorage
    .ok (some (row.toList.map QueryValue.relationship, .done))
  | .edgeScan =>
    scanPage source.cursor Cursor.edgeAfter Cursor.edge QueryValue.relationship
      "edge scan exceeded requested page bound" source.view.scanEdges read limit
  | .adjacency vertexId direction => do
    let request ← (AdjacencyRead.new vertexId (adjacencyDirection direction) read.validAt
      read.transactionTime limit).mapError QueryError.ofStorage
    let edges ← (source.view.expand request).mapError QueryError.ofStorage
    .ok (some (edges.map QueryValue.relationship, .done))
  | .traversal vertexId directions => do
    let edges ← traverseLogicalAdjacency source.view read.validAt read.transactionTime vertexId
      directions limit
    .ok (some (edges.map QueryValue.relationship, .done))

def finishRows (source : StorageSource) (cursor : Cursor) (rows : List QueryValue) :
    Except QueryError (Option ColumnBatch × StorageSource) :=
  if source.remaining < rows.length then
    .error (.providerViolation "storage result exceeded executable row bound")
  else
    let remaining := source.remaining - rows.length
    let cursor := if remaining = 0 then .done else cursor
    let source := { source with cursor, remaining }
    if rows = [] then
      if cursor = .done then .ok (none, source)
      else .error (.providerViolation "storage cursor advanced without a candidate row")
    else do
      let batch ← ColumnBatch.fromRows source.schema (rows.map ([·]))
      .ok (some batch, source)

def executeLogical (source : StorageSource) (context : QueryContext) :
    Except QueryError (Option ColumnBatch × StorageSource × QueryContext) := do
  let limit ← source.nextLimit context
  let fetched ← source.fetch limit
  match fetched with
  | none => .ok (none, source, context)
  | some (rows, cursor) => do
    let context ← context.chargeRows rows
    let (batch, source) ← source.finishRows cursor rows
    .ok (batch, source, context)

def nextBatch (source : StorageSource) (context : QueryContext) :
    Except QueryError (Option ColumnBatch × StorageSource × QueryContext) := do
  context.checkpoint
  if source.cursor = .done ∨ source.remaining = 0 then .ok (none, source, context)
  else source.executeLogical context

/-- Calls the operator until it returns no batch and concatenates the rows; `none` after
`fuel` batches. -/
def drain : ℕ → StorageSource → QueryContext → Option (Except QueryError (List (List QueryValue)))
  | 0, _, _ => none
  | fuel + 1, source, context =>
    match source.nextBatch context with
    | .error error => some (.error error)
    | .ok (none, _, _) => some (.ok [])
    | .ok (some batch, source, context) =>
      (drain fuel source context).map fun rest => rest.map (batch.rows ++ ·)

/-- All rows of a read.  A batch has at least one row, so the bound is enough fuel. -/
def collect (read : LogicalRead) (fence : ExecutionFence) (view : TemporalReadView)
    (batchSize : UInt32) (context : QueryContext) :
    Option (Except QueryError (List (List QueryValue))) :=
  match new read fence view batchSize with
  | .error error => some (.error error)
  | .ok source => source.drain (read.rowBound.toNat + 1) context

end StorageSource

end DtgProxy.Query

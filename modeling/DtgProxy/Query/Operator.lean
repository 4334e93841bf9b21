import DtgProxy.Query.Expression
import DtgProxy.Query.StorageSource

/-! # Operators of the query runtime

An operator is asked for one batch after another until it has none left or fails, and
asks its inputs in the same way.  Budgets are unlimited and a spilled run is read back
as it was written, so what an operator answers depends on its inputs alone.
-/
namespace DtgProxy.Query

open Kernel DtgProxy.Language Storage Lib

abbrev Row := List QueryValue

/-- The batches an operator answers with, and the error that ends them. -/
structure Pulls where
  batches : List (List Row)
  failure : Option QueryError
deriving DecidableEq

structure Operator where
  schema : RowSchema
  pulls : Pulls
deriving DecidableEq

namespace Pulls

def failed (error : QueryError) : Pulls := ⟨[], some error⟩

def ofResult : Except QueryError (List (List Row)) → Pulls
  | .ok batches => ⟨batches, none⟩
  | .error error => failed error

def collectRows (pulls : Pulls) : Except QueryError (List Row) :=
  match pulls.failure with
  | none => .ok pulls.batches.flatten
  | some error => .error error

/-- Batches pass one by one.  Once `stop` holds, the input is asked no more. -/
def through {σ : Type} (stop : σ → Bool) (step : σ → List Row → Except QueryError (List Row × σ))
    (failure : Option QueryError) : σ → List (List Row) → Pulls
  | state, [] => ⟨[], if stop state then none else failure⟩
  | state, batch :: batches =>
    if stop state then ⟨[], none⟩
    else
      match step state batch with
      | .error error => failed error
      | .ok (rows, state) =>
        let rest := through stop step failure state batches
        ⟨rows :: rest.batches, rest.failure⟩

/-- Rows that leave in batches of one size.  An error is met while its batch is filled. -/
def chunked (size : ℕ) (rows : List Row) (failure : Option QueryError) : Pulls :=
  ⟨(rows.toChunks size).filter fun batch => failure.isNone || batch.length = size, failure⟩

/-- The rows that each row turns into, up to the first error. -/
def expandRows (expand : Row → Except QueryError (List Row)) : List Row → List Row × Option QueryError
  | [] => ([], none)
  | row :: rows =>
    match expand row with
    | .error error => ([], some error)
    | .ok found =>
      let rest := expandRows expand rows
      (found ++ rest.1, rest.2)

end Pulls

inductive ScalarKey where
  | null
  | boolean (value : Bool)
  | integer (value : Int64)
  | floatBits (value : UInt64)
  | bytes (value : List UInt8)
  | string (value : String)
  | vertex (id : VertexId)
deriving DecidableEq

def scalarKey : Option QueryValue → Except QueryError ScalarKey
  | some .null => .ok .null
  | some (.boolean value) => .ok (.boolean value)
  | some (.integer value) => .ok (.integer value)
  | some (.floatBits value) => .ok (.floatBits value)
  | some (.bytes value) => .ok (.bytes value)
  | some (.string value) => .ok (.string value)
  | some (.vertex vertex) => .ok (.vertex vertex.id)
  | some (.list _) | some (.map _) | some (.relationship _) =>
    .error (.unsupported "join/aggregate key is not scalar")
  | none => .error (.invalidPlan "key column is absent")

/-- The derived order: the constructors in order, then their values. -/
def ScalarKey.cmp : ScalarKey → ScalarKey → Ordering
  | .boolean a, .boolean b => compare a b
  | .integer a, .integer b => compare a b
  | .floatBits a, .floatBits b => compare a b
  | .bytes a, .bytes b => compare a b
  | .string a, .string b => compare a b
  | .vertex a, .vertex b => compare a.get b.get
  | a, b => compare a.ctorIdx b.ctorIdx

def compareRowColumn (left right : Row) (column : ℕ) : Ordering :=
  match left[column]?, right[column]? with
  | some left, some right => left.totalCmp right
  | some _, none => .gt
  | none, some _ => .lt
  | none, none => .eq

def compareForMerge (column : ℕ) (left right : Row) : Ordering :=
  (compareRowColumn left right column).then (QueryValue.compareSlices left right)

/-! ## The operators -/

structure ProjectionExpr where
  field : Field
  expression : LogicalExpr

/-- The staged changes of a transaction. -/
structure QueryOverlay where
  mutations : List Storage.LogicalMutation

def QueryOverlay.fromMutations (mutations : List Storage.LogicalMutation) :
    Except QueryError QueryOverlay :=
  if mutations.any fun
      | .putTransaction _ | .putReplicaMetadata _ => true
      | _ => false then
    .error (.invalidPlan "query overlay accepts only graph mutations")
  else .ok ⟨mutations⟩

/-- What a staged change does to the vertices of a result. -/
def QueryOverlay.stage (validAt : Int64) (vertices : OrderedMap VertexId VertexVersion) :
    Storage.LogicalMutation → OrderedMap VertexId VertexVersion
  | .putVertex vertex =>
    if vertex.validTime.start ≤ validAt ∧ validAt < vertex.validTime.stop then
      vertices.insert vertex.id vertex
    else vertices
  | .deleteVertex tombstone => vertices.erase tombstone.id
  | _ => vertices

/-- The result with the staged changes: one row for each vertex, by identifier. -/
def QueryOverlay.merge (overlay : QueryOverlay) (validAt : Int64) (rows : List Row) : List Row :=
  let base := rows.foldl (fun vertices row =>
    match row.head? with
    | some (.vertex vertex) => vertices.insert vertex.id vertex
    | _ => vertices) (∅ : OrderedMap VertexId VertexVersion)
  (overlay.mutations.foldl (stage validAt) base).toList.map fun entry => [.vertex entry.2]

namespace Operator

def emit (schema : RowSchema) (rows : List Row) : Except QueryError (List Row) :=
  (ColumnBatch.fromRows schema rows).map ColumnBatch.rows

def filter (input : Operator) (predicate : LogicalExpr) : Operator :=
  ⟨input.schema, Pulls.through (fun _ => false) (fun _ batch => do
    let kept ← batch.filterM fun row => do
      let value ← evaluate input.schema row predicate
      .ok (value = QueryValue.boolean true)
    let rows ← emit input.schema kept
    .ok (rows, ())) input.pulls.failure () input.pulls.batches⟩

def project (input : Operator) (projections : List ProjectionExpr) : Operator :=
  let schema : RowSchema := ⟨projections.map ProjectionExpr.field⟩
  ⟨schema, Pulls.through (fun _ => false) (fun _ batch => do
    let projected ← batch.mapM fun row =>
      projections.mapM fun projection => evaluate input.schema row projection.expression
    let rows ← emit schema projected
    .ok (rows, ())) input.pulls.failure () input.pulls.batches⟩

def hashJoin (left right : Operator) (leftKey rightKey batchSize : ℕ) : Operator :=
  let joined : Except QueryError Pulls := do
    let leftRows ← left.pulls.collectRows
    let rightRows ← right.pulls.collectRows
    let table ← rightRows.mapM fun row => do
      let key ← scalarKey row[rightKey]?
      .ok (key, row)
    let found := Pulls.expandRows (fun row => do
      let key ← scalarKey row[leftKey]?
      .ok ((table.filter (·.1 = key)).map (row ++ ·.2))) leftRows
    .ok (Pulls.chunked batchSize found.1 found.2)
  ⟨⟨left.schema.fields ++ right.schema.fields⟩, match joined with
    | .ok pulls => pulls
    | .error error => .failed error⟩

def countField (name : String) : Field := ⟨name, .integer, false⟩

def countValue (count : ℕ) : Except QueryError QueryValue :=
  if 2 ^ 63 ≤ count then .error .rowBudget else .ok (.integer (Int64.ofNat count))

def countAll (input : Operator) (countName : String) : Operator :=
  let schema : RowSchema := ⟨[countField countName]⟩
  ⟨schema, .ofResult do
    let rows ← input.pulls.collectRows
    let count ← countValue rows.length
    let rows ← emit schema [[count]]
    .ok [rows]⟩

/-- Groups leave in the order of their keys, each with the first value it was met with. -/
def countBy (input : Operator) (groupColumn : ℕ) (countName : String) : Operator :=
  let group := input.schema.fields[groupColumn]?.getD ⟨"group", .any, true⟩
  let schema : RowSchema := ⟨[group, countField countName]⟩
  ⟨schema, .ofResult do
    let rows ← input.pulls.collectRows
    let keyed ← rows.mapM fun (row : Row) =>
      match row[groupColumn]? with
      | none => .error (.invalidPlan "aggregate group column is absent")
      | some value => do
        let key ← scalarKey (some value)
        .ok (key, value)
    let keys := (keyed.map (·.1)).dedup.mergeSort fun a b => (a.cmp b).isLE
    let counted ← keys.mapM fun key => do
      let count ← countValue (keyed.countP (·.1 = key))
      .ok [(keyed.lookup key).getD .null, count]
    let rows ← emit schema counted
    .ok [rows]⟩

def sort (input : Operator) (column : ℕ) (direction : SortDirection) : Operator :=
  ⟨input.schema, .ofResult do
    let rows ← input.pulls.collectRows
    let sorted ← emit input.schema (rows.mergeSort fun left right =>
      let ordering := compareRowColumn left right column
      ((match direction with
        | .ascending => ordering
        | .descending => ordering.swap).then (QueryValue.compareSlices left right)).isLE)
    .ok [sorted]⟩

/-- The state counts the rows skipped and the rows emitted. -/
def limit (input : Operator) (skip limit : ℕ) : Operator :=
  ⟨input.schema, Pulls.through (fun counts : ℕ × ℕ => counts.2 = limit) (fun counts batch => do
    let output := (batch.drop (skip - counts.1)).take (limit - counts.2)
    let rows ← emit input.schema output
    .ok (rows, min skip (counts.1 + batch.length), counts.2 + output.length))
    input.pulls.failure (0, 0) input.pulls.batches⟩

def unwind (input : Operator) (expression : LogicalExpr) (outputAlias : String) (batchSize : ℕ) :
    Except QueryError Operator :=
  if outputAlias = "" ∨ input.schema.fields.any (·.name = outputAlias) then
    .error (.invalidPlan "UNWIND alias must be nonempty and unique")
  else
    let found := Pulls.expandRows (fun row => do
      let value ← evaluate input.schema row expression
      match value with
      | .list values => .ok (values.map fun value => row ++ [value])
      | .null => .ok []
      | _ => .error (.invalidPlan "UNWIND expression must evaluate to a list or null"))
      input.pulls.batches.flatten
    .ok ⟨⟨input.schema.fields ++ [⟨outputAlias, .any, true⟩]⟩,
      Pulls.chunked batchSize found.1 (found.2 <|> input.pulls.failure)⟩

/-- Every batch of an input is a sorted run. -/
def sortedRuns (schema : RowSchema) (le : Row → Row → Bool) (inputs : List Operator) :
    Except QueryError (List (List Row)) := do
  let runs ← inputs.mapM fun input =>
    if input.schema ≠ schema then
      .error (.invalidPlan "spill merge inputs have different schemas")
    else do
      let _ ← input.pulls.collectRows
      .ok (input.pulls.batches.map (List.mergeSort · le))
  .ok runs.flatten

/-- Of equal rows in sequence one is kept. -/
def spillMerge (first : Operator) (others : List Operator) (keyColumn batchSize : ℕ) : Operator :=
  let le := fun left right => (compareForMerge keyColumn left right).isLE
  ⟨first.schema, match sortedRuns first.schema le (first :: others) with
    | .error error => .failed error
    | .ok runs =>
      let merged := runs.foldl (fun merged run => List.merge merged run le) []
      .chunked batchSize (merged.destutter (· ≠ ·)) none⟩

/-- `OverlayOperator`. -/
def overlay (input : Operator) (overlay : QueryOverlay) (validAt : Int64) : Operator :=
  ⟨input.schema, .ofResult do
    let rows ← input.pulls.collectRows
    match input.schema.fields with
    | [⟨_, .vertex, _⟩] => do
      let merged ← emit input.schema (overlay.merge validAt rows)
      .ok [merged]
    | _ => .error (.unsupported "overlay currently requires a single vertex column")⟩

end Operator

end DtgProxy.Query

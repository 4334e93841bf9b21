import DtgProxy.Query.Operator

/-! # The query runtime

A plan is a set of fragments, one for each shard, and a graph of operators over them.
The runtime builds the operators from the root down; with an overlay it puts one more
operator on top.
-/
namespace DtgProxy.Query

open Kernel DtgProxy.Language Storage Lib

/-! ## Plans -/

inductive ExecutableAccess where
  | logical (read : LogicalRead)
  | pushdown (operation : PushdownOperation) (residual : Option LogicalExpr)

structure ExecutableFragment where
  id : UInt32
  fence : ExecutionFence
  accesses : List ExecutableAccess
  accessNodes : List UInt32

def ExecutableFragment.shardId (fragment : ExecutableFragment) : ShardId :=
  fragment.fence.readFence.binding.shardId

def ExecutableFragment.access (fragment : ExecutableFragment) (logicalNode : UInt32) :
    Option ExecutableAccess :=
  (fragment.accessNodes.idxOf? logicalNode).bind (fragment.accesses[·]?)

structure ExecutableProjection where
  outputAlias : String
  expression : LogicalExpr

structure ExecutableAggregate where
  function : AggregateKind
  argument : Option LogicalExpr
  outputAlias : String
  distinct : Bool

structure ExecutableSortKey where
  expression : LogicalExpr
  direction : SortDirection

inductive ExecutableOperatorKind where
  | source (logicalNode : UInt32) (fragments : List UInt32) (output : String)
  | filter (input : UInt32) (predicate : LogicalExpr)
  | project (input : UInt32) (projections : List ExecutableProjection)
  | join (left right : UInt32) (kind : JoinKind) (predicate : Option LogicalExpr)
  | aggregate (input : UInt32) (groups : List ExecutableProjection)
      (aggregates : List ExecutableAggregate)
  | sort (input : UInt32) (keys : List ExecutableSortKey)
  | limit (input : UInt32) (skip : UInt64) (limit : Option UInt64)
  | unwind (input : UInt32) (expression : LogicalExpr) (outputAlias : String)

structure ExecutableOperator where
  id : UInt32
  kind : ExecutableOperatorKind

/-- A plan has a fragment and a root; fragments, shards and operators are listed once, the
shards in order. -/
structure ExecutablePlan where
  fragment : ExecutableFragment
  fragments : List ExecutableFragment
  rootOperator : UInt32
  operators : List ExecutableOperator
  resultSchema : RowSchema
  unique : ((fragment :: fragments).map (·.id)).Nodup ∧ (operators.map (·.id)).Nodup
  ordered : ((fragment :: fragments).map (·.shardId)).Pairwise (· < ·)
  rooted : rootOperator ∈ operators.map (·.id)

structure SnapshotShardFence where
  placementEpoch : PlacementEpoch
  backendGeneration : BackendGeneration
  appliedIndex : ℕ

structure SnapshotGuard where
  transactionTime : TransactionTime
  catalogVersion : ℕ
  shards : ShardId → Option SnapshotShardFence

def SnapshotGuard.validate (snapshot : SnapshotGuard) (fence : ExecutionFence) :
    Except QueryError Unit :=
  match snapshot.shards fence.readFence.binding.shardId with
  | none => .error .snapshotDrift
  | some shard =>
    if snapshot.transactionTime ≠ fence.transactionTime ∨
        snapshot.catalogVersion ≠ fence.catalogVersion ∨
        shard.placementEpoch ≠ fence.readFence.binding.placementEpoch ∨
        shard.backendGeneration ≠ fence.readFence.binding.backendGeneration ∨
        shard.appliedIndex ≠ fence.readFence.appliedIndex then .error .snapshotDrift
    else .ok ()

/-- A shard's view, and what its provider answers to a pushdown in batches of a size. -/
structure QueryStorage where
  view : TemporalReadView
  pushdown : PushdownOperation → Option LogicalExpr → ExecutionFence → UInt32 → Pulls

def requiredColumn (schema : RowSchema) (name : String) : Except QueryError ℕ :=
  match schema.fields.findIdxs (·.name = name) with
  | [] => .error (.invalidPlan ("physical expression references missing column " ++ name))
  | [index] => .ok index
  | _ => .error (.invalidPlan ("physical expression references ambiguous column " ++ name))

section Validate

variable (schema : RowSchema)

mutual

def validateExpression : LogicalExpr → Except QueryError Unit
  | .literal _ => .ok ()
  | .parameter name =>
    .error (.unsupported ("unbound parameter in executable expression: " ++ name))
  | .column name => (requiredColumn schema name).map fun _ => ()
  | .property input _ | .unary _ input => validateExpression input
  | .binary left _ right => do
    validateExpression left
    validateExpression right
  | .list values => validateList values
  | .map entries => validateEntries entries

def validateList : List LogicalExpr → Except QueryError Unit
  | [] => .ok ()
  | value :: values => do
    validateExpression value
    validateList values

def validateEntries : List (String × LogicalExpr) → Except QueryError Unit
  | [] => .ok ()
  | (_, value) :: entries => do
    validateExpression value
    validateEntries entries

end

end Validate

def joinKeys (predicate : LogicalExpr) (left right : RowSchema) : Except QueryError (ℕ × ℕ) :=
  match predicate with
  | .binary (.column first) .equal (.column second) =>
    match requiredColumn left first, requiredColumn right second with
    | .ok leftKey, .ok rightKey => .ok (leftKey, rightKey)
    | _, _ => do
      let leftKey ← requiredColumn left second
      let rightKey ← requiredColumn right first
      .ok (leftKey, rightKey)
  | .binary _ .equal _ =>
    .error (.unsupported "query runtime hash join requires column equality keys")
  | _ => .error (.unsupported "query runtime hash join requires a column equality predicate")

/-! ## Building the operators -/

/-- The batches of a read, asked for until none is left.  A batch has a row, so the bound
of the read is enough fuel. -/
def StorageSource.pulls : ℕ → StorageSource → QueryContext → Pulls
  | 0, _, _ => ⟨[], none⟩
  | fuel + 1, source, context =>
    match source.nextBatch context with
    | .error error => .failed error
    | .ok (none, _, _) => ⟨[], none⟩
    | .ok (some batch, source, context) =>
      let rest := pulls fuel source context
      ⟨batch.rows :: rest.batches, rest.failure⟩

def QueryContext.unlimited : QueryContext := ⟨false, false, 2 ^ 64 - 1, 0, 2 ^ 64 - 1, 0⟩

/-- `StorageSourceOperator`. -/
def storageSource (access : ExecutableAccess) (fence : ExecutionFence) (storage : QueryStorage)
    (batchSize : UInt32) : Except QueryError Operator :=
  match access with
  | .logical read => do
    let source ← StorageSource.new read fence storage.view batchSize
    .ok ⟨source.schema, source.pulls (read.rowBound.toNat + 1) .unlimited⟩
  | .pushdown operation residual => do
    validateView fence storage.view.fence
    .ok ⟨⟨[⟨"vertex", .vertex, false⟩]⟩, storage.pushdown operation residual fence batchSize⟩

abbrev FragmentStorage := List (UInt32 × ExecutableFragment × QueryStorage)

section Build

variable (batchSize : UInt32) (storage : FragmentStorage)

/-- One source of a fragment, under the name of the output. -/
def fragmentSource (logicalNode : UInt32) (output : String) (id : UInt32) :
    Except QueryError Operator :=
  match storage.lookup id with
  | none => .error (.invalidPlan
      ("physical source references missing fragment " ++ toString id.toNat))
  | some (fragment, shard) =>
    match fragment.access logicalNode with
    | none => .error (.invalidPlan ("fragment " ++ toString id.toNat ++
        " is missing logical source " ++ toString logicalNode.toNat))
    | some access => do
      let source ← storageSource access fragment.fence shard batchSize
      match source.schema.fields with
      | [] => .error (.invalidPlan "storage source schema is unexpectedly empty")
      | field :: _ => .ok (source.project [⟨⟨output, .any, false⟩, .column field.name⟩])

def buildSource (logicalNode : UInt32) (fragments : List UInt32) (output : String) :
    Except QueryError Operator :=
  if fragments = [] ∨ output = "" then
    .error (.invalidPlan "physical source fragments and output must be nonempty")
  else do
    let _ ← fragments.foldlM (fun referenced id =>
      if id ∈ referenced then .error (.invalidPlan
        ("physical source contains duplicate fragment " ++ toString id.toNat))
      else .ok (id :: referenced)) []
    let sources ← fragments.mapM (fragmentSource batchSize storage logicalNode output)
    match sources with
    | [] => .error (.invalidPlan "spill merge requires inputs and a nonzero output batch size")
    | [source] => .ok source
    | source :: others => .ok (source.spillMerge others 0 batchSize.toNat)

def lowerProjections (input : Operator) (projections : List ExecutableProjection) :
    Except QueryError (List ProjectionExpr) :=
  if projections = [] then
    .error (.invalidPlan "physical projection must contain at least one expression")
  else projections.foldlM (fun lowered projection =>
    if projection.outputAlias = "" ∨ lowered.any (·.field.name = projection.outputAlias) then
      .error (.invalidPlan "physical projection aliases must be nonempty and unique")
    else do
      validateExpression input.schema projection.expression
      .ok (lowered ++ [⟨⟨projection.outputAlias, .any, true⟩, projection.expression⟩])) []

def buildAggregate (input : Operator) (groups : List ExecutableProjection)
    (aggregates : List ExecutableAggregate) : Except QueryError Operator :=
  match aggregates with
  | [aggregate] =>
    if aggregate.function ≠ .count ∨ aggregate.distinct ∨ aggregate.argument.isSome then
      .error (.unsupported "query runtime currently supports non-distinct COUNT(*)")
    else
      match groups with
      | [] => .ok (input.countAll aggregate.outputAlias)
      | [group] => do
        validateExpression input.schema group.expression
        .ok ((input.project [⟨⟨group.outputAlias, .any, true⟩, group.expression⟩]).countBy 0
          aggregate.outputAlias)
      | _ => .error (.unsupported "query runtime currently supports at most one aggregate group")
  | _ => .error (.unsupported "query runtime currently supports one aggregate function")

def buildSort (input : Operator) : List ExecutableSortKey → Except QueryError Operator
  | [⟨.column name, direction⟩] => do
    let column ← requiredColumn input.schema name
    .ok (input.sort column direction)
  | [_] => .error (.unsupported "query runtime sort key must be a projected column")
  | _ => .error (.unsupported "query runtime currently supports one sort key")

/-- The operator of one definition; `build` gives its inputs and the operators built so far. -/
def buildKind (build : UInt32 → List UInt32 → Except QueryError (Operator × List UInt32))
    (built : List UInt32) : ExecutableOperatorKind → Except QueryError (Operator × List UInt32)
  | .source logicalNode fragments output => do
    let source ← buildSource batchSize storage logicalNode fragments output
    .ok (source, built)
  | .filter input predicate => do
    let (input, built) ← build input built
    validateExpression input.schema predicate
    .ok (input.filter predicate, built)
  | .project input projections => do
    let (input, built) ← build input built
    let lowered ← lowerProjections input projections
    .ok (input.project lowered, built)
  | .join left right kind predicate =>
    if kind ≠ .inner then
      .error (.unsupported "query runtime currently supports only inner hash joins")
    else do
      let (left, built) ← build left built
      let (right, built) ← build right built
      match predicate with
      | none => .error (.unsupported "inner hash join requires an equality predicate")
      | some predicate => do
        let (leftKey, rightKey) ← joinKeys predicate left.schema right.schema
        .ok (left.hashJoin right leftKey rightKey batchSize.toNat, built)
  | .aggregate input groups aggregates => do
    let (input, built) ← build input built
    let operator ← buildAggregate input groups aggregates
    .ok (operator, built)
  | .sort input keys => do
    let (input, built) ← build input built
    let operator ← buildSort input keys
    .ok (operator, built)
  | .limit input skip limit => do
    let (input, built) ← build input built
    .ok (input.limit skip.toNat (limit.elim (2 ^ 64 - 1) UInt64.toNat), built)
  | .unwind input expression outputAlias => do
    let (input, built) ← build input built
    validateExpression input.schema expression
    let operator ← input.unwind expression outputAlias batchSize.toNat
    .ok (operator, built)

/-- `build_operator`.  Every level visits one more of the definitions, so with none left any
operator is on the path already. -/
def buildOperator (definitions : List (UInt32 × ExecutableOperatorKind)) :
    ℕ → UInt32 → List UInt32 → List UInt32 → Except QueryError (Operator × List UInt32)
  | unvisited, id, visiting, built =>
    if id ∈ visiting then .error (.invalidPlan "physical operator DAG contains a cycle")
    else if id ∈ built then .error (.invalidPlan "physical operator DAG contains a shared input")
    else
      match definitions.lookup id, unvisited with
      | none, _ => .error (.invalidPlan
          ("physical operator input " ++ toString id.toNat ++ " is absent"))
      | some _, 0 => .error (.invalidPlan "physical operator DAG contains a cycle")
      | some kind, unvisited + 1 => do
        let (operator, built) ← buildKind batchSize storage
          (fun input => buildOperator definitions unvisited input (id :: visiting)) built kind
        .ok (operator, id :: built)

end Build

/-- A plan, the storage of the shards and the snapshot it is to be executed at. -/
structure Execution where
  plan : ExecutablePlan
  storage : ShardId → Option QueryStorage
  snapshot : SnapshotGuard

namespace Execution

variable (execution : Execution)

def fragmentStorage : Except QueryError FragmentStorage :=
  (execution.plan.fragment :: execution.plan.fragments).mapM fun fragment => do
    execution.snapshot.validate fragment.fence
    match execution.storage fragment.shardId with
    | none => .error (.missingStorage fragment.shardId)
    | some storage => .ok (fragment.id, fragment, storage)

/-- The operator a plan without overlay is run as. -/
def root (batchSize : UInt32) : Except QueryError Operator := do
  let storage ← execution.fragmentStorage
  let plan := execution.plan
  let definitions := plan.operators.map fun operator => (operator.id, operator.kind)
  let (root, built) ← buildOperator batchSize storage definitions definitions.length
    plan.rootOperator [] []
  if built.length ≠ definitions.length then
    .error (.invalidPlan "physical operator DAG contains unreachable operators")
  else if plan.resultSchema.fields ≠ [] ∧ root.schema ≠ plan.resultSchema then
    .error (.invalidPlan "physical root schema does not match declared result schema")
  else .ok root

def execute (batchSize : UInt32) (overlay : Option QueryOverlay) : Except QueryError Operator :=
  if batchSize = 0 then .error (.invalidPlan "query runtime batch size must be nonzero")
  else do
    let root ← execution.root batchSize
    match overlay with
    | none => .ok root
    | some overlay => .ok (root.overlay overlay execution.plan.fragment.fence.validAt)

/-- The rows of the stream that an execution returns. -/
def collect (batchSize : UInt32) (overlay : Option QueryOverlay) :
    Except QueryError (List Row) := do
  let operator ← execution.execute batchSize overlay
  operator.pulls.collectRows

end Execution

end DtgProxy.Query

import DtgProxy.Lib.Loop
import DtgProxy.Plan.Catalog

/-! # The query planner

A logical plan is lowered to one fragment of storage reads per shard and a list
of physical operators.  Reads that start at a looked-up vertex and follow
relationships are recognised by walking the `Expand` nodes backwards to the
lookup.  The walk is a loop without a bound, so the planner runs for a number of
rounds, and `none` says that a walk is still going on after that many.
-/
namespace DtgProxy.Plan

open Kernel Lib Storage DtgProxy.Language

/-! ### Physical plans -/

inductive LogicalReadOperation where
  | vertexPoint (vertexId : VertexId)
  | vertexScan
  | edgePoint (edgeId : EdgeId)
  | edgeScan
  | adjacency (vertexId : VertexId) (direction : ExpandDirection)
  | traversal (vertexId : VertexId) (directions : List ExpandDirection)
deriving DecidableEq

structure LogicalReadRequest where
  node : LogicalNodeId
  operation : LogicalReadOperation
  readScope : ReadScope
  rowBound : UInt32
deriving DecidableEq

def LogicalReadRequest.pushdownKind (request : LogicalReadRequest) : Option PushdownKind :=
  match request.operation with
  | .vertexPoint _ => some .vertexPoint
  | .vertexScan => some .vertexScan
  | .edgePoint _ | .edgeScan | .adjacency _ _ | .traversal _ _ => none

/-- A replica at an applied index, with the capabilities it was bound for. -/
structure ReadFence where
  binding : ReplicaBinding
  appliedIndex : ℕ
  capabilityDigest : Digest32

def ReadFence.new (binding : ReplicaBinding) (appliedIndex : ℕ) : ReadFence :=
  ⟨binding, appliedIndex, binding.capabilityDigest⟩

inductive PushdownOperation where
  | vertex (read : VertexRead)
  | vertexScan (scan : VertexScan)

def supportedPushdownContractVersion : UInt32 := 1

structure PushdownRequest where
  contractVersion : UInt32
  fence : ReadFence
  requiredCapabilities : CapabilityManifest
  operation : PushdownOperation

def PushdownRequest.new (contractVersion : UInt32) (fence : ReadFence)
    (requiredCapabilities : CapabilityManifest) (operation : PushdownOperation) :
    Except PlanError PushdownRequest :=
  if contractVersion ≠ supportedPushdownContractVersion then
    .error (.invalidStorageRequest "DTG-STORAGE-CAPABILITY: unsupported pushdown contract version")
  else .ok ⟨contractVersion, fence, requiredCapabilities, operation⟩

inductive PhysicalExpr where
  | evaluate (expression : LogicalExpr)
  | verifyStorageSemantics (node : LogicalNodeId) (requirements : SemanticRequirements)

inductive StorageAccess where
  | logical (request : LogicalReadRequest)
  | pushdown (node : LogicalNodeId) (request : PushdownRequest) (guarantee : PushdownGuarantee)
      (residual : Option PhysicalExpr)

abbrev FragmentId := UInt32

structure PlanFence where
  readFence : ReadFence
  catalogVersion : ℕ
  schemaVersion : ℕ
  snapshotRequirements : SnapshotRequirements

structure PlanFragment where
  id : FragmentId
  fence : PlanFence
  storageAccesses : List StorageAccess

inductive ExchangeKind where
  | gather
deriving DecidableEq, Repr

structure Exchange where
  source : FragmentId
  kind : ExchangeKind
deriving DecidableEq, Repr

inductive PhysicalOperatorKind where
  | source (logicalNode : LogicalNodeId) (fragments : List FragmentId) (output : String)
  | filter (input : LogicalNodeId) (predicate : PhysicalExpr)
  | project (input : LogicalNodeId) (projections : List Projection)
  | join (left right : LogicalNodeId) (kind : JoinKind) (predicate : Option PhysicalExpr)
  | aggregate (input : LogicalNodeId) (groups : List Projection)
      (aggregates : List AggregateFunction)
  | sort (input : LogicalNodeId) (keys : List SortKey)
  | limit (input : LogicalNodeId) (skip : ℕ) (limit : Option ℕ)
  | unwind (input : LogicalNodeId) (expression : PhysicalExpr) (outputAlias : String)

structure PhysicalOperator where
  id : LogicalNodeId
  kind : PhysicalOperatorKind

structure PhysicalPlan where
  version : ℕ
  fragments : List PlanFragment
  exchanges : List Exchange
  rootOperator : LogicalNodeId
  operators : List PhysicalOperator
  resultSchema : RowSchema

def physicalPlanVersion : ℕ := 1

/-! ### Literals -/

def literalNonnegative : LogicalExpr → Option ℕ
  | .literal (.integer value) => if 0 ≤ value then some value.toNatClampNeg else none
  | _ => none

def vertexId (node : LogicalNodeId) (lookup : VertexLookup) : Except PlanError VertexId :=
  match literalNonnegative lookup.id >>= Identifier.new with
  | some id => .ok id
  | none => .error (.unboundPointIdentity node)

def edgeId (node : LogicalNodeId) (lookup : RelationshipLookup) : Except PlanError EdgeId :=
  match literalNonnegative lookup.id >>= Identifier.new with
  | some id => .ok id
  | none => .error (.unboundPointIdentity node)

/-- The rows a literal `LIMIT` with an optional literal `SKIP` can need. -/
def literalLimitBound (limit : Limit) : Option UInt32 := do
  let count ← limit.limit >>= literalNonnegative
  let skip ← match limit.skip with
    | some skip => literalNonnegative skip
    | none => some 0
  -- The sum of two nonnegative `i64` values does not overflow a `u64`.
  if 0 < skip + count ∧ skip + count < 2 ^ 32 then some (UInt32.ofNat (skip + count)) else none

def scanBound [Blake3] (plan : LogicalPlan) (input : LogicalNodeId) (context : PlanningContext) :
    Except PlanError UInt32 :=
  let limits := plan.nodes.filterMap fun node =>
    match node.kind with
    | .limit limit => if limit.input = input then literalLimitBound limit else none
    | _ => none
  match (limits ++ context.logicalScanBound.toList).min? with
  | some bound => .ok bound
  | none => .error (.noBoundedAccess input)

/-! ### Column use -/

section ColumnUse

variable (name : String)

mutual

def logicalExprUsesColumn : LogicalExpr → Bool
  | .column column => decide (column = name)
  | .property input _ => logicalExprUsesColumn input
  | .unary _ input => logicalExprUsesColumn input
  | .binary left _ right => logicalExprUsesColumn left || logicalExprUsesColumn right
  | .list values => logicalExprsUseColumn values
  | .map entries => logicalEntriesUseColumn entries
  | .literal _ => false
  | .parameter _ => false

def logicalExprsUseColumn : List LogicalExpr → Bool
  | [] => false
  | value :: values => logicalExprUsesColumn value || logicalExprsUseColumn values

def logicalEntriesUseColumn : List (String × LogicalExpr) → Bool
  | [] => false
  | (_, value) :: entries => logicalExprUsesColumn value || logicalEntriesUseColumn entries

end

def logicalNodeUsesColumn : LogicalNodeKind → Bool
  | .filter _ predicate => logicalExprUsesColumn name predicate
  | .project _ projections => projections.any fun p => logicalExprUsesColumn name p.expression
  | .join join => join.predicate.any (logicalExprUsesColumn name)
  | .aggregate aggregate =>
    aggregate.groups.any (fun group => logicalExprUsesColumn name group.expression) ||
      aggregate.aggregates.any fun function => function.argument.any (logicalExprUsesColumn name)
  | .sort sort => sort.keys.any fun key => logicalExprUsesColumn name key.expression
  | .unwind unwind => logicalExprUsesColumn name unwind.expression
  | .nodeScan _ | .relationshipScan _ | .vertexLookup _ | .relationshipLookup _ | .expand _
  | .limit _ | .subquery _ _ _ => false

/-- Some node of the plan evaluates an expression over the column. -/
def planUsesColumn (plan : LogicalPlan) : Bool :=
  plan.nodes.any fun node => logicalNodeUsesColumn name node.kind

end ColumnUse

/-! ### The walk from an `Expand` back to its lookup -/

/-- An `Expand` node of the plan. -/
structure Hop where
  id : LogicalNodeId
  expand : Expand
deriving DecidableEq

def LogicalNode.hop? (node : LogicalNode) : Option Hop :=
  match node.kind with
  | .expand expand => some ⟨node.id, expand⟩
  | _ => none

/-- The variables of the walk: the hop it is at and the directions of the hops
behind it, latest first. -/
structure Walk where
  current : Hop
  directions : List ExpandDirection

abbrev ChainResult := Except PlanError (VertexId × List ExpandDirection)

def chainRound (plan : LogicalPlan) (scope : ReadScope) (walk : Walk) : Round Walk ChainResult :=
  let current := walk.current
  if current.expand.destinationLabels ≠ [] ∨ current.expand.relationshipTypes ≠ [] then
    .done (.error (.unsupportedNode current.id
      "point-anchored Expand does not yet support label or relationship-type predicates"))
  else if current.expand.readScope ≠ scope then
    .done (.error (.unsupportedNode current.id
      "point-anchored traversal hops must have one read scope"))
  else
    let directions := current.expand.direction :: walk.directions
    match plan.nodes.find? (fun candidate => decide (candidate.id = current.expand.input)) with
    | none => .done (.error (.unsupportedNode current.id
        "Expand input is absent from the logical plan"))
    | some input =>
      match input.kind with
      | .vertexLookup lookup =>
        if lookup.var ≠ current.expand.source then
          .done (.error (.unsupportedNode current.id
            "Expand source does not match its vertex lookup input"))
        else if lookup.labels ≠ [] then
          .done (.error (.unsupportedNode input.id
            "point-anchored Expand does not yet support label predicates"))
        else .done ((vertexId input.id lookup).map fun id => (id, directions))
      | .expand previous =>
        if previous.destination ≠ current.expand.source then
          .done (.error (.unsupportedNode current.id
            "Expand source does not match its preceding destination"))
        else .next ⟨⟨input.id, previous⟩, directions⟩
      | _ => .done (.error (.unsupportedNode current.id
          "Expand requires a point-anchored traversal input"))

/-- The looked-up vertex and the directions of the hops from it to `terminal`. -/
def pointAnchoredExpandChain (fuel : ℕ) (plan : LogicalPlan) (terminal : Hop) :
    ExceptT PlanError Option (VertexId × List ExpandDirection) :=
  ExceptT.mk (loop (chainRound plan terminal.expand.readScope) fuel ⟨terminal, []⟩)

/-! ### Collecting the reads -/

/-- The first pass over one node: its walk, and the use of the variables that a
traversal does not produce.  The result is the node the `Expand` reads from. -/
def anchoredExpandInput (fuel : ℕ) (plan : LogicalPlan) (node : LogicalNode) :
    ExceptT PlanError Option (Option LogicalNodeId) :=
  match LogicalNode.hop? node with
  | none => pure none
  | some hop => do
    let _ ← pointAnchoredExpandChain fuel plan hop
    if planUsesColumn hop.expand.source plan || planUsesColumn hop.expand.destination plan then
      throw (.unsupportedNode node.id
        "point-anchored Expand does not materialize source or destination variables")
    pure (some hop.expand.input)

/-- The second pass over one node, once all `Expand` inputs are known. -/
def checkIntermediate (plan : LogicalPlan) (inputs : List LogicalNodeId) (node : LogicalNode) :
    Except PlanError Unit :=
  match LogicalNode.hop? node with
  | none => .ok ()
  | some hop =>
    let children := plan.nodes.filter fun candidate =>
      (LogicalNode.hop? candidate).any fun child => decide (child.expand.input = node.id)
    if 1 < children.length then
      .error (.unsupportedNode node.id
        "point-anchored traversal does not support branching intermediate expands")
    else if node.id ∈ inputs ∧ planUsesColumn hop.expand.relationship plan = true then
      .error (.unsupportedNode node.id
        "point-anchored traversal does not materialize intermediate relationship variables")
    else .ok ()

def pointAnchoredExpandInputs (fuel : ℕ) (plan : LogicalPlan) :
    ExceptT PlanError Option (List LogicalNodeId) := do
  let inputs ← plan.nodes.mapM (anchoredExpandInput fuel plan)
  let inputs := inputs.filterMap id
  ExceptT.mk (some (plan.nodes.foldlM (fun _ node => checkIntermediate plan inputs node) ()))
  pure inputs

/-- The read of one node that has no walk. -/
def collectPlainRead [Blake3] (plan : LogicalPlan) (context : PlanningContext)
    (expandedInputs : List LogicalNodeId) (node : LogicalNode) :
    Except PlanError (Option LogicalReadRequest) :=
  match node.kind with
  | .vertexLookup lookup =>
    if node.id ∈ expandedInputs then .ok none
    else do
      let id ← vertexId node.id lookup
      .ok (some ⟨node.id, .vertexPoint id, lookup.readScope, 1⟩)
  | .nodeScan scan => do
    let bound ← scanBound plan node.id context
    .ok (some ⟨node.id, .vertexScan, scan.readScope, bound⟩)
  | .relationshipLookup lookup => do
    let id ← edgeId node.id lookup
    .ok (some ⟨node.id, .edgePoint id, lookup.readScope, 1⟩)
  | .relationshipScan scan => do
    let bound ← scanBound plan node.id context
    .ok (some ⟨node.id, .edgeScan, scan.readScope, bound⟩)
  | _ => .ok none

/-- One hop is an adjacency read, several are a traversal. -/
def traversalOperation (vertexId : VertexId) : List ExpandDirection → LogicalReadOperation
  | [direction] => .adjacency vertexId direction
  | directions => .traversal vertexId directions

def collectRead [Blake3] (fuel : ℕ) (plan : LogicalPlan) (context : PlanningContext)
    (expandedInputs : List LogicalNodeId) (node : LogicalNode) :
    ExceptT PlanError Option (Option LogicalReadRequest) :=
  match LogicalNode.hop? node with
  | some hop =>
    if node.id ∈ expandedInputs then pure none
    else do
      let (vertexId, directions) ← pointAnchoredExpandChain fuel plan hop
      let bound ← ExceptT.mk (some (scanBound plan node.id context))
      pure (some ⟨node.id, traversalOperation vertexId directions, hop.expand.readScope, bound⟩)
  | none => ExceptT.mk (some (collectPlainRead plan context expandedInputs node))

def collectReads [Blake3] (fuel : ℕ) (plan : LogicalPlan) (context : PlanningContext) :
    ExceptT PlanError Option (List LogicalReadRequest) := do
  let expandedInputs ← pointAnchoredExpandInputs fuel plan
  let reads ← plan.nodes.mapM (collectRead fuel plan context expandedInputs)
  pure (reads.filterMap id)

/-! ### Fragments -/

def resolveReadTime [Blake3] (request : LogicalReadRequest) (context : PlanningContext) :
    Option (TransactionTime × Int64) := do
  let transactionTime ← match request.readScope.transactionTime with
    | .current => some context.snapshotRequirements.transactionTime
    | .asOf (.literal value) => some value
    | .asOf (.parameter _) => none
    | .changes _ _ => none
  let validAt ← match request.readScope.validTime with
    | none => some context.snapshotRequirements.validAt
    | some (.at (.literal value)) => some value
    | some (.at (.parameter _)) => none
    | some (.overlaps _) => none
    | some (.changes _ _) => none
  some (transactionTime, validAt)

def readTargetsShard (request : LogicalReadRequest) (router : StaticShardRouter)
    (shardId : ShardId) : Bool :=
  match request.operation with
  | .vertexPoint vertexId | .adjacency vertexId _ | .traversal vertexId _ =>
    decide (router.shardForVertex vertexId = shardId)
  | .vertexScan | .edgePoint _ | .edgeScan => true

/-- The storage operation of a read that may be pushed down. -/
def pushdownOperation (request : LogicalReadRequest) (transactionTime : TransactionTime)
    (validAt : Int64) : Except PlanError (Option PushdownOperation) :=
  match request.operation with
  | .vertexPoint id => .ok (some (.vertex ⟨id, validAt, transactionTime⟩))
  | .vertexScan =>
    match ScanRead.new validAt transactionTime none request.rowBound.toNat with
    | .ok scan => .ok (some (.vertexScan scan))
    | .error error => .error (.invalidStorageRequest error.message)
  | .edgePoint _ | .edgeScan | .adjacency _ _ | .traversal _ _ => .ok none

/-- The request sent to a provider for a read it can answer. -/
def pushdownAccess (request : LogicalReadRequest) (fence : PlanFence) (kind : PushdownKind)
    (operation : PushdownOperation) (guarantee : PushdownGuarantee)
    (residual : Option PhysicalExpr) : Except PlanError StorageAccess :=
  match CapabilityManifest.fromNames [kind.capability] with
  | .error error => .error (.invalidStorageRequest ("DTG-STORAGE-CAPABILITY: " ++ error.message))
  | .ok required => do
    let pushdown ← PushdownRequest.new supportedPushdownContractVersion fence.readFence required
      operation
    .ok (.pushdown request.node pushdown guarantee residual)

def storageAccess [Blake3] (request : LogicalReadRequest) (fence : PlanFence)
    (context : PlanningContext) : Except PlanError StorageAccess :=
  match request.pushdownKind with
  | none => .ok (.logical request)
  | some kind =>
    match decidePushdown context.capabilities kind with
    | .unsupported => .ok (.logical request)
    | .exact guarantee => access kind guarantee none
    | .residualRequired guarantee =>
      access kind guarantee
        (some (.verifyStorageSemantics request.node SemanticRequirements.exact))
where
  access (kind : PushdownKind) (guarantee : PushdownGuarantee) (residual : Option PhysicalExpr) :
      Except PlanError StorageAccess :=
    match resolveReadTime request context with
    | none => .ok (.logical request)
    | some (transactionTime, validAt) => do
      match ← pushdownOperation request transactionTime validAt with
      | none => .ok (.logical request)
      | some operation => pushdownAccess request fence kind operation guarantee residual

/-- The fragment of one shard, unless no read goes there. -/
def shardFragment [Blake3] (reads : List LogicalReadRequest) (router : StaticShardRouter)
    (context : PlanningContext) (ordinal : ℕ) (shard : CatalogShard) :
    Except PlanError (Option PlanFragment) :=
  let selected := reads.filter fun request =>
    readTargetsShard request router shard.binding.shardId
  if selected.isEmpty then .ok none
  else do
    let fence : PlanFence := {
      readFence := ReadFence.new shard.binding shard.appliedIndex
      catalogVersion := context.catalog.version
      schemaVersion := context.catalog.schemaVersion
      snapshotRequirements := context.snapshotRequirements }
    let accesses ← selected.mapM (fun request => storageAccess request fence context)
    if 2 ^ 32 ≤ ordinal + 1 then
      .error (.invalidCatalog "fragment count exceeds the supported identifier range")
    .ok (some ⟨UInt32.ofNat (ordinal + 1), fence, accesses⟩)

def planFragments [Blake3] (reads : List LogicalReadRequest) (context : PlanningContext) :
    Except PlanError (List PlanFragment) := do
  let fragments ← context.catalog.shards.zipIdx.mapM fun (shard, ordinal) =>
    shardFragment reads (StaticShardRouter.new context.catalog) context ordinal shard
  .ok (fragments.filterMap id)

/-! ### Operators -/

def physicalRowCount (node : LogicalNodeId) :
    Option LogicalExpr → Except PlanError (Option ℕ)
  | none => .ok none
  | some (.literal (.integer value)) =>
    if 0 ≤ value then .ok (some value.toNatClampNeg)
    else .error (.unsupportedNode node "LIMIT and SKIP must be non-negative")
  | some _ => .error (.unsupportedNode node
      "LIMIT and SKIP must be resolved to non-negative literals before planning")

def lowerOperator (fragments : List FragmentId) (node : LogicalNode) :
    Except PlanError PhysicalOperator :=
  match node.kind with
  | .nodeScan scan => .ok ⟨node.id, .source node.id fragments scan.var⟩
  | .relationshipScan scan => .ok ⟨node.id, .source node.id fragments scan.var⟩
  | .vertexLookup lookup => .ok ⟨node.id, .source node.id fragments lookup.var⟩
  | .relationshipLookup lookup => .ok ⟨node.id, .source node.id fragments lookup.var⟩
  | .filter input predicate => .ok ⟨node.id, .filter input (.evaluate predicate)⟩
  | .project input projections => .ok ⟨node.id, .project input projections⟩
  | .join join =>
    .ok ⟨node.id, .join join.left join.right join.kind (join.predicate.map .evaluate)⟩
  | .aggregate aggregate =>
    .ok ⟨node.id, .aggregate aggregate.input aggregate.groups aggregate.aggregates⟩
  | .sort sort => .ok ⟨node.id, .sort sort.input sort.keys⟩
  | .limit limit => do
    let skip ← physicalRowCount node.id limit.skip
    let bound ← physicalRowCount node.id limit.limit
    .ok ⟨node.id, .limit limit.input (skip.getD 0) bound⟩
  | .unwind unwind =>
    .ok ⟨node.id, .unwind unwind.input (.evaluate unwind.expression) unwind.outputAlias⟩
  | .expand expand => .ok ⟨node.id, .source node.id fragments expand.relationship⟩
  | .subquery _ _ _ => .error (.unsupportedNode node.id
      "logical operator has no bounded physical implementation")

def lowerOperators (plan : LogicalPlan) (fragments : List PlanFragment) :
    Except PlanError (List PhysicalOperator) :=
  let expandedInputs := plan.nodes.filterMap fun node =>
    (LogicalNode.hop? node).map fun hop => hop.expand.input
  (plan.nodes.filter fun node => decide (node.id ∉ expandedInputs)).mapM
    (lowerOperator (fragments.map (·.id)))

/-! ### Planning -/

/-- The graph named by the program is the one of the catalog. -/
def graphMatches [Blake3] (program : LogicalProgram) (context : PlanningContext) : Bool :=
  match program.graphScope with
  | .sessionDefault => true
  | .explicit graph => decide (graph = context.catalog.graphId)

def validateInputs [Blake3] (program : LogicalProgram) (context : PlanningContext) :
    Except PlanError Unit :=
  match validateProgram program with
  | .error error => .error (.invalidProgram error)
  | .ok () => if graphMatches program context then .ok () else .error .graphMismatch

/-- What follows the collection of the reads. -/
def lowerReads [Blake3] (program : LogicalProgram) (plan : LogicalPlan)
    (context : PlanningContext) (reads : List LogicalReadRequest) :
    Except PlanError PhysicalPlan := do
  let fragments ← planFragments reads context
  let operators ← lowerOperators plan fragments
  .ok {
    version := physicalPlanVersion
    fragments
    exchanges := fragments.map fun fragment => ⟨fragment.id, .gather⟩
    rootOperator := plan.root
    operators
    resultSchema := program.resultSchema }

/-- The planner, with every walk cut off after `fuel` rounds. -/
def plan [Blake3] (fuel : ℕ) (program : LogicalProgram) (context : PlanningContext) :
    ExceptT PlanError Option PhysicalPlan := do
  ExceptT.mk (some (validateInputs program context))
  match program.statement with
  | .query logicalPlan => do
    let reads ← collectReads fuel logicalPlan context
    ExceptT.mk (some (lowerReads program logicalPlan context reads))
  | _ => throw .unsupportedStatement

end DtgProxy.Plan

import DtgProxy.Kernel.Value
import DtgProxy.Lib.Result

/-! # The logical intermediate representation

Programs, plans and expressions that the language front end produces and the
planner reads.  A plan is a list of nodes that refer to each other by number, so
it is a graph; `validateProgram` checks that every number in it is declared.
-/
namespace DtgProxy.Language

open Kernel Lib

/-! ### Expressions and schemas -/

inductive UnaryOperator where
  | not
  | negate
  | isNull
deriving DecidableEq, Repr

inductive BinaryOperator where
  | add
  | subtract
  | multiply
  | divide
  | equal
  | notEqual
  | lessThan
  | lessThanOrEqual
  | greaterThan
  | greaterThanOrEqual
  | and
  | or
  | contains
deriving DecidableEq, Repr

inductive LogicalExpr where
  | literal (value : Value)
  | parameter (name : String)
  | column (name : String)
  | property (input : LogicalExpr) (name : String)
  | unary (operator : UnaryOperator) (input : LogicalExpr)
  | binary (left : LogicalExpr) (operator : BinaryOperator) (right : LogicalExpr)
  | list (values : List LogicalExpr)
  | map (entries : List (String × LogicalExpr))

inductive LogicalType where
  | null
  | boolean
  | integer
  | float
  | bytes
  | string
  | list (item : LogicalType)
  | map
  | vertex
  | relationship
  | any
deriving DecidableEq, Repr

structure Parameter where
  name : String
  dataType : LogicalType
  required : Bool
deriving DecidableEq, Repr

structure Field where
  name : String
  dataType : LogicalType
  nullable : Bool
deriving DecidableEq, Repr

structure RowSchema where
  fields : List Field
deriving DecidableEq, Repr

def RowSchema.empty : RowSchema := ⟨[]⟩

/-! ### Temporal scopes -/

inductive TimeExpr where
  | literal (value : TransactionTime)
  | parameter (name : String)
deriving DecidableEq, Repr

inductive TemporalScope where
  | current
  | asOf (time : TimeExpr)
  | changes (start stop : TimeExpr)
deriving DecidableEq, Repr

inductive ValidTimeExpr where
  | literal (value : Int64)
  | parameter (name : String)
deriving DecidableEq, Repr

inductive ValidIntervalExpr where
  | literal (interval : ValidInterval)
  | parameter (name : String)
  | bounds (start stop : ValidTimeExpr)
deriving DecidableEq, Repr

inductive ValidTimePredicate where
  | at (time : ValidTimeExpr)
  | overlaps (interval : ValidIntervalExpr)
  | changes (start stop : ValidTimeExpr)
deriving DecidableEq, Repr

structure ReadScope where
  transactionTime : TemporalScope
  validTime : Option ValidTimePredicate
deriving DecidableEq, Repr

def ReadScope.current : ReadScope := ⟨.current, none⟩

/-! ### Plans -/

abbrev LogicalNodeId := UInt32

structure NodeScan where
  var : String
  labels : List String
  readScope : ReadScope
deriving DecidableEq, Repr

structure RelationshipScan where
  var : String
  relationshipTypes : List String
  readScope : ReadScope
deriving DecidableEq, Repr

structure VertexLookup where
  var : String
  id : LogicalExpr
  labels : List String
  readScope : ReadScope

structure RelationshipLookup where
  var : String
  id : LogicalExpr
  relationshipTypes : List String
  readScope : ReadScope

inductive ExpandDirection where
  | outgoing
  | incoming
  | either
deriving DecidableEq, Repr

structure Expand where
  input : LogicalNodeId
  source : String
  relationship : String
  destination : String
  destinationLabels : List String
  direction : ExpandDirection
  relationshipTypes : List String
  readScope : ReadScope
deriving DecidableEq, Repr

structure Projection where
  expression : LogicalExpr
  outputAlias : String

inductive JoinKind where
  | inner
  | left
  | semi
  | anti
deriving DecidableEq, Repr

structure Join where
  left : LogicalNodeId
  right : LogicalNodeId
  kind : JoinKind
  predicate : Option LogicalExpr

inductive AggregateKind where
  | count
  | sum
  | average
  | minimum
  | maximum
  | collect
deriving DecidableEq, Repr

structure AggregateFunction where
  function : AggregateKind
  argument : Option LogicalExpr
  outputAlias : String
  distinct : Bool

structure Aggregate where
  input : LogicalNodeId
  groups : List Projection
  aggregates : List AggregateFunction

inductive SortDirection where
  | ascending
  | descending
deriving DecidableEq, Repr

structure SortKey where
  expression : LogicalExpr
  direction : SortDirection

structure SortRows where
  input : LogicalNodeId
  keys : List SortKey

structure Limit where
  input : LogicalNodeId
  skip : Option LogicalExpr
  limit : Option LogicalExpr

structure Unwind where
  input : LogicalNodeId
  expression : LogicalExpr
  outputAlias : String

mutual

structure LogicalPlan where
  root : LogicalNodeId
  nodes : List LogicalNode

structure LogicalNode where
  id : LogicalNodeId
  kind : LogicalNodeKind

inductive LogicalNodeKind where
  | nodeScan (scan : NodeScan)
  | relationshipScan (scan : RelationshipScan)
  | vertexLookup (lookup : VertexLookup)
  | relationshipLookup (lookup : RelationshipLookup)
  | expand (expand : Expand)
  | filter (input : LogicalNodeId) (predicate : LogicalExpr)
  | project (input : LogicalNodeId) (projections : List Projection)
  | join (join : Join)
  | aggregate (aggregate : Aggregate)
  | sort (sort : SortRows)
  | limit (limit : Limit)
  | unwind (unwind : Unwind)
  | subquery (input : Option LogicalNodeId) (plan : LogicalPlan)
      (correlatedVariables : List String)

end

/-! ### Programs -/

inductive GraphScope where
  | sessionDefault
  | explicit (graph : GraphId)
deriving DecidableEq, Repr

inductive LogicalMutation where
  | createVertex (var : String) (labels : List String)
      (properties : OrderedMap String LogicalExpr) (validFrom : ValidTimeExpr)
  | createRelationship (var relationshipType source destination : String)
      (properties : OrderedMap String LogicalExpr) (validFrom : ValidTimeExpr)
  | setProperties (var : String) (properties : OrderedMap String LogicalExpr)
      (validFrom : ValidTimeExpr)
  | delete (var : String) (validFrom : ValidTimeExpr)

structure LogicalWrite where
  input : Option LogicalPlan
  mutations : List LogicalMutation

inductive BuiltInAlgorithmId where
  | breadthFirstSearch
  | depthFirstSearch
  | boundedSingleSourceShortestPath
  | boundedAllPairsShortestPaths
  | stronglyConnectedComponents
  | weaklyConnectedComponents
  | pageRank
  | degreeCentrality
  | closenessCentrality
  | betweennessCentrality
  | triangleCount
  | clusteringCoefficient
  | kCore
  | labelPropagation
  | louvain
  | earliestArrival
  | latestDeparture
  | temporalReachability
  | temporalMotif
  | changePoint
deriving DecidableEq, Repr

/-- The names under which the algorithms are submitted. -/
def BuiltInAlgorithmId.tryFrom (value : String) : Option BuiltInAlgorithmId :=
  match value with
  | "bfs" => some .breadthFirstSearch
  | "dfs" => some .depthFirstSearch
  | "bounded_sssp" => some .boundedSingleSourceShortestPath
  | "bounded_apsp" => some .boundedAllPairsShortestPaths
  | "strongly_connected_components" => some .stronglyConnectedComponents
  | "weakly_connected_components" => some .weaklyConnectedComponents
  | "page_rank" => some .pageRank
  | "degree_centrality" => some .degreeCentrality
  | "closeness_centrality" => some .closenessCentrality
  | "betweenness_centrality" => some .betweennessCentrality
  | "triangle_count" => some .triangleCount
  | "clustering_coefficient" => some .clusteringCoefficient
  | "k_core" => some .kCore
  | "label_propagation" => some .labelPropagation
  | "louvain" => some .louvain
  | "earliest_arrival" => some .earliestArrival
  | "latest_departure" => some .latestDeparture
  | "temporal_reachability" => some .temporalReachability
  | "temporal_motif" => some .temporalMotif
  | "change_point" => some .changePoint
  | _ => none

inductive AnalyticsExecutionMode where
  | asynchronous
deriving DecidableEq, Repr

@[ext] structure AnalyticsRequestIdentity where
  value : String
  nonempty : value ≠ ""
deriving Repr

instance : DecidableEq AnalyticsRequestIdentity :=
  fun _ _ => decidable_of_iff _ AnalyticsRequestIdentity.ext_iff.symm

structure AnalyticsSubmission where
  algorithm : BuiltInAlgorithmId
  executionMode : AnalyticsExecutionMode
  readScope : ReadScope
  arguments : OrderedMap String LogicalExpr
  resultSchema : RowSchema
  requestIdentity : Option AnalyticsRequestIdentity

inductive LogicalStatement where
  | query (plan : LogicalPlan)
  | write (write : LogicalWrite)
  | submitAnalytics (submission : AnalyticsSubmission)
  | beginTransaction
  | commitTransaction
  | rollbackTransaction

structure IrVersion where
  major : UInt16
  minor : UInt16
deriving DecidableEq, Repr

def IrVersion.current : IrVersion := ⟨1, 0⟩

structure LogicalProgram where
  version : IrVersion
  graphScope : GraphScope
  parameters : List Parameter
  statement : LogicalStatement
  resultSchema : RowSchema

/-! ### Validation -/

inductive IrError where
  | unsupportedVersion (version : IrVersion)
  | emptyQuery
  | duplicateParameter (name : String)
  | duplicateResultField (name : String)
  | unknownParameter (name : String)
  | duplicateNode (id : LogicalNodeId)
  | missingNode (id : LogicalNodeId)
deriving DecidableEq, Repr

def IrError.message : IrError → String
  | .unsupportedVersion version =>
    "unsupported logical IR version " ++ toString version.major ++ "." ++ toString version.minor
  | .emptyQuery => "logical query must contain a root node"
  | .duplicateParameter name => "duplicate parameter: " ++ name
  | .duplicateResultField name => "duplicate result field: " ++ name
  | .unknownParameter name => "unknown parameter: " ++ name
  | .duplicateNode id => "duplicate logical node: " ++ toString id
  | .missingNode id => "unknown logical node: " ++ toString id

/-- The names, none of which occurs twice. -/
def uniqueNames (names : List String) (parameter : Bool) : Except IrError (List String) :=
  names.foldlM (fun unique name =>
    if name ∈ unique then
      .error (if parameter then .duplicateParameter name else .duplicateResultField name)
    else .ok (unique ++ [name])) []

section Validation

variable (parameters : List String)

def validateParameter (name : String) : Except IrError Unit :=
  if name ∈ parameters then .ok () else .error (.unknownParameter name)

def validateTime : TimeExpr → Except IrError Unit
  | .literal _ => .ok ()
  | .parameter name => validateParameter parameters name

def validateValidTime : ValidTimeExpr → Except IrError Unit
  | .literal _ => .ok ()
  | .parameter name => validateParameter parameters name

def validateValidInterval : ValidIntervalExpr → Except IrError Unit
  | .literal _ => .ok ()
  | .parameter name => validateParameter parameters name
  | .bounds start stop => do
    validateValidTime parameters start
    validateValidTime parameters stop

def validateScope : TemporalScope → Except IrError Unit
  | .current => .ok ()
  | .asOf time => validateTime parameters time
  | .changes start stop => do
    validateTime parameters start
    validateTime parameters stop

def validateReadScope (scope : ReadScope) : Except IrError Unit := do
  validateScope parameters scope.transactionTime
  match scope.validTime with
  | none => .ok ()
  | some (.at time) => validateValidTime parameters time
  | some (.overlaps interval) => validateValidInterval parameters interval
  | some (.changes start stop) => do
    validateValidTime parameters start
    validateValidTime parameters stop

mutual

def validateExpr : LogicalExpr → Except IrError Unit
  | .literal _ => .ok ()
  | .column _ => .ok ()
  | .parameter name => validateParameter parameters name
  | .property input _ => validateExpr input
  | .unary _ input => validateExpr input
  | .binary left _ right => do
    validateExpr left
    validateExpr right
  | .list values => validateExprs values
  | .map entries => validateEntries entries

def validateExprs : List LogicalExpr → Except IrError Unit
  | [] => .ok ()
  | value :: values => do
    validateExpr value
    validateExprs values

def validateEntries : List (String × LogicalExpr) → Except IrError Unit
  | [] => .ok ()
  | (_, value) :: entries => do
    validateExpr value
    validateEntries entries

end

def validateOptional : Option LogicalExpr → Except IrError Unit
  | none => .ok ()
  | some expression => validateExpr parameters expression

def validateProjections (projections : List Projection) : Except IrError Unit :=
  validateExprs parameters (projections.map (·.expression))

def requireNode (nodeIds : List LogicalNodeId) (id : LogicalNodeId) : Except IrError Unit :=
  if id ∈ nodeIds then .ok () else .error (.missingNode id)

def checkDistinct (nodeIds : List LogicalNodeId) : Except IrError Unit :=
  nodeIds.foldlM (fun seen id =>
    if id ∈ seen then .error (.duplicateNode id) else .ok (id :: seen)) [] >>= fun _ => .ok ()

mutual

def validatePlan : LogicalPlan → Except IrError Unit
  | ⟨root, nodes⟩ => do
    if nodes.isEmpty then .error .emptyQuery
    checkDistinct (nodes.map (·.id))
    requireNode (nodes.map (·.id)) root
    validateNodes (nodes.map (·.id)) nodes

def validateNodes (nodeIds : List LogicalNodeId) : List LogicalNode → Except IrError Unit
  | [] => .ok ()
  | ⟨_, kind⟩ :: nodes => do
    validateNode nodeIds kind
    validateNodes nodeIds nodes

def validateNode (nodeIds : List LogicalNodeId) : LogicalNodeKind → Except IrError Unit
  | .nodeScan scan => validateReadScope parameters scan.readScope
  | .relationshipScan scan => validateReadScope parameters scan.readScope
  | .vertexLookup lookup => do
    validateExpr parameters lookup.id
    validateReadScope parameters lookup.readScope
  | .relationshipLookup lookup => do
    validateExpr parameters lookup.id
    validateReadScope parameters lookup.readScope
  | .expand expand => do
    requireNode nodeIds expand.input
    validateReadScope parameters expand.readScope
  | .filter input predicate => do
    requireNode nodeIds input
    validateExpr parameters predicate
  | .project input projections => do
    requireNode nodeIds input
    validateProjections parameters projections
  | .aggregate aggregate => do
    requireNode nodeIds aggregate.input
    validateProjections parameters aggregate.groups
    validateExprs parameters (aggregate.aggregates.filterMap (·.argument))
  | .sort sort => do
    requireNode nodeIds sort.input
    validateExprs parameters (sort.keys.map (·.expression))
  | .limit limit => do
    requireNode nodeIds limit.input
    validateOptional parameters limit.skip
    validateOptional parameters limit.limit
  | .unwind unwind => do
    requireNode nodeIds unwind.input
    validateExpr parameters unwind.expression
  | .join join => do
    requireNode nodeIds join.left
    requireNode nodeIds join.right
    validateOptional parameters join.predicate
  | .subquery input plan _ => do
    match input with
    | none => .ok ()
    | some input => requireNode nodeIds input
    validatePlan plan

end

/-- The expressions under the properties of a mutation, in key order. -/
def validateProperties (properties : OrderedMap String LogicalExpr) : Except IrError Unit :=
  validateEntries parameters properties.toList

def validateMutation : LogicalMutation → Except IrError Unit
  | .createVertex _ _ properties validFrom => do
    validateValidTime parameters validFrom
    validateProperties parameters properties
  | .createRelationship _ _ _ _ properties validFrom => do
    validateValidTime parameters validFrom
    validateProperties parameters properties
  | .setProperties _ properties validFrom => do
    validateValidTime parameters validFrom
    validateProperties parameters properties
  | .delete _ validFrom => validateValidTime parameters validFrom

def validateWrite (write : LogicalWrite) : Except IrError Unit := do
  match write.input with
  | none => .ok ()
  | some plan => validatePlan parameters plan
  write.mutations.foldlM (fun _ mutation => validateMutation parameters mutation) ()

end Validation

def validateProgram (program : LogicalProgram) : Except IrError Unit := do
  if program.version ≠ IrVersion.current then .error (.unsupportedVersion program.version)
  let parameters ← uniqueNames (program.parameters.map (·.name)) true
  let _ ← uniqueNames (program.resultSchema.fields.map (·.name)) false
  match program.statement with
  | .query plan => validatePlan parameters plan
  | .submitAnalytics submission => do
    let _ ← uniqueNames (submission.resultSchema.fields.map (·.name)) false
    validateReadScope parameters submission.readScope
    validateProperties parameters submission.arguments
  | .write write => validateWrite parameters write
  | .beginTransaction => .ok ()
  | .commitTransaction => .ok ()
  | .rollbackTransaction => .ok ()

end DtgProxy.Language

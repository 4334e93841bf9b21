import DtgProxy.Language.Sema

/-! # Normalization

An analysed statement becomes a logical program.  Each clause is a scan of its
first node, or goes on from a node that an earlier clause has bound, and a chain
of expansions from there: first forwards to the end of the pattern, then
backwards to its start.  Property maps become filters right behind the scan or
expansion of their element.
-/
namespace DtgProxy.Language

open Kernel Lib

/-! ### Expressions and scopes -/

def logicalExpr : Expr → Outcome LogicalExpr
  | .countStar => .error (.panic "COUNT(*) is normalized as an aggregate")
  | .parameter name => .ok (.parameter name)
  | .integer value => .ok (.literal (.integer value))
  | .string value => .ok (.literal (.string value))
  | .boolean value => .ok (.literal (.boolean value))
  | .null => .ok (.literal .null)
  | .column name => .ok (.column name)
  | .property input name => .ok (.property (.column input) name)

def timeExpr : Expr → Outcome TimeExpr
  | .countStar => .error (.panic "COUNT(*) is normalized as an aggregate")
  | .parameter name => .ok (.parameter name)
  | .integer value =>
    match TransactionTime.new value.toUInt64.toNat with
    | some time => .ok (.literal time)
    | none => reject "DTG-LANG-TIME" "SYSTEM_TIME must be non-negative"
  | _ => reject "DTG-LANG-TYPE" "SYSTEM_TIME expression must be an integer or parameter"

def validExpr : Expr → Outcome ValidTimeExpr
  | .parameter name => .ok (.parameter name)
  | .integer value => .ok (.literal value)
  | _ => reject "DTG-LANG-TYPE" "VALID_TIME expression must be an integer or parameter"

def validInterval (start stop : Expr) : Outcome ValidIntervalExpr :=
  match start, stop with
  | .integer start, .integer stop =>
    if h : start < stop then .ok (.literal ⟨start, stop, h⟩)
    else reject "DTG-LANG-INVALID-INTERVAL" "VALID_TIME BETWEEN requires start < end"
  | start, stop => do
    let start ← validExpr start
    let stop ← validExpr stop
    .ok (.bounds start stop)

def transactionScope (system : Option Scope) : Outcome TemporalScope :=
  match system with
  | none => .ok .current
  | some ⟨_, .asOf time⟩ => do
    let time ← timeExpr time
    .ok (.asOf time)
  | some ⟨_, .changes start stop⟩ => do
    let start ← timeExpr start
    let stop ← timeExpr stop
    .ok (.changes start stop)
  | some ⟨_, .between _ _⟩ => reject "DTG-LANG-SCOPE" "invalid SYSTEM_TIME scope"

def validScope (valid : Option Scope) : Outcome (Option ValidTimePredicate) :=
  match valid with
  | none => .ok none
  | some ⟨_, .asOf time⟩ => do
    let time ← validExpr time
    .ok (some (.at time))
  | some ⟨_, .between start stop⟩ => do
    let interval ← validInterval start stop
    .ok (some (.overlaps interval))
  | some ⟨_, .changes start stop⟩ => do
    let start ← validExpr start
    let stop ← validExpr stop
    .ok (some (.changes start stop))

def readScope (scope : EffectiveReadScope) : Outcome ReadScope := do
  let transactionTime ← transactionScope scope.system
  let validTime ← validScope scope.valid
  .ok ⟨transactionTime, validTime⟩

/-- The logical expressions of a property map, in key order. -/
def logicalProperties (properties : Properties) : Outcome (OrderedMap String LogicalExpr) :=
  properties.toList.foldlM (fun logical entry => do
    let value ← logicalExpr entry.2
    .ok (logical.insert entry.1 value)) ∅

/-! ### Building plans -/

/-- The nodes of a plan under construction and the number of its root. -/
structure Draft where
  nodes : List LogicalNode
  root : LogicalNodeId

/-- The next node, which becomes the root. -/
def push (nodes : List LogicalNode) (kind : LogicalNodeKind) : Draft :=
  ⟨nodes ++ [⟨UInt32.ofNat nodes.length, kind⟩], UInt32.ofNat nodes.length⟩

def propertyEquality (var name : String) (value : LogicalExpr) : LogicalExpr :=
  .binary (.property (.column var) name) .equal value

def propertyPredicate (var : String) (properties : Properties) : Outcome (Option LogicalExpr) :=
  properties.toList.foldlM (fun predicate entry => do
    let value ← logicalExpr entry.2
    let equality := propertyEquality var entry.1 value
    .ok (some (match predicate with
      | none => equality
      | some previous => .binary previous .and equality))) none

def filterProperties (draft : Draft) (var : String) (properties : Properties) : Outcome Draft := do
  match ← propertyPredicate var properties with
  | none => .ok draft
  | some predicate => .ok (push draft.nodes (.filter draft.root predicate))

def reverseDirection : RelationshipDirection → RelationshipDirection
  | .outgoing => .incoming
  | .incoming => .outgoing
  | .either => .either

def expandDirection : RelationshipDirection → ExpandDirection
  | .outgoing => .outgoing
  | .incoming => .incoming
  | .either => .either

/-- The expansion along the relationship numbered `i`, from its left end or, in
reverse, from its right end. -/
def expandEdge (pattern : Pattern) (scope : ReadScope) (reverse : Bool) (draft : Draft) (i : ℕ) :
    Outcome Draft := do
  let relationship ← index pattern.relationships i
  let left ← index pattern.nodes i
  let right ← index pattern.nodes (i + 1)
  let source := if reverse then right else left
  let destination := if reverse then left else right
  let direction :=
    if reverse then reverseDirection relationship.direction else relationship.direction
  let draft := push draft.nodes (.expand {
    input := draft.root
    source := source.var
    relationship := relationship.var
    destination := destination.var
    destinationLabels := destination.labels
    direction := expandDirection direction
    relationshipTypes := relationship.types
    readScope := scope })
  let draft ← filterProperties draft relationship.var relationship.properties
  filterProperties draft destination.var destination.properties

/-! ### Clauses -/

/-- The state of the loop over the clauses. -/
structure Selection where
  nodes : List LogicalNode
  root : Option LogicalNodeId
  bound : List String

def Selection.empty : Selection := ⟨[], none, []⟩

def vertexIdentityExpression : Expr → Bool
  | .integer _ | .parameter _ => true
  | _ => false

/-- The identity that the only clause's first node is compared with. -/
def exactVertexLookup (clauses : List Match) (whereClause : Option (Expr × Expr)) : Option Expr :=
  match clauses, whereClause with
  | [clause], some (left, right) =>
    match clause.pattern.nodes.head? with
    | none => none
    | some first =>
      if left = .property first.var "id" ∧ vertexIdentityExpression right = true then some right
      else if right = .property first.var "id" ∧ vertexIdentityExpression left = true then some left
      else none
  | _, _ => none

/-- The source of a clause that does not go on from an earlier one. -/
def sourceKind (lookup : Option Expr) (first : NodePattern) (scope : ReadScope) :
    Outcome LogicalNodeKind :=
  match lookup with
  | none => .ok (.nodeScan ⟨first.var, first.labels, scope⟩)
  | some identity => do
    let id ← logicalExpr identity
    .ok (.vertexLookup ⟨first.var, id, first.labels, scope⟩)

/-- The first node of the pattern that an earlier clause has bound. -/
def findAnchor (bound : List String) (pattern : Pattern) : Option ℕ :=
  pattern.nodes.findIdx? fun node => decide (node.var ∈ bound)

/-- Where a clause starts: at the plan so far, or at a new source. -/
def startMatch (lookup : Option Expr) (scope : ReadScope) (selection : Selection)
    (pattern : Pattern) : Outcome Draft :=
  match pattern.nodes.head? with
  | none => reject "DTG-LANG-PATTERN" "MATCH pattern requires a node"
  | some first =>
    match findAnchor selection.bound pattern, selection.root with
    | some _, some root => .ok ⟨selection.nodes, root⟩
    | some _, none => .error (.panic "a bound anchor requires an existing root")
    | none, _ => do
      let kind ← sourceKind lookup first scope
      .ok (push selection.nodes kind)

/-- The plan of a clause joined with the plan of the clauses before it, unless it
goes on from that plan. -/
def joinMatch (selection : Selection) (pattern : Pattern) (draft : Draft) : Draft :=
  match findAnchor selection.bound pattern, selection.root with
  | none, some left => push draft.nodes (.join ⟨left, draft.root, .inner, none⟩)
  | _, _ => draft

/-- The temporal scope of a clause. -/
def clauseScope (scopes : List Scope) (clause : Match) : Outcome ReadScope := do
  let effective ← effectiveScope scopes clause.scopes
  readScope effective

/-- The nodes of a clause: its source, the filter of the node it starts at, the
expansions, and the join with the plan so far. -/
def expandMatch (lookup : Option Expr) (scope : ReadScope) (selection : Selection)
    (pattern : Pattern) : Outcome Selection := do
  let anchor := (findAnchor selection.bound pattern).getD 0
  let draft ← startMatch lookup scope selection pattern
  let anchorNode ← index pattern.nodes anchor
  let draft ← filterProperties draft anchorNode.var anchorNode.properties
  let draft ← (List.range' anchor (pattern.relationships.length - anchor)).foldlM
    (expandEdge pattern scope false) draft
  let draft ← (List.range anchor).reverse.foldlM (expandEdge pattern scope true) draft
  let draft := joinMatch selection pattern draft
  .ok ⟨draft.nodes, some draft.root, selection.bound ++ pattern.variables.map Prod.fst⟩

def normalizeMatch (scopes : List Scope) (lookup : Option Expr) (selection : Selection)
    (clause : Match) : Outcome Selection := do
  let scope ← clauseScope scopes clause
  expandMatch lookup scope selection clause.pattern

def normalizeWhere (lookup : Option Expr) (whereClause : Option (Expr × Expr)) (draft : Draft) :
    Outcome Draft :=
  match lookup, whereClause with
  | none, some (left, right) => do
    let left ← logicalExpr left
    let right ← logicalExpr right
    .ok (push draft.nodes (.filter draft.root (.binary left .equal right)))
  | _, _ => .ok draft

def normalizeSelection (scopes : List Scope) (clauses : List Match)
    (whereClause : Option (Expr × Expr)) : Outcome Draft := do
  let lookup := exactVertexLookup clauses whereClause
  let selection ← clauses.foldlM (normalizeMatch scopes lookup) Selection.empty
  match selection.root with
  | none => reject "DTG-LANG-EMPTY-QUERY" "query requires a MATCH pattern"
  | some root => normalizeWhere lookup whereClause ⟨selection.nodes, root⟩

/-! ### Results -/

def expressionAlias : Expr → Option String
  | .countStar => some "COUNT(*)"
  | .parameter name => some ("$" ++ name)
  | .column name => some name
  | .property input name => some (input ++ "." ++ name)
  | _ => none

def expressionType (bindings : OrderedMap String LogicalType) : Expr → LogicalType × Bool
  | .countStar => (.integer, false)
  | .parameter _ => (.any, true)
  | .integer _ => (.integer, false)
  | .string _ => (.string, false)
  | .boolean _ => (.boolean, false)
  | .null => (.null, true)
  | .column name => (bindings[name]?.getD .any, false)
  | .property _ _ => (.any, true)

/-- The first alias that is not taken: the base, or the base with a number. -/
def freeAlias (aliases : List String) (base : String) : ℕ → ℕ → String → Outcome String
  | 0, _, _ => .error .unfinished
  | fuel + 1, suffix, candidate =>
    if candidate ∈ aliases then
      freeAlias aliases base fuel (suffix + 1) (base ++ "_" ++ toString suffix)
    else .ok candidate

/-- One returned expression, after the columns before it. -/
def normalizeProjection (bindings : OrderedMap String LogicalType)
    (columns : List (Projection × Field)) (entry : Expr × ℕ) :
    Outcome (List (Projection × Field)) := do
  let (expression, i) := entry
  let base := (expressionAlias expression).getD ("expression_" ++ toString i)
  let aliases := columns.map fun column => column.2.name
  let name ← freeAlias aliases base (aliases.length + 1) 2 base
  let (dataType, nullable) := expressionType bindings expression
  let logical ← logicalExpr expression
  .ok (columns ++ [(⟨logical, name⟩, ⟨name, dataType, nullable⟩)])

def normalizeProjections (expressions : List Expr) (bindings : OrderedMap String LogicalType) :
    Outcome (List Projection × RowSchema) := do
  let columns ← expressions.zipIdx.foldlM (normalizeProjection bindings) []
  .ok (columns.map Prod.fst, ⟨columns.map Prod.snd⟩)

def queryBindings (query : Query) : OrderedMap String LogicalType :=
  query.matchClauses.foldl (fun bindings clause =>
    clause.pattern.variables.foldl (fun bindings entry =>
      bindings.insert entry.1 (match entry.2 with
        | .node => .vertex
        | .relationship => .relationship)) bindings) ∅

def sortDirection : OrderDirection → SortDirection
  | .ascending => .ascending
  | .descending => .descending

def normalizeKey (key : OrderKey) : Outcome SortKey := do
  let expression ← logicalExpr key.expression
  .ok ⟨expression, sortDirection key.direction⟩

def normalizeOrder (keys : List OrderKey) (draft : Draft) : Outcome Draft :=
  if keys.isEmpty then .ok draft
  else do
    let keys ← keys.mapM normalizeKey
    .ok (push draft.nodes (.sort ⟨draft.root, keys⟩))

/-- The result columns: one count, or the returned expressions. -/
def resultColumns (query : Query) : Outcome (Option (List Projection) × RowSchema) :=
  if Expr.countStar ∈ query.returns then
    if query.returns = [.countStar] then
      .ok (none, ⟨[⟨"COUNT(*)", .integer, false⟩]⟩)
    else reject "DTG-LANG-AGGREGATE" "COUNT(*) must be the only RETURN expression"
  else do
    let (projections, schema) ← normalizeProjections query.returns (queryBindings query)
    .ok (some projections, schema)

/-- The last node of a query. -/
def resultNode (projections : Option (List Projection)) (draft : Draft) : Draft :=
  match projections with
  | none => push draft.nodes (.aggregate
      ⟨draft.root, [], [⟨.count, none, "COUNT(*)", false⟩]⟩)
  | some projections =>
    if projections.isEmpty then draft
    else push draft.nodes (.project draft.root projections)

def Draft.plan (draft : Draft) : LogicalPlan := ⟨draft.root, draft.nodes⟩

def normalizeQuery (query : Query) : Outcome (LogicalPlan × RowSchema) := do
  let (projections, schema) ← resultColumns query
  let draft ← normalizeSelection query.scopes query.matchClauses query.whereClause
  let draft ← normalizeOrder query.orderBy draft
  .ok ((resultNode projections draft).plan, schema)

/-! ### Statements -/

def createdEnds (direction : RelationshipDirection) (left right : String) :
    Outcome (String × String) :=
  match direction with
  | .outgoing => .ok (left, right)
  | .incoming => .ok (right, left)
  | .either => .error (.panic "semantic analysis rejects this")

def normalizeWrite : Write → Outcome LogicalWrite
  | .create node validFrom => do
    let properties ← logicalProperties node.properties
    let validFrom ← validExpr validFrom
    .ok ⟨none, [.createVertex node.var node.labels properties validFrom]⟩
  | .createRelationship clauses pattern validFrom => do
    let relationship ← index pattern.relationships 0
    let left ← index pattern.nodes 0
    let right ← index pattern.nodes 1
    let (source, destination) ← createdEnds relationship.direction left.var right.var
    let input ← normalizeSelection [] clauses none
    let relationshipType ← index relationship.types 0
    let properties ← logicalProperties relationship.properties
    let validFrom ← validExpr validFrom
    .ok ⟨some input.plan, [.createRelationship relationship.var relationshipType source destination
      properties validFrom]⟩
  | .set clauses var properties validFrom => do
    let input ← normalizeSelection [] clauses none
    let properties ← logicalProperties properties
    let validFrom ← validExpr validFrom
    .ok ⟨some input.plan, [.setProperties var properties validFrom]⟩
  | .delete clauses var validFrom => do
    let input ← normalizeSelection [] clauses none
    let validFrom ← validExpr validFrom
    .ok ⟨some input.plan, [.delete var validFrom]⟩

def normalizeStatement : Statement → Outcome (LogicalStatement × RowSchema)
  | .boundary .begin => .ok (.beginTransaction, .empty)
  | .boundary .commit => .ok (.commitTransaction, .empty)
  | .boundary .rollback => .ok (.rollbackTransaction, .empty)
  | .submitAnalytics algorithm =>
    match BuiltInAlgorithmId.tryFrom algorithm with
    | some algorithm => .ok (.submitAnalytics
        ⟨algorithm, .asynchronous, .current, ∅, .empty, none⟩, .empty)
    | none => reject "DTG-LANG-UNKNOWN-BUILTIN" "unknown built-in analytics"
  | .query query => do
    let (plan, schema) ← normalizeQuery query
    .ok (.query plan, schema)
  | .write write => do
    let write ← normalizeWrite write
    .ok (.write write, .empty)
  | .procedure _ => reject "DTG-LANG-INTERNAL"
      "semantic analysis accepted an unsupported statement"

def normalize (typed : TypedProgram) : Outcome LogicalProgram := do
  let (statement, resultSchema) ← normalizeStatement typed.statement
  .ok {
    version := IrVersion.current
    graphScope := match typed.graph with
      | some graph => .explicit graph
      | none => .sessionDefault
    parameters := typed.parameters
    statement
    resultSchema }

end DtgProxy.Language

import DtgProxy.Language.Ast

/-! # Semantic analysis

Variables are bound from left to right through the clauses and their patterns;
an expression may use the variables bound so far.  The analysis keeps the
statement as it is and adds the graph and the parameters.
-/
namespace DtgProxy.Language

open Kernel Lib

def reject {α : Type} (code message : String) : Outcome α :=
  .error (.error (.semantic code message))

structure TypedProgram where
  graph : Option GraphId
  parameters : List Parameter
  statement : Statement

/-! ### Effective scopes -/

structure EffectiveReadScope where
  valid : Option Scope
  system : Option Scope
deriving DecidableEq, Repr

def Scope.isChanges (scope : Scope) : Bool :=
  match scope.mode with
  | .changes _ _ => true
  | _ => false

def lastScope (axis : Axis) (scopes : List Scope) : Option Scope :=
  scopes.reverse.find? fun scope => decide (scope.axis = axis)

def effectiveScope (defaults overrides : List Scope) : Outcome EffectiveReadScope :=
  let valid := lastScope .valid (defaults ++ overrides)
  let system := lastScope .system (defaults ++ overrides)
  if valid.any Scope.isChanges && system.any Scope.isChanges then
    reject "DTG-LANG-UNSUPPORTED-CHANGES" "at most one effective temporal axis may use CHANGES"
  else .ok ⟨valid, system⟩

/-- An interval whose ends are both literals. -/
def Mode.literalBounds : Mode → Option (Int64 × Int64)
  | .between (.integer start) (.integer stop) => some (start, stop)
  | .changes (.integer start) (.integer stop) => some (start, stop)
  | _ => none

def Mode.isBetween : Mode → Bool
  | .between _ _ => true
  | _ => false

/-- One scope, with the axes of those before it. -/
def validateScopeAfter (axes : List Axis) (scope : Scope) : Outcome (List Axis) :=
  if scope.axis ∈ axes then
    reject "DTG-LANG-DUPLICATE-SCOPE" "at most one temporal scope per axis is allowed"
  else if scope.axis = .system ∧ scope.mode.isBetween = true then
    reject "DTG-LANG-SCOPE" "SYSTEM_TIME supports only AS OF or CHANGES"
  else if scope.mode.literalBounds.any fun (start, stop) => decide (stop ≤ start) then
    reject "DTG-LANG-INVALID-INTERVAL" "temporal interval must have start < end"
  else .ok (scope.axis :: axes)

def validateScopes (scopes : List Scope) : Outcome Unit := do
  let _ ← scopes.foldlM validateScopeAfter []
  .ok ()

def validateStatementChangesAxes (defaults : List Scope) (clauses : List Match) : Outcome Unit :=
  let changes := (defaults ++ clauses.flatMap (·.scopes)).filter Scope.isChanges
  if changes.any (fun scope => decide (scope.axis = .valid)) &&
      changes.any (fun scope => decide (scope.axis = .system)) then
    reject "DTG-LANG-UNSUPPORTED-CHANGES" "at most one temporal axis per statement may use CHANGES"
  else .ok ()

/-! ### Bindings -/

inductive BindingKind where
  | node
  | relationship
deriving DecidableEq, Repr

structure Binding where
  kind : BindingKind
  constraints : List String
  readScope : EffectiveReadScope
deriving DecidableEq, Repr

abbrev Bindings := OrderedMap String Binding

def requireBinding (var : String) (bindings : Bindings) : Outcome Unit :=
  if bindings.contains var then .ok ()
  else reject "DTG-LANG-UNBOUND-VARIABLE" ("unbound variable: " ++ var)

def validateExpression (bindings : Bindings) : Expr → Outcome Unit
  | .countStar => reject "DTG-LANG-AGGREGATE" "COUNT(*) is only supported in the RETURN list"
  | .parameter _ | .integer _ | .string _ | .boolean _ | .null => .ok ()
  | .column var => requireBinding var bindings
  | .property input _ => requireBinding input bindings

def validatePropertyMap (bindings : Bindings) (properties : Properties) : Outcome Unit :=
  properties.toList.foldlM (fun _ entry => validateExpression bindings entry.2) ()

def bind (bindings : Bindings) (var : String) (kind : BindingKind) (constraints : List String)
    (readScope : EffectiveReadScope) : Outcome Bindings :=
  match bindings[var]? with
  | some existing =>
    if existing.kind ≠ kind ∨
        constraints.any (fun constraint => decide (constraint ∉ existing.constraints)) = true then
      reject "DTG-LANG-CONFLICTING-BINDING" ("conflicting binding for variable '" ++ var ++ "'")
    else .ok bindings
  | none => .ok (bindings.insert var ⟨kind, constraints, readScope⟩)

/-- The variables of a pattern with their kinds, nodes first. -/
def Pattern.variables (pattern : Pattern) : List (String × BindingKind) :=
  pattern.nodes.map (fun node => (node.var, .node)) ++
    pattern.relationships.map (fun relationship => (relationship.var, .relationship))

/-- One variable after those seen before it in the pattern. -/
def checkUnique (seen : OrderedMap String BindingKind) (entry : String × BindingKind) :
    Outcome (OrderedMap String BindingKind) :=
  match seen[entry.1]? with
  | some kind =>
    if kind = entry.2 then
      reject "DTG-LANG-UNSUPPORTED-CORRELATION"
        "logical IR cannot faithfully express repeated bindings within one pattern"
    else .ok seen
  | none => .ok (seen.insert entry.1 entry.2)

def validateCurrentPatternUniqueness (pattern : Pattern) : Outcome Unit := do
  let _ ← pattern.variables.foldlM checkUnique ∅
  .ok ()

/-- The variables of the pattern that earlier clauses have bound. -/
def prebound (pattern : Pattern) (bindings : Bindings) : List String :=
  ((pattern.variables.map Prod.fst).filter fun var => bindings.contains var).dedup

def validateCorrelation (pattern : Pattern) (bindings : Bindings)
    (readScope : EffectiveReadScope) : Outcome Unit := do
  validateCurrentPatternUniqueness pattern
  let bound := prebound pattern bindings
  if 1 < bound.length ∨
      bound.any (fun var => bindings[var]?.any fun binding =>
        decide (binding.kind = .relationship)) = true then
    reject "DTG-LANG-UNSUPPORTED-CORRELATION"
      "logical IR cannot faithfully express this MATCH correlation"
  else
    match bound.head? with
    | none => .ok ()
    | some var =>
      if bindings[var]?.any (fun binding => decide (binding.readScope ≠ readScope)) then
        reject "DTG-LANG-INCOMPATIBLE-SCOPE"
          ("incompatible temporal scope for reused binding '" ++ var ++ "'")
      else .ok ()

/-- One relationship of a pattern and the node behind it. -/
def validateStep (pattern : Pattern) (readScope : EffectiveReadScope) (bindings : Bindings)
    (step : RelationshipPattern × ℕ) : Outcome Bindings := do
  let (relationship, i) := step
  let bindings ← bind bindings relationship.var .relationship relationship.types readScope
  validatePropertyMap bindings relationship.properties
  let destination ← index pattern.nodes (i + 1)
  let bindings ← bind bindings destination.var .node destination.labels readScope
  validatePropertyMap bindings destination.properties
  .ok bindings

def validatePattern (pattern : Pattern) (bindings : Bindings) (readScope : EffectiveReadScope) :
    Outcome Bindings := do
  match pattern.nodes.head? with
  | none => reject "DTG-LANG-PATTERN" "MATCH pattern requires a node"
  | some first => do
    let bindings ← bind bindings first.var .node first.labels readScope
    validatePropertyMap bindings first.properties
    pattern.relationships.zipIdx.foldlM (validateStep pattern readScope) bindings

def validateMatch (defaults : List Scope) (bindings : Bindings) (clause : Match) :
    Outcome Bindings := do
  validateScopes clause.scopes
  let readScope ← effectiveScope defaults clause.scopes
  validateCorrelation clause.pattern bindings readScope
  validatePattern clause.pattern bindings readScope

def validateMatches (clauses : List Match) (defaults : List Scope) : Outcome Bindings :=
  clauses.foldlM (validateMatch defaults) ∅

/-! ### Statements -/

def validateEndpoint (bindings : Bindings) (endpoint : NodePattern) : Outcome Unit :=
  if endpoint.labels ≠ [] ∨ endpoint.properties.isEmpty = false then
    reject "DTG-LANG-CREATE-ENDPOINT"
      "relationship CREATE endpoints must be bound variable references"
  else if bindings[endpoint.var]?.any fun binding => decide (binding.kind = .node) then .ok ()
  else reject "DTG-LANG-UNBOUND-VARIABLE" ("unbound variable: " ++ endpoint.var)

def validateRelationshipCreate (pattern : Pattern) (bindings : Bindings) : Outcome Unit :=
  if pattern.nodes.length ≠ 2 ∨ pattern.relationships.length ≠ 1 then
    reject "DTG-LANG-CREATE-RELATIONSHIP"
      "relationship CREATE requires exactly one relationship between two bound nodes"
  else do
    let relationship ← index pattern.relationships 0
    if relationship.types.length ≠ 1 then
      reject "DTG-LANG-RELATIONSHIP-TYPE" "relationship CREATE requires exactly one explicit type"
    else if relationship.direction = .either then
      reject "DTG-LANG-RELATIONSHIP-DIRECTION"
        "relationship CREATE requires an explicit direction"
    else if bindings.contains relationship.var then
      reject "DTG-LANG-CONFLICTING-BINDING"
        ("relationship CREATE variable '" ++ relationship.var ++ "' is already bound")
    else do
      pattern.nodes.foldlM (fun _ endpoint => validateEndpoint bindings endpoint) ()
      validatePropertyMap bindings relationship.properties

def rejectHistoricalWriteSelection (clauses : List Match) : Outcome Unit :=
  if (clauses.flatMap (·.scopes)).any fun scope => decide (scope.axis = .system) then
    reject "DTG-LANG-HISTORICAL-WRITE-SELECTION"
      "write-selection MATCH clauses cannot override SYSTEM_TIME"
  else .ok ()

/-- The clauses that select what a write changes. -/
def validateSelection (clauses : List Match) : Outcome Bindings := do
  rejectHistoricalWriteSelection clauses
  validateMatches clauses []

def validateValidFrom : Expr → Outcome Unit
  | .integer _ | .parameter _ => .ok ()
  | _ => reject "DTG-LANG-TYPE" "VALID FROM must be an integer timestamp or parameter"

def validateWriteStatement : Write → Outcome Unit
  | .create node validFrom => do
    validatePropertyMap ∅ node.properties
    validateValidFrom validFrom
  | .createRelationship clauses pattern validFrom => do
    let bindings ← validateSelection clauses
    validateRelationshipCreate pattern bindings
    validateValidFrom validFrom
  | .set clauses var properties validFrom => do
    let bindings ← validateSelection clauses
    requireBinding var bindings
    validatePropertyMap bindings properties
    validateValidFrom validFrom
  | .delete clauses var validFrom => do
    let bindings ← validateSelection clauses
    requireBinding var bindings
    validateValidFrom validFrom

def validateReturn (bindings : Bindings) (expression : Expr) : Outcome Unit :=
  if expression = .countStar then .ok () else validateExpression bindings expression

def validateWhere (bindings : Bindings) : Option (Expr × Expr) → Outcome Unit
  | none => .ok ()
  | some (left, right) => do
    validateExpression bindings left
    validateExpression bindings right

def validateQuery (query : Query) : Outcome Unit := do
  validateScopes query.scopes
  validateStatementChangesAxes query.scopes query.matchClauses
  let bindings ← validateMatches query.matchClauses query.scopes
  validateWhere bindings query.whereClause
  query.returns.foldlM (fun _ expression => validateReturn bindings expression) ()
  query.orderBy.foldlM (fun _ key => validateExpression bindings key.expression) ()

def validateStatement : Statement → Outcome Unit
  | .procedure name => reject "DTG-LANG-UNKNOWN-BUILTIN"
      ("procedure '" ++ name ++ "' is not a built-in analytics submission")
  | .submitAnalytics algorithm =>
    if (BuiltInAlgorithmId.tryFrom algorithm).isSome then .ok ()
    else reject "DTG-LANG-UNKNOWN-BUILTIN" ("unknown built-in analytics: " ++ algorithm)
  | .query query => validateQuery query
  | .write write => validateWriteStatement write
  | .boundary _ => .ok ()

/-! ### Parameters -/

def Expr.parameters : Expr → List String
  | .parameter name => [name]
  | _ => []

def Scope.parameters (scope : Scope) : List String :=
  match scope.mode with
  | .asOf time => time.parameters
  | .between start stop | .changes start stop => start.parameters ++ stop.parameters

def propertyParameters (properties : Properties) : List String :=
  properties.toList.flatMap fun entry => entry.2.parameters

def Pattern.parameters (pattern : Pattern) : List String :=
  pattern.nodes.flatMap (fun node => propertyParameters node.properties) ++
    pattern.relationships.flatMap fun relationship => propertyParameters relationship.properties

def matchParameters (clauses : List Match) : List String :=
  clauses.flatMap fun clause =>
    clause.scopes.flatMap Scope.parameters ++ clause.pattern.parameters

def Query.parameters (query : Query) : List String :=
  query.scopes.flatMap Scope.parameters ++ matchParameters query.matchClauses ++
    query.returns.flatMap Expr.parameters ++
    query.orderBy.flatMap (fun key => key.expression.parameters) ++
    query.whereClause.toList.flatMap fun (left, right) => left.parameters ++ right.parameters

def Write.parameters : Write → List String
  | .create node validFrom => propertyParameters node.properties ++ validFrom.parameters
  | .createRelationship clauses pattern validFrom =>
    matchParameters clauses ++ pattern.parameters ++ validFrom.parameters
  | .set clauses _ properties validFrom =>
    matchParameters clauses ++ propertyParameters properties ++ validFrom.parameters
  | .delete clauses _ validFrom => matchParameters clauses ++ validFrom.parameters

/-- The parameters of a statement. -/
def collectStatementParameters : Statement → List String
  | .query query => query.parameters
  | .write write => write.parameters
  | .boundary _ | .submitAnalytics _ | .procedure _ => []

/-- The graphs that a program can name. -/
abbrev SchemaCatalog := String → Option GraphId

def resolveGraph (catalog : SchemaCatalog) : Option String → Outcome (Option GraphId)
  | none => .ok none
  | some name =>
    match catalog name with
    | some graph => .ok (some graph)
    | none => reject "DTG-LANG-UNKNOWN-GRAPH" ("unknown graph: " ++ name)

def analyze (catalog : SchemaCatalog) (program : Program) : Outcome TypedProgram := do
  let graph ← resolveGraph catalog program.graph
  validateStatement program.statement
  -- The names are a set, in ascending order.
  let names := (collectStatementParameters program.statement).dedup.insertionSort (· ≤ ·)
  .ok ⟨graph, names.map fun name => ⟨name, .any, true⟩, program.statement⟩

end DtgProxy.Language

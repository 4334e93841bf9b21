import DtgProxy.Query.Value

/-! # Expressions over rows

The evaluation of a logical expression on one row.  Null is absorbed by most operators,
`AND` and `OR` follow three-valued logic, and the comparisons use one total order over
all values.
-/
namespace DtgProxy.Query

open Kernel DtgProxy.Language Storage

namespace QueryValue

/-! ## The total order -/

def orderTag : QueryValue → ℕ
  | .null => 0
  | .boolean _ => 1
  | .integer _ => 2
  | .floatBits _ => 3
  | .bytes _ => 4
  | .string _ => 5
  | .list _ => 6
  | .map _ => 7
  | .vertex _ => 8
  | .relationship _ => 9

def compareVertices (left right : VertexVersion) : Ordering :=
  (compare left.id.get right.id.get).then <|
  (compare left.validTime.start right.validTime.start).then <|
  (compare left.validTime.stop right.validTime.stop).then <|
  (compare left.transactionTime.get right.transactionTime.get).then <|
  compare left.version right.version

def compareEdges (left right : EdgeVersion) : Ordering :=
  (compare left.id.get right.id.get).then <|
  (compare left.source.get right.source.get).then <|
  (compare left.target.get right.target.get).then <|
  (compare left.edgeType right.edgeType).then <|
  (compare left.validTime.start right.validTime.start).then <|
  (compare left.validTime.stop right.validTime.stop).then <|
  (compare left.transactionTime.get right.transactionTime.get).then <|
  compare left.version right.version

mutual

def totalCmp : QueryValue → QueryValue → Ordering
  | .boolean a, .boolean b => compare a b
  | .integer a, .integer b => compare a b
  | .floatBits a, .floatBits b => compare a b
  | .bytes a, .bytes b => compare a b
  | .string a, .string b => compare a b
  | .list a, .list b => compareSlices a b
  | .map a, .map b => compareMaps a b
  | .vertex a, .vertex b => compareVertices a b
  | .relationship a, .relationship b => compareEdges a b
  | left, right => compare left.orderTag right.orderTag

/-- The first difference decides, then the lengths. -/
def compareSlices : List QueryValue → List QueryValue → Ordering
  | [], [] => .eq
  | [], _ :: _ => .lt
  | _ :: _, [] => .gt
  | a :: as, b :: bs => (totalCmp a b).then (compareSlices as bs)

def compareMaps : List (String × QueryValue) → List (String × QueryValue) → Ordering
  | [], [] => .eq
  | [], _ :: _ => .lt
  | _ :: _, [] => .gt
  | (k, a) :: as, (l, b) :: bs =>
    ((compare k l).then (totalCmp a b)).then (compareMaps as bs)

end

/-- The entry of a map, or null. -/
def lookup (name : String) (entries : List (String × QueryValue)) : QueryValue :=
  (entries.lookup name).getD .null

/-- Adds an entry in key order; an entry under the same key is replaced. -/
def insertEntry (name : String) (value : QueryValue) :
    List (String × QueryValue) → List (String × QueryValue)
  | [] => [(name, value)]
  | entry :: entries =>
    if name < entry.1 then (name, value) :: entry :: entries
    else if name = entry.1 then (name, value) :: entries
    else entry :: insertEntry name value entries

/-- The stored property of an element, or null. -/
def storedProperty (properties : ValueMap) (name : String) : QueryValue :=
  ((properties.entries.lookup name).map fromKernel).getD .null

def property (name : String) : QueryValue → QueryValue
  | .vertex row => storedProperty row.properties name
  | .relationship row => storedProperty row.properties name
  | .map entries => lookup name entries
  | _ => .null

end QueryValue

open QueryValue

/-! ## Operators -/

/-- The result of integer arithmetic, if it fits. -/
def checkedInteger (value : ℤ) : Option Int64 :=
  if -2 ^ 63 ≤ value ∧ value < 2 ^ 63 then some (Int64.ofInt value) else none

def evaluateUnary : UnaryOperator → QueryValue → Except QueryError QueryValue
  | .isNull, .null => .ok (.boolean true)
  | .isNull, _ => .ok (.boolean false)
  | _, .null => .ok .null
  | .not, .boolean value => .ok (.boolean !value)
  | .negate, .integer value =>
    match checkedInteger (-value.toInt) with
    | some result => .ok (.integer result)
    | none => .error (.invalidPlan "integer negation overflow")
  | _, _ => .error (.invalidPlan "unary expression received an incompatible value")

def arithmetic (left : QueryValue) (operator : BinaryOperator) (right : QueryValue) :
    Except QueryError QueryValue :=
  match left, right with
  | .integer a, .integer b =>
    let value := match operator with
      | .add => checkedInteger (a.toInt + b.toInt)
      | .subtract => checkedInteger (a.toInt - b.toInt)
      | .multiply => checkedInteger (a.toInt * b.toInt)
      | .divide => if b = 0 then none else checkedInteger (a.toInt.tdiv b.toInt)
      | _ => none
    match value with
    | some result => .ok (.integer result)
    | none => .error (.invalidPlan "integer arithmetic failed")
  | _, _ => .error (.invalidPlan "arithmetic requires integer operands")

def boolean (left right : QueryValue) (operation : Bool → Bool → Bool) :
    Except QueryError QueryValue :=
  match left, right with
  | .boolean a, .boolean b => .ok (.boolean (operation a b))
  | _, _ => .error (.invalidPlan "boolean expression requires boolean operands")

def andNull : QueryValue → QueryValue → Except QueryError QueryValue
  | .boolean false, _ => .ok (.boolean false)
  | _, .boolean false => .ok (.boolean false)
  | .null, .null => .ok .null
  | .null, .boolean true => .ok .null
  | .boolean true, .null => .ok .null
  | _, _ => .error (.invalidPlan "AND received an incompatible value")

def orNull : QueryValue → QueryValue → Except QueryError QueryValue
  | .boolean true, _ => .ok (.boolean true)
  | _, .boolean true => .ok (.boolean true)
  | .null, .null => .ok .null
  | .null, .boolean false => .ok .null
  | .boolean false, .null => .ok .null
  | _, _ => .error (.invalidPlan "OR received an incompatible value")

def contains : QueryValue → QueryValue → Except QueryError QueryValue
  | .string left, .string right => .ok (.boolean (right.toList <:+: left.toList))
  | .list left, right => .ok (.boolean (right ∈ left))
  | _, _ => .error (.invalidPlan "CONTAINS received incompatible values")

def evaluateBinary (left : QueryValue) (operator : BinaryOperator) (right : QueryValue) :
    Except QueryError QueryValue :=
  if left = .null ∨ right = .null then
    match operator with
    | .and => andNull left right
    | .or => orNull left right
    | _ => .ok .null
  else
    match operator with
    | .add | .subtract | .multiply | .divide => arithmetic left operator right
    | .equal => .ok (.boolean (left = right))
    | .notEqual => .ok (.boolean (left ≠ right))
    | .lessThan => .ok (.boolean (totalCmp left right = .lt))
    | .lessThanOrEqual => .ok (.boolean (totalCmp left right ≠ .gt))
    | .greaterThan => .ok (.boolean (totalCmp left right = .gt))
    | .greaterThanOrEqual => .ok (.boolean (totalCmp left right ≠ .lt))
    | .and => boolean left right (· && ·)
    | .or => boolean left right (· || ·)
    | .contains => contains left right

def columnValue (schema : RowSchema) (row : List QueryValue) (name : String) :
    Except QueryError QueryValue :=
  match (schema.fields.findIdx? fun field => field.name = name).bind fun index => row[index]? with
  | some value => .ok value
  | none => .error (.invalidPlan ("unknown execution column: " ++ name))

section Evaluate

variable (schema : RowSchema) (row : List QueryValue)

mutual

def evaluate : LogicalExpr → Except QueryError QueryValue
  | .literal value => .ok (fromKernel value)
  | .parameter name =>
    .error (.unsupported ("unbound parameter in executable expression: " ++ name))
  | .column name => columnValue schema row name
  | .property input name => do
    let input ← evaluate input
    .ok (input.property name)
  | .unary operator input => do
    let input ← evaluate input
    evaluateUnary operator input
  | .binary left operator right => do
    let left ← evaluate left
    let right ← evaluate right
    evaluateBinary left operator right
  | .list values => do
    let values ← evaluateList values
    .ok (.list values)
  | .map entries => do
    let entries ← evaluateEntries entries []
    .ok (.map entries)

def evaluateList : List LogicalExpr → Except QueryError (List QueryValue)
  | [] => .ok []
  | value :: values => do
    let value ← evaluate value
    let values ← evaluateList values
    .ok (value :: values)

/-- Entries are evaluated in order and collected into a map. -/
def evaluateEntries : List (String × LogicalExpr) → List (String × QueryValue) →
    Except QueryError (List (String × QueryValue))
  | [], collected => .ok collected
  | (name, value) :: entries, collected => do
    let value ← evaluate value
    evaluateEntries entries (insertEntry name value collected)

end

end Evaluate

end DtgProxy.Query

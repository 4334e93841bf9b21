import DtgProxy.Language.Ir
import DtgProxy.Storage.Store

/-! # Values, batches and budgets of the query runtime

A query value is a property value or an element of the graph.  Operators exchange
batches of columns; a batch is built only from columns that fit its schema.  The
context of a query counts the rows and bytes it may still use.
-/
namespace DtgProxy.Query

open Kernel DtgProxy.Language Storage

inductive QueryValue where
  | null
  | boolean (value : Bool)
  | integer (value : Int64)
  | floatBits (value : UInt64)
  | bytes (value : List UInt8)
  | string (value : String)
  | list (values : List QueryValue)
  | map (entries : List (String × QueryValue))
  | vertex (vertex : VertexVersion)
  | relationship (edge : EdgeVersion)

namespace QueryValue

mutual

def beq : QueryValue → QueryValue → Bool
  | .null, .null => true
  | .boolean a, .boolean b => a == b
  | .integer a, .integer b => a == b
  | .floatBits a, .floatBits b => a == b
  | .bytes a, .bytes b => a == b
  | .string a, .string b => a == b
  | .list a, .list b => beqList a b
  | .map a, .map b => beqEntries a b
  | .vertex a, .vertex b => decide (a = b)
  | .relationship a, .relationship b => decide (a = b)
  | _, _ => false

def beqList : List QueryValue → List QueryValue → Bool
  | [], [] => true
  | a :: as, b :: bs => beq a b && beqList as bs
  | _, _ => false

def beqEntries : List (String × QueryValue) → List (String × QueryValue) → Bool
  | [], [] => true
  | (k, a) :: as, (l, b) :: bs => k == l && beq a b && beqEntries as bs
  | _, _ => false

end

mutual

theorem beq_iff : ∀ a b : QueryValue, beq a b = true ↔ a = b := by
  intro a b
  cases a <;> cases b <;> simp [beq, beqList_iff, beqEntries_iff]

theorem beqList_iff : ∀ as bs : List QueryValue, beqList as bs = true ↔ as = bs := by
  intro as bs
  cases as with
  | nil => cases bs <;> simp [beqList]
  | cons a as =>
    cases bs with
    | nil => simp [beqList]
    | cons b bs => simp [beqList, beq_iff a b, beqList_iff as bs]

theorem beqEntries_iff :
    ∀ as bs : List (String × QueryValue), beqEntries as bs = true ↔ as = bs := by
  intro as bs
  match as, bs with
  | [], [] => simp [beqEntries]
  | [], _ :: _ => simp [beqEntries]
  | _ :: _, [] => simp [beqEntries]
  | (k, a) :: as, (l, b) :: bs =>
    simp [beqEntries, beq_iff a b, beqEntries_iff as bs]

end

instance : DecidableEq QueryValue := fun a b => decidable_of_iff (beq a b = true) (beq_iff a b)

mutual

def fromKernel : Value → QueryValue
  | .null => .null
  | .boolean value => .boolean value
  | .integer value => .integer value
  | .floatBits value => .floatBits value
  | .bytes value => .bytes value
  | .string value => .string value
  | .list values => .list (fromKernelList values)
  | .map entries => .map (fromKernelEntries entries)

def fromKernelList : List Value → List QueryValue
  | [] => []
  | value :: values => fromKernel value :: fromKernelList values

def fromKernelEntries : List (String × Value) → List (String × QueryValue)
  | [] => []
  | (name, value) :: entries => (name, fromKernel value) :: fromKernelEntries entries

end

section Size

variable (vertexBytes : VertexVersion → ℕ) (edgeBytes : EdgeVersion → ℕ)

mutual

/-- The size of a value, given the sizes of the elements in it. -/
def bytesWith : QueryValue → ℕ
  | .null => 1
  | .boolean _ => 1
  | .integer _ => 8
  | .floatBits _ => 8
  | .bytes value => value.length
  | .string value => (utf8 value).length
  | .list values => listBytesWith values
  | .map entries => entriesBytesWith entries
  | .vertex row => vertexBytes row
  | .relationship row => edgeBytes row

def listBytesWith : List QueryValue → ℕ
  | [] => 0
  | value :: values => bytesWith value + listBytesWith values

def entriesBytesWith : List (String × QueryValue) → ℕ
  | [] => 0
  | (name, value) :: entries => (utf8 name).length + bytesWith value + entriesBytesWith entries

end

end Size

/-- The size of stored properties; a property holds no element of the graph. -/
def propertiesBytes (properties : ValueMap) : ℕ :=
  entriesBytesWith (fun _ => 0) (fun _ => 0) (fromKernelEntries properties.entries)

def estimatedBytes : QueryValue → ℕ :=
  bytesWith (fun row => 64 + propertiesBytes row.properties)
    (fun row => 96 + (utf8 row.edgeType).length + propertiesBytes row.properties)

/-- The type of a value; in a list every item may also be null. -/
def matchesType : QueryValue → LogicalType → Bool → Bool
  | .null, dataType, nullable => nullable || dataType = .null || dataType = .any
  | _, .any, _ => true
  | .boolean _, .boolean, _ => true
  | .integer _, .integer, _ => true
  | .floatBits _, .float, _ => true
  | .bytes _, .bytes, _ => true
  | .string _, .string, _ => true
  | .map _, .map, _ => true
  | .vertex _, .vertex, _ => true
  | .relationship _, .relationship, _ => true
  | .list values, .list item, _ => values.all fun value => value.matchesType item true
  | _, _, _ => false
termination_by structural _ dataType => dataType

end QueryValue

inductive QueryError where
  | invalidBatch (message : String)
  | invalidPlan (message : String)
  | rowBudget
  | scanBudget
  | memoryBudget
  | spillBudget
  | cancelled
  | deadline
  | snapshotDrift
  | capabilityDrift
  | missingStorage (shardId : ShardId)
  | providerViolation (message : String)
  | unsupported (message : String)
  | storage (message : String)
deriving DecidableEq, Repr

def QueryError.ofStorage (error : StorageError) : QueryError := .storage error.message

/-! ## Batches -/

/-- The columns fit the schema: one for each field, all of one length, with values of
the field's type. -/
structure ColumnBatch where
  schema : RowSchema
  columns : List (List QueryValue)
  rowCount : ℕ
  width : schema.fields.length = columns.length
  height : ∀ column ∈ columns, column.length = rowCount
  typed : ∀ entry ∈ schema.fields.zip columns, ∀ value ∈ entry.2,
    value.matchesType entry.1.dataType entry.1.nullable = true

namespace ColumnBatch

def firstLength : List (List QueryValue) → ℕ
  | [] => 0
  | column :: _ => column.length

def columnFits (entry : Field × List QueryValue) : Bool :=
  entry.2.all fun value => value.matchesType entry.1.dataType entry.1.nullable

def tryNew (schema : RowSchema) (columns : List (List QueryValue)) :
    Except QueryError ColumnBatch :=
  if hwidth : schema.fields.length = columns.length then
    if hheight : ∀ column ∈ columns, column.length = firstLength columns then
      match hbad : (schema.fields.zip columns).find? fun entry => !columnFits entry with
      | some entry => .error (.invalidBatch
          ("column " ++ reprStr entry.1.name ++ " contains a value outside its logical type"))
      | none => .ok ⟨schema, columns, firstLength columns, hwidth, hheight, by
          intro entry hentry value hvalue
          have hfits : columnFits entry = true := by
            simpa using List.find?_eq_none.mp hbad entry hentry
          exact List.all_eq_true.mp hfits value hvalue⟩
    else .error (.invalidBatch "column lengths are inconsistent")
  else .error (.invalidBatch "column count does not match schema")

theorem tryNew_eq (batch : ColumnBatch) (h : batch.rowCount = firstLength batch.columns) :
    tryNew batch.schema batch.columns = .ok batch := by
  obtain ⟨schema, columns, rowCount, hwidth, hheight, htyped⟩ := batch
  change rowCount = firstLength columns at h
  subst h
  rw [tryNew, dif_pos hwidth, dif_pos hheight]
  split
  · rename_i entry hfind
    have hfits : columnFits entry = true :=
      List.all_eq_true.mpr (htyped entry (List.mem_of_find?_eq_some hfind))
    have hbad := List.find?_some hfind
    rw [hfits] at hbad
    cases hbad
  · rfl

def pushRow (columns : List (List QueryValue)) (row : List QueryValue) : List (List QueryValue) :=
  columns.zipWith (fun column value => column ++ [value]) row

def fromRows (schema : RowSchema) (rows : List (List QueryValue)) :
    Except QueryError ColumnBatch :=
  if rows.any fun row => row.length ≠ schema.fields.length then
    .error (.invalidBatch "row width does not match schema")
  else tryNew schema (rows.foldl pushRow (List.replicate schema.fields.length []))

def rows (batch : ColumnBatch) : List (List QueryValue) :=
  (List.range batch.rowCount).map fun row => batch.columns.filterMap (·[row]?)

/-! A batch of one column is built from its values and gives them back. -/

theorem foldl_pushRow_singletons (values column : List QueryValue) :
    (values.map ([·])).foldl pushRow [column] = [column ++ values] := by
  induction values generalizing column with
  | nil => simp
  | cons value values ih =>
    change (values.map ([·])).foldl pushRow [column ++ [value]] = _
    rw [ih, List.append_assoc]
    rfl

theorem fromRows_singletons {field : Field} {values : List QueryValue}
    (h : ∀ value ∈ values, value.matchesType field.dataType field.nullable = true) :
    ∃ batch, fromRows ⟨[field]⟩ (values.map ([·])) = .ok batch ∧
      batch.rows = values.map ([·]) := by
  have hwidths : ((values.map ([·])).any fun row => row.length ≠ (RowSchema.mk [field]).fields.length)
      = false := by
    simp
  have hcolumns : (values.map ([·])).foldl pushRow
      (List.replicate (RowSchema.mk [field]).fields.length []) = [values] :=
    foldl_pushRow_singletons values []
  have htyped : ∀ entry ∈ (RowSchema.mk [field]).fields.zip [values], ∀ value ∈ entry.2,
      value.matchesType entry.1.dataType entry.1.nullable = true := by
    intro entry hentry
    obtain rfl := List.mem_singleton.mp hentry
    exact h
  refine ⟨⟨⟨[field]⟩, [values], values.length, rfl, by simp, htyped⟩, ?_, ?_⟩
  · rw [fromRows, hwidths, if_neg Bool.false_ne_true, hcolumns]
    exact tryNew_eq ⟨⟨[field]⟩, [values], values.length, rfl, by simp, htyped⟩ rfl
  · refine List.ext_getElem (by simp [rows]) fun i hi _ => ?_
    have hlt : i < values.length := by simpa [rows] using hi
    simp [rows, hlt]

end ColumnBatch

/-! ## Budgets -/

/-- The counters of a query that its source operators read.  The cancellation token and
the clock are read at every checkpoint. -/
structure QueryContext where
  cancelled : Bool
  expired : Bool
  maxRows : ℕ
  rows : ℕ
  maxScanBytes : ℕ
  scanBytes : ℕ

namespace QueryContext

variable {context : QueryContext} {rows : List QueryValue}

def checkpoint (context : QueryContext) : Except QueryError Unit :=
  if context.cancelled then .error .cancelled
  else if context.expired then .error .deadline
  else .ok ()

def remainingRows (context : QueryContext) : ℕ := context.maxRows - context.rows

/-- Fails if the sum leaves 64 bits or passes the maximum. -/
def charge (current amount maximum : ℕ) (error : QueryError) : Except QueryError ℕ :=
  if 2 ^ 64 ≤ current + amount then .error error
  else if maximum < current + amount then .error error
  else .ok (current + amount)

def chargeScanBytes (context : QueryContext) (bytes : ℕ) : Except QueryError QueryContext := do
  let scanBytes ← charge context.scanBytes bytes context.maxScanBytes .scanBudget
  .ok { context with scanBytes }

def chargeRows (context : QueryContext) (rows : List QueryValue) :
    Except QueryError QueryContext :=
  rows.foldlM (fun context value => do
    context.checkpoint
    context.chargeScanBytes value.estimatedBytes) context

/-- The bytes that reading the rows is charged for. -/
def bytesOf (rows : List QueryValue) : ℕ := (rows.map QueryValue.estimatedBytes).sum

def charged (context : QueryContext) (rows : List QueryValue) : QueryContext :=
  { context with scanBytes := context.scanBytes + bytesOf rows }

@[simp] theorem checkpoint_charged (context : QueryContext) (rows : List QueryValue) :
    (context.charged rows).checkpoint = context.checkpoint := rfl

theorem bytesOf_append (rows more : List QueryValue) :
    bytesOf (rows ++ more) = bytesOf rows + bytesOf more := by
  rw [bytesOf, List.map_append, List.sum_append]
  rfl

/-- The context is neither cancelled nor late and has room for the rows. -/
structure Allows (context : QueryContext) (rows : List QueryValue) : Prop where
  active : context.checkpoint = .ok ()
  within : context.scanBytes + bytesOf rows ≤ context.maxScanBytes
  representable : context.maxScanBytes < 2 ^ 64

theorem Allows.of_prefix {all : List QueryValue} (h : context.Allows all)
    (hstart : rows <+: all) : context.Allows rows := by
  obtain ⟨more, rfl⟩ := hstart
  have hwithin := h.within
  rw [bytesOf_append] at hwithin
  exact ⟨h.active, by omega, h.representable⟩

theorem Allows.charged {more : List QueryValue}
    (h : context.Allows (rows ++ more)) : (context.charged rows).Allows more := by
  have hwithin := h.within
  rw [bytesOf_append, ← Nat.add_assoc] at hwithin
  exact ⟨h.active, hwithin, h.representable⟩

theorem Allows.chargeRows_eq
    (h : context.Allows rows) : context.chargeRows rows = .ok (context.charged rows) := by
  induction rows generalizing context with
  | nil => rfl
  | cons value rows ih =>
    have hwithin := (h.of_prefix (List.prefix_append [value] rows)).within
    have hmax := h.representable
    have hcharge : context.chargeScanBytes value.estimatedBytes =
        .ok (context.charged [value]) := by
      rw [bytesOf, List.map_singleton, List.sum_singleton] at hwithin
      rw [chargeScanBytes, charge, if_neg (by omega), if_neg (by omega), QueryContext.charged,
        bytesOf, List.map_singleton, List.sum_singleton]
      rfl
    rw [chargeRows, List.foldlM_cons, h.active]
    rw [hcharge]
    change (context.charged [value]).chargeRows rows = _
    rw [ih (@Allows.charged context [value] rows h)]
    have hbytes := bytesOf_append [value] rows
    rw [List.singleton_append] at hbytes
    simp only [QueryContext.charged, hbytes, Nat.add_assoc]

end QueryContext

end DtgProxy.Query

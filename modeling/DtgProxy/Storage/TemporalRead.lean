import DtgProxy.Lib.Newest
import DtgProxy.Storage.ReadView

/-! # Temporal reads over a history

A read view holds the mutations a store has kept, as a list.  The version of an
element that is visible at a valid time and a transaction time is found by one
pass over the list that keeps the event with the greatest transaction time and
version; a tombstone is an event without a row.  The list reads (histories,
expansions and scans) are built from the same pass.
-/
namespace DtgProxy.Storage

open Kernel Lib Lib.Newest

/-! ## Requests -/

/-- A point read of one element: `VertexRead` and `EdgeRead`. -/
structure PointRead (ι : Type) where
  id : ι
  validAt : Int64
  transactionAt : TransactionTime

abbrev VertexRead := PointRead VertexId
abbrev EdgeRead := PointRead EdgeId

/-- The history of one element: `VertexHistoryRead` and `EdgeHistoryRead`. -/
structure HistoryRead (ι : Type) where
  id : ι
  transactionFrom : TransactionTime
  transactionThrough : TransactionTime
  limit : ℕ
  ordered : transactionFrom ≤ transactionThrough
  limit_ne_zero : limit ≠ 0

abbrev VertexHistoryRead := HistoryRead VertexId
abbrev EdgeHistoryRead := HistoryRead EdgeId

def HistoryRead.new {ι : Type} (id : ι) (transactionFrom transactionThrough : TransactionTime)
    (limit : ℕ) : Except StorageError (HistoryRead ι) :=
  if h : transactionThrough < transactionFrom ∨ limit = 0 then
    .error (.invalidMutation "history bounds must be ordered and nonempty")
  else
    .ok ⟨id, transactionFrom, transactionThrough, limit, not_lt.mp (not_or.mp h).1, (not_or.mp h).2⟩

def HistoryRead.includes {ι : Type} (request : HistoryRead ι) (time : TransactionTime) : Bool :=
  decide (request.transactionFrom ≤ time) && decide (time ≤ request.transactionThrough)

inductive AdjacencyDirection where
  | outgoing
  | incoming
  | both
deriving DecidableEq, Repr

structure AdjacencyRead where
  vertexId : VertexId
  direction : AdjacencyDirection
  validAt : Int64
  transactionAt : TransactionTime
  limit : ℕ
  limit_ne_zero : limit ≠ 0

def AdjacencyRead.new (vertexId : VertexId) (direction : AdjacencyDirection) (validAt : Int64)
    (transactionAt : TransactionTime) (limit : ℕ) : Except StorageError AdjacencyRead :=
  if h : limit = 0 then .error (.invalidMutation "adjacency limit must be nonzero")
  else .ok ⟨vertexId, direction, validAt, transactionAt, limit, h⟩

/-- An edge of the requested direction that is valid and committed at the times
of the request. -/
def AdjacencyRead.accepts (request : AdjacencyRead) (edge : EdgeVersion) : Bool :=
  (match request.direction with
    | .outgoing => decide (edge.source = request.vertexId)
    | .incoming => decide (edge.target = request.vertexId)
    | .both => decide (edge.source = request.vertexId) || decide (edge.target = request.vertexId)) &&
  edge.validTime.contains request.validAt && decide (edge.transactionTime ≤ request.transactionAt)

/-- A scan over all elements in the order of their identifiers: `VertexScan` and
`EdgeScan`. -/
structure ScanRead (ι : Type) where
  validAt : Int64
  transactionAt : TransactionTime
  after : Option ι
  limit : ℕ
  limit_ne_zero : limit ≠ 0

abbrev VertexScan := ScanRead VertexId
abbrev EdgeScan := ScanRead EdgeId

def ScanRead.new {ι : Type} (validAt : Int64) (transactionAt : TransactionTime) (after : Option ι)
    (limit : ℕ) : Except StorageError (ScanRead ι) :=
  if h : limit = 0 then .error (.invalidMutation "scan limit must be nonzero")
  else .ok ⟨validAt, transactionAt, after, limit, h⟩

/-- What a pushdown reads; the provider runs it. -/
inductive PushdownOperation where
  | vertex (read : VertexRead)
  | vertexScan (scan : VertexScan)

structure ScanPage (ι ρ : Type) where
  rows : List ρ
  nextAfter : Option ι
deriving DecidableEq

/-! ## The two kinds of elements -/

/-- How the mutations of one kind of element are read: the row a put writes, and
the identifier, time and version of a tombstone. -/
structure ElementKind (ι ρ : Type) where
  put : LogicalMutation → Option ρ
  tombstone : LogicalMutation → Option (ι × TransactionTime × UInt64)
  id : ρ → ι
  transactionTime : ρ → TransactionTime
  version : ρ → UInt64
  validTime : ρ → ValidInterval

def vertices : ElementKind VertexId VertexVersion where
  put
    | .putVertex vertex => some vertex
    | _ => none
  tombstone
    | .deleteVertex tombstone => some (tombstone.id, tombstone.transactionTime, tombstone.version)
    | _ => none
  id := VertexVersion.id
  transactionTime := VertexVersion.transactionTime
  version := VertexVersion.version
  validTime := VertexVersion.validTime

def edges : ElementKind EdgeId EdgeVersion where
  put
    | .putEdge edge => some edge
    | _ => none
  tombstone
    | .deleteEdge tombstone => some (tombstone.id, tombstone.transactionTime, tombstone.version)
    | _ => none
  id := EdgeVersion.id
  transactionTime := EdgeVersion.transactionTime
  version := EdgeVersion.version
  validTime := EdgeVersion.validTime

/-- What a mutation says about a requested element: a row, or its deletion. -/
@[ext] structure Event (ρ : Type) where
  time : TransactionTime
  version : UInt64
  row : Option ρ
deriving DecidableEq

/-- Events are compared by transaction time and then by version. -/
def Event.rank {ρ : Type} (event : Event ρ) : TransactionTime ×ₗ ℕ :=
  toLex (event.time, event.version.toNat)

namespace ElementKind

variable {ι ρ : Type} [LinearOrder ι] (kind : ElementKind ι ρ)

/-- The event of a mutation for a point read, if it concerns the element and is
visible at the times of the read. -/
def event (request : PointRead ι) (mutation : LogicalMutation) : Option (Event ρ) :=
  match kind.put mutation with
  | some row =>
    if kind.id row = request.id ∧ kind.transactionTime row ≤ request.transactionAt ∧
        (kind.validTime row).contains request.validAt = true then
      some ⟨kind.transactionTime row, kind.version row, some row⟩
    else none
  | none =>
    match kind.tombstone mutation with
    | some (id, time, version) =>
      if id = request.id ∧ time ≤ request.transactionAt then some ⟨time, version, none⟩ else none
    | none => none

/-- The visible version of an element: `visible_vertex` and `visible_edge`. -/
def visible (history : List LogicalMutation) (request : PointRead ι) : Option ρ :=
  (newest Event.rank (history.filterMap (kind.event request))).bind Event.row

/-- The element a mutation puts or deletes. -/
def touched (mutation : LogicalMutation) : Option ι :=
  match kind.put mutation with
  | some row => some (kind.id row)
  | none => (kind.tombstone mutation).map (·.1)

/-- All elements of a history in the order of their identifiers: `vertex_ids`
and `edge_ids`. -/
def ids (history : List LogicalMutation) : List ι :=
  (history.filterMap kind.touched).dedup.insertionSort (· ≤ ·)

/-- The row of a mutation in the history of an element. -/
def historyRow (request : HistoryRead ι) (mutation : LogicalMutation) : Option ρ :=
  (kind.put mutation).filter fun row =>
    decide (kind.id row = request.id) && request.includes (kind.transactionTime row)

/-- Rows are sorted by transaction time and version. -/
def sortKey (row : ρ) : TransactionTime ×ₗ ℕ :=
  toLex (kind.transactionTime row, (kind.version row).toNat)

/-- `vertex_history` and `edge_history`. -/
def history (history : List LogicalMutation) (request : HistoryRead ι) : List ρ :=
  (sortBy kind.sortKey (history.filterMap (kind.historyRow request))).take request.limit

/-- The visible versions of the elements after the cursor. -/
def scanRows (history : List LogicalMutation) (request : ScanRead ι) : List ρ :=
  ((kind.ids history).filter fun id => request.after.all fun after => decide (after < id)).filterMap
    fun id => kind.visible history ⟨id, request.validAt, request.transactionAt⟩

/-- Cuts a page off the rows of a scan. -/
def page (rows : List ρ) (limit : ℕ) : ScanPage ι ρ :=
  ⟨rows.take limit,
    if limit < rows.length then (rows.take limit).getLast?.map kind.id else none⟩

end ElementKind

/-- The edges a vertex expands to, in the order of their identifiers. -/
def expandRows (history : List LogicalMutation) (request : AdjacencyRead) : List EdgeVersion :=
  ((edges.ids history).filterMap fun id =>
    edges.visible history ⟨id, request.validAt, request.transactionAt⟩).filter request.accepts

/-! ## What the reads depend on -/

namespace ElementKind

variable {ι ρ : Type} [LinearOrder ι] {kind : ElementKind ι ρ}
variable {history : List LogicalMutation}
variable {request : PointRead ι} {mutation : LogicalMutation} {event : Event ρ}

/-- An event with a row comes from a put of that row. -/
theorem event_some (h : kind.event request mutation = some event) {row : ρ}
    (hrow : event.row = some row) :
    kind.put mutation = some row ∧ kind.id row = request.id ∧
      event = ⟨kind.transactionTime row, kind.version row, some row⟩ := by
  unfold ElementKind.event at h
  split at h
  · rename_i found hput
    split_ifs at h with hif
    cases h
    cases hrow
    exact ⟨hput, hif.1, rfl⟩
  · split at h
    · split_ifs at h
      cases h
      cases hrow
    · cases h

theorem event_none (h : kind.event request mutation = some event) (hrow : event.row = none) :
    kind.put mutation = none ∧
      kind.tombstone mutation = some (request.id, event.time, event.version) := by
  unfold ElementKind.event at h
  split at h
  · split_ifs at h
    cases h
    cases hrow
  · rename_i hput
    refine ⟨hput, ?_⟩
    split at h
    · rename_i htomb
      split_ifs at h with hif
      cases h
      rw [htomb, hif.1]
    · cases h

theorem id_of_visible {row : ρ}
    (h : kind.visible history request = some row) : kind.id row = request.id := by
  obtain ⟨event, hnewest, hrow⟩ := Option.bind_eq_some_iff.mp h
  -- Any order of the history will do here; the positions give one.
  have hordered : history.zipIdx.Pairwise (fun a b => a.2 < b.2) := by
    rw [List.pairwise_iff_getElem]
    intro i j hi hj hij
    simpa using hij
  have hmap : history.filterMap (kind.event request) =
      history.zipIdx.filterMap (fun entry => kind.event request entry.1) := by
    conv_lhs => rw [← List.zipIdx_map_fst 0 history, List.filterMap_map]
    rfl
  rw [hmap] at hnewest
  obtain ⟨entry, -, hevent, -⟩ := newest_filterMap hordered hnewest
  exact (event_some hevent hrow).2.1

theorem mem_ids {id : ι} :
    id ∈ kind.ids history ↔ ∃ mutation ∈ history, kind.touched mutation = some id := by
  rw [ids, List.mem_insertionSort, List.mem_dedup, List.mem_filterMap]

theorem ids_ordered (history : List LogicalMutation) :
    (kind.ids history).Pairwise (· < ·) :=
  ((history.filterMap kind.touched).dedup.sortedLE_insertionSort.sortedLT_of_nodup
    ((List.perm_insertionSort _ _).nodup_iff.mpr (List.nodup_dedup _))).pairwise

/-- The identifiers depend on which mutations there are only. -/
theorem ids_congr {history' : List LogicalMutation}
    (h : ∀ mutation, (kind.touched mutation).isSome = true →
      (mutation ∈ history ↔ mutation ∈ history')) : kind.ids history = kind.ids history' := by
  refine List.Perm.eq_of_pairwise (fun a b _ _ hab hba => absurd hba (lt_asymm hab))
    (ids_ordered history) (ids_ordered history') ?_
  rw [List.perm_ext_iff_of_nodup ((ids_ordered history).imp ne_of_lt)
    ((ids_ordered history').imp ne_of_lt)]
  intro id
  rw [mem_ids, mem_ids]
  constructor
  · rintro ⟨mutation, hmem, htouched⟩
    exact ⟨mutation, (h mutation (by simp [htouched])).mp hmem, htouched⟩
  · rintro ⟨mutation, hmem, htouched⟩
    exact ⟨mutation, (h mutation (by simp [htouched])).mpr hmem, htouched⟩

/-- Rows found under ascending identifiers ascend. -/
theorem filterMap_visible_ordered {validAt : Int64} {transactionAt : TransactionTime} {ids : List ι}
    (h : ids.Pairwise (· < ·)) :
    (ids.filterMap fun id => kind.visible history ⟨id, validAt, transactionAt⟩).Pairwise
      (fun a b => kind.id a < kind.id b) := by
  rw [List.pairwise_filterMap]
  refine h.imp fun {i j} hij a ha b hb => ?_
  rw [id_of_visible ha, id_of_visible hb]
  exact hij

end ElementKind

end DtgProxy.Storage

import DtgProxy.Lib.Grouping
import DtgProxy.Storage.TemporalRead

/-! # Snapshot CSR

The edges of one snapshot in compressed rows.  The endpoints are numbered in the order of
their identifiers, every edge becomes an entry at its anchor, and the entries of one anchor
are the stretch of a sorted list between two offsets.
-/
namespace DtgProxy.Execution

open Kernel Storage Lib Lib.Newest Lib.Grouping

inductive CsrDirection where
  | outgoing
  | incoming
deriving DecidableEq, Repr

structure SnapshotCsrKey where
  clusterId : ClusterId
  graphId : GraphId
  shardId : ShardId
  placementEpoch : PlacementEpoch
  backendGeneration : BackendGeneration
  appliedIndex : ℕ
  transactionTime : TransactionTime
  validAt : Int64
  direction : CsrDirection
  schemaVersion : UInt32
  mappingGeneration : UInt32
deriving DecidableEq, Repr

namespace SnapshotCsrKey

def new (binding : ReplicaBinding) (appliedIndex : ℕ) (transactionTime : TransactionTime)
    (validAt : Int64) (direction : CsrDirection) : SnapshotCsrKey :=
  ⟨binding.clusterId, binding.graphId, binding.shardId, binding.placementEpoch,
    binding.backendGeneration, appliedIndex, transactionTime, validAt, direction,
    binding.layoutVersion, binding.contractVersion⟩

def withAppliedIndex (key : SnapshotCsrKey) (appliedIndex : ℕ) : SnapshotCsrKey :=
  { key with appliedIndex }

/-- The keys differ in the applied index at most. -/
def sameLineage (key other : SnapshotCsrKey) : Bool :=
  decide (key.withAppliedIndex other.appliedIndex = other)

theorem direction_of_sameLineage {key other : SnapshotCsrKey} (h : key.sameLineage other = true) :
    key.direction = other.direction := by
  rw [← of_decide_eq_true h]
  rfl

end SnapshotCsrKey

inductive SnapshotCsrError where
  | insufficientMemory (requested available : ℕ)
  | duplicateEdgeId (id : EdgeId)
  | localIdSpaceExceeded (vertices : ℕ)
  | sizeOverflow
  | missingVertex (id : VertexId)
  | invalidOverlay (reason : String)
  | nonContiguousOverlay (expected actual : ℕ)
  | overlayEntryLimitExceeded (entries available : ℕ)
deriving DecidableEq, Repr

namespace SnapshotCsrError

def isInsufficientMemory : SnapshotCsrError → Bool
  | .insufficientMemory .. => true
  | _ => false

def message : SnapshotCsrError → String
  | .insufficientMemory requested available =>
    "CSR needs " ++ toString requested ++ " bytes but only " ++ toString available ++
      " are admitted"
  | .duplicateEdgeId id => "duplicate CSR edge identity " ++ toString id.get
  | .localIdSpaceExceeded vertices =>
    "CSR local vertex id space exceeded by " ++ toString vertices ++ " vertices"
  | .sizeOverflow => "CSR size estimate overflowed"
  | .missingVertex id => "CSR dictionary omits vertex " ++ toString id.get
  | .invalidOverlay reason => "invalid CSR overlay: " ++ reason
  | .nonContiguousOverlay expected actual =>
    "CSR overlay expected index " ++ toString expected ++ " but received " ++ toString actual
  | .overlayEntryLimitExceeded entries available =>
    "CSR overlay retains " ++ toString entries ++ " entries but only " ++ toString available ++
      " are admitted"

end SnapshotCsrError

mutual

def estimatedValueBytes : Value → ℕ
  | .null => 1
  | .boolean _ => 2
  | .integer _ => 9
  | .floatBits _ => 9
  | .bytes value => 9 + value.length
  | .string value => 9 + value.utf8ByteSize
  | .list values => 9 + estimatedValuesBytes values
  | .map entries => 9 + estimatedEntriesBytes entries

def estimatedValuesBytes : List Value → ℕ
  | [] => 0
  | value :: values => estimatedValueBytes value + estimatedValuesBytes values

def estimatedEntriesBytes : List (String × Value) → ℕ
  | [] => 0
  | (name, value) :: entries =>
    name.utf8ByteSize + estimatedValueBytes value + estimatedEntriesBytes entries

end

def estimatedEdgeBytes (edge : EdgeVersion) : ℕ :=
  96 + edge.edgeType.utf8ByteSize + estimatedEntriesBytes edge.properties.entries

/-- A sum of sizes; every summand is added with a check, so only the total matters. -/
def checkedSize (size : ℕ) : Except SnapshotCsrError ℕ :=
  if size < 2 ^ 64 then .ok size else .error .sizeOverflow

def estimateRetainedBytes (vertices : List VertexId) (edges : List EdgeVersion) :
    Except SnapshotCsrError ℕ :=
  checkedSize (vertices.length * 16 + (vertices.length + 1) * 4 + edges.length * 8 +
    (edges.map estimatedEdgeBytes).sum)

/-! ## The compressed rows -/

structure AdjacencyEntry where
  neighbor : ℕ
  edgeRef : ℕ
deriving DecidableEq, Repr

structure SnapshotCsr where
  key : SnapshotCsrKey
  vertexIds : List VertexId
  offsets : List ℕ
  adjacency : List AdjacencyEntry
  edges : List EdgeVersion
  retainedBytes : ℕ
deriving DecidableEq, Repr

/-- The identifier of the first two neighbours that share one. -/
def repeatedId : List EdgeVersion → Option EdgeId
  | first :: second :: edges =>
    if first.id = second.id then some first.id else repeatedId (second :: edges)
  | _ => none

/-- The endpoints of the edges in the order of their identifiers. -/
def endpoints (edges : List EdgeVersion) : List VertexId :=
  (edges.flatMap fun edge => [edge.source, edge.target]).dedup.insertionSort (· ≤ ·)

namespace CsrDirection

def anchor (direction : CsrDirection) (edge : EdgeVersion) : VertexId :=
  match direction with
  | .outgoing => edge.source
  | .incoming => edge.target

def neighbor (direction : CsrDirection) (edge : EdgeVersion) : VertexId :=
  match direction with
  | .outgoing => edge.target
  | .incoming => edge.source

end CsrDirection

/-- The number of a vertex, by the dictionary and by the binary search alike. -/
def localId (vertexIds : List VertexId) (vertex : VertexId) : Except SnapshotCsrError ℕ :=
  if vertex ∈ vertexIds then .ok (vertexIds.idxOf vertex) else .error (.missingVertex vertex)

def adjacencyEntry (direction : CsrDirection) (vertexIds : List VertexId)
    (item : EdgeVersion × ℕ) : Except SnapshotCsrError (ℕ × AdjacencyEntry) := do
  let anchor ← localId vertexIds (direction.anchor item.1)
  let neighbor ← localId vertexIds (direction.neighbor item.1)
  .ok (anchor, ⟨neighbor, item.2⟩)

def entryOrder (entry : ℕ × AdjacencyEntry) : ℕ ×ₗ ℕ ×ₗ ℕ :=
  toLex (entry.1, toLex (entry.2.neighbor, entry.2.edgeRef))

abbrev Ascending (edges : List EdgeVersion) : Prop := edges.Pairwise fun a b => a.id < b.id

namespace SnapshotCsr

variable {edges : List EdgeVersion} {key : SnapshotCsrKey} {csr : SnapshotCsr}
variable {retainedBytes : ℕ} {edges' : List EdgeVersion}

/-- The rows of edges that are sorted by identifier. -/
def layOut (key : SnapshotCsrKey) (edges : List EdgeVersion) (retainedBytes : ℕ) :
    Except SnapshotCsrError SnapshotCsr := do
  let vertexIds := endpoints edges
  let entries ← edges.zipIdx.mapM (adjacencyEntry key.direction vertexIds)
  let entries := sortBy entryOrder entries
  .ok ⟨key, vertexIds, Grouping.offsets vertexIds.length (entries.map (·.1)), entries.map (·.2),
    edges, retainedBytes⟩

def build (key : SnapshotCsrKey) (edges : List EdgeVersion) (maxRetainedBytes : ℕ) :
    Except SnapshotCsrError SnapshotCsr :=
  let edges := sortBy EdgeVersion.id edges
  match repeatedId edges with
  | some id => .error (.duplicateEdgeId id)
  | none => do
    if 2 ^ 32 ≤ (endpoints edges).length then
      .error (.localIdSpaceExceeded (endpoints edges).length)
    else if 2 ^ 32 ≤ edges.length then .error .sizeOverflow
    else
      let retainedBytes ← estimateRetainedBytes (endpoints edges) edges
      if maxRetainedBytes < retainedBytes then
        .error (.insufficientMemory retainedBytes maxRetainedBytes)
      else layOut key edges retainedBytes

def resolve (csr : SnapshotCsr) (entry : AdjacencyEntry) : Option (VertexId × EdgeVersion) := do
  let vertex ← csr.vertexIds[entry.neighbor]?
  let edge ← csr.edges[entry.edgeRef]?
  some (vertex, edge)

def neighbors (csr : SnapshotCsr) (vertex : VertexId) :
    Except SnapshotCsrError (List (VertexId × EdgeVersion)) := do
  let place ← localId csr.vertexIds vertex
  let start := csr.offsets.getD place 0
  let stop := csr.offsets.getD (place + 1) 0
  .ok (((csr.adjacency.drop start).take (stop - start)).filterMap csr.resolve)

/-- The neighbours of a vertex; a vertex outside the dictionary has none. -/
def presentNeighbors (csr : SnapshotCsr) (vertex : VertexId) :
    Except SnapshotCsrError (List (VertexId × EdgeVersion)) :=
  match csr.neighbors vertex with
  | .error (.missingVertex _) => .ok []
  | result => result

def edgeById (csr : SnapshotCsr) (id : EdgeId) : Option EdgeVersion :=
  csr.edges.find? fun edge => edge.id = id

/-! ## What the rows hold -/

theorem mem_endpoints {vertex : VertexId} :
    vertex ∈ endpoints edges ↔ ∃ edge ∈ edges, vertex = edge.source ∨ vertex = edge.target := by
  rw [endpoints, List.mem_insertionSort, List.mem_dedup, List.mem_flatMap]
  simp

/-- The entry of an edge whose endpoints are numbered. -/
def entryOf (direction : CsrDirection) (vertexIds : List VertexId) (item : EdgeVersion × ℕ) :
    ℕ × AdjacencyEntry :=
  (vertexIds.idxOf (direction.anchor item.1), ⟨vertexIds.idxOf (direction.neighbor item.1), item.2⟩)

theorem anchor_mem_endpoints (direction : CsrDirection) {edge : EdgeVersion} (h : edge ∈ edges) :
    direction.anchor edge ∈ endpoints edges :=
  mem_endpoints.mpr ⟨edge, h, by cases direction <;> simp [CsrDirection.anchor]⟩

theorem neighbor_mem_endpoints (direction : CsrDirection) {edge : EdgeVersion} (h : edge ∈ edges) :
    direction.neighbor edge ∈ endpoints edges :=
  mem_endpoints.mpr ⟨edge, h, by cases direction <;> simp [CsrDirection.neighbor]⟩

/-- The edges and their places in the order of their entries. -/
def rowItems (direction : CsrDirection) (edges : List EdgeVersion) : List (EdgeVersion × ℕ) :=
  sortBy (fun item => entryOrder (entryOf direction (endpoints edges) item)) edges.zipIdx

theorem mem_rowItems {direction : CsrDirection} {item : EdgeVersion × ℕ} :
    item ∈ rowItems direction edges ↔ item ∈ edges.zipIdx :=
  (sortBy_perm _).mem_iff

/-- The items of the edges at a vertex. -/
def rowAt (direction : CsrDirection) (edges : List EdgeVersion) (vertex : VertexId) :
    List (EdgeVersion × ℕ) :=
  (rowItems direction edges).filter fun item => direction.anchor item.1 = vertex

theorem layOut_eq (key : SnapshotCsrKey) (edges : List EdgeVersion) (retainedBytes : ℕ) :
    layOut key edges retainedBytes =
      let entry := entryOf key.direction (endpoints edges)
      .ok ⟨key, endpoints edges, Grouping.offsets (endpoints edges).length
        ((rowItems key.direction edges).map fun item => (entry item).1),
        (rowItems key.direction edges).map fun item => (entry item).2, edges, retainedBytes⟩ := by
  have hentries : edges.zipIdx.mapM (adjacencyEntry key.direction (endpoints edges)) =
      .ok (edges.zipIdx.map (entryOf key.direction (endpoints edges))) := by
    refine Result.mapM_eq_ok_map fun item hitem => ?_
    have hedge : item.1 ∈ edges := List.fst_mem_of_mem_zipIdx hitem
    rw [adjacencyEntry, localId, if_pos (anchor_mem_endpoints _ hedge), localId,
      if_pos (neighbor_mem_endpoints _ hedge)]
    rfl
  rw [layOut, hentries]
  simp only [Bind.bind, Except.bind, ← map_sortBy, List.map_map]
  rfl

theorem ascending_of_repeatedId (hsorted : edges.Pairwise fun a b => a.id ≤ b.id)
    (h : repeatedId edges = none) : Ascending edges := by
  fun_induction repeatedId edges with
  | case1 => cases h
  | case2 first second edges hne ih =>
    rw [List.pairwise_cons] at hsorted
    have hrest := ih hsorted.2 h
    have hfirst : first.id < second.id := lt_of_le_of_ne (hsorted.1 _ List.mem_cons_self) hne
    refine List.pairwise_cons.mpr ⟨List.forall_mem_cons.mpr ⟨hfirst, fun edge hedge => ?_⟩, hrest⟩
    exact hfirst.trans ((List.pairwise_cons.mp hrest).1 edge hedge)
  | case3 edges hshort =>
    match edges with
    | [] => exact List.Pairwise.nil
    | [_] => exact List.pairwise_singleton _ _
    | first :: second :: edges => exact absurd rfl (hshort first second edges)

theorem build_eq_ok {maxRetainedBytes : ℕ} (h : build key edges maxRetainedBytes = .ok csr) :
    Ascending (sortBy EdgeVersion.id edges) ∧
      ∃ retainedBytes, layOut key (sortBy EdgeVersion.id edges) retainedBytes = .ok csr := by
  unfold build at h
  simp only at h
  split at h
  · cases h
  · rename_i hdistinct
    split_ifs at h
    obtain ⟨retainedBytes, -, h⟩ := Result.bind_eq_ok.mp h
    split_ifs at h
    exact ⟨ascending_of_repeatedId (List.pairwise_insertionSort _ _) hdistinct, retainedBytes, h⟩

theorem repeatedId_eq_none (h : (edges.map EdgeVersion.id).Nodup) : repeatedId edges = none := by
  fun_induction repeatedId edges with
  | case1 first second edges heq => simp [heq] at h
  | case2 first second edges hne ih => exact ih (List.nodup_cons.mp h).2
  | case3 => rfl

/-- The numbers and the memory that edges in the order of their identifiers need. -/
def Fits (edges : List EdgeVersion) (maxRetainedBytes : ℕ) : Prop :=
  (endpoints edges).length < 2 ^ 32 ∧ edges.length < 2 ^ 32 ∧
    ∃ bytes, estimateRetainedBytes (endpoints edges) edges = .ok bytes ∧ bytes ≤ maxRetainedBytes

theorem build_isOk_iff {maxRetainedBytes : ℕ} :
    (∃ csr, build key edges maxRetainedBytes = .ok csr) ↔
      (edges.map EdgeVersion.id).Nodup ∧ Fits (sortBy EdgeVersion.id edges) maxRetainedBytes := by
  have hperm : (sortBy EdgeVersion.id edges).Perm edges := sortBy_perm edges
  have hids := (hperm.map EdgeVersion.id).nodup_iff
  constructor
  · rintro ⟨csr, h⟩
    have hordered := (build_eq_ok h).1
    refine ⟨hids.mp (List.pairwise_map.mpr (hordered.imp ne_of_lt)), ?_⟩
    unfold build at h
    simp only at h
    split at h
    · cases h
    · split_ifs at h with hvertices hedges
      obtain ⟨bytes, hbytes, h⟩ := Result.bind_eq_ok.mp h
      split_ifs at h with hbudget
      exact ⟨not_le.mp hvertices, not_le.mp hedges, bytes, hbytes, not_lt.mp hbudget⟩
  · rintro ⟨hnodup, hvertices, hedges, bytes, hbytes, hbudget⟩
    rw [build, repeatedId_eq_none (hids.mpr hnodup)]
    simp only [if_neg (not_le.mpr hvertices), if_neg (not_le.mpr hedges), hbytes]
    exact ⟨_, (if_neg (not_lt.mpr hbudget)).trans (layOut_eq ..)⟩

theorem resolve_entryOf (h : layOut key edges retainedBytes = .ok csr) {item : EdgeVersion × ℕ}
    (hitem : item ∈ edges.zipIdx) :
    csr.resolve (entryOf key.direction (endpoints edges) item).2 =
      some (key.direction.neighbor item.1, item.1) := by
  rw [layOut_eq] at h
  cases h
  have hneighbor := neighbor_mem_endpoints key.direction (List.fst_mem_of_mem_zipIdx hitem)
  have hedge : edges[item.2]? = some item.1 := List.mem_zipIdx_iff_getElem?.mp hitem
  simp [resolve, entryOf, hedge, List.getElem?_idxOf hneighbor]

/-- Between the two offsets of a vertex lie the entries at it. -/
theorem neighbors_eq (h : layOut key edges retainedBytes = .ok csr) {vertex : VertexId}
    (hvertex : vertex ∈ endpoints edges) :
    csr.neighbors vertex = .ok
      ((rowAt key.direction edges vertex).map
        fun item => (key.direction.neighbor item.1, item.1)) := by
  let number := fun item => (entryOf key.direction (endpoints edges) item).1
  have hplace : (endpoints edges).idxOf vertex < (endpoints edges).length :=
    List.idxOf_lt_length_of_mem hvertex
  have hsorted : (rowItems key.direction edges).Pairwise fun a b => number a ≤ number b :=
    (List.pairwise_insertionSort _ _).imp fun {a b} hab => Prod.Lex.monotone_fst
      (entryOrder (entryOf key.direction (endpoints edges) a)) (entryOrder (entryOf _ _ b)) hab
  have hoffset : ∀ place ≤ (endpoints edges).length,
      (Grouping.offsets (endpoints edges).length
        ((rowItems key.direction edges).map number)).getD place 0 =
          ((rowItems key.direction edges).map number).countP fun j => j < place := by
    intro place hle
    rw [List.getD_eq_getElem?_getD, getElem?_offsets hle, Option.getD_some]
  have hnumber : ∀ item ∈ rowItems key.direction edges,
      decide (number item = (endpoints edges).idxOf vertex) =
        decide (key.direction.anchor item.1 = vertex) := by
    intro item hitem
    have hanchor := anchor_mem_endpoints key.direction
      (List.fst_mem_of_mem_zipIdx (mem_rowItems.mp hitem))
    exact decide_eq_decide.mpr (List.idxOf_inj hanchor)
  have hresolve := fun item (hitem : item ∈ rowAt key.direction edges vertex) =>
    resolve_entryOf h (mem_rowItems.mp (List.mem_of_mem_filter hitem))
  rw [layOut_eq] at h
  cases h
  rw [neighbors, localId, if_pos hvertex]
  change Except.ok _ = _
  rw [hoffset _ hplace.le, hoffset _ hplace, ← List.map_drop, ← List.map_take,
    slice_eq_filter hsorted, List.filter_congr hnumber, List.filterMap_map]
  exact congrArg _ ((List.filterMap_congr hresolve).trans (congrFun List.filterMap_eq_map _))

theorem presentNeighbors_eq (h : layOut key edges retainedBytes = .ok csr) (vertex : VertexId) :
    csr.presentNeighbors vertex = .ok
      ((rowAt key.direction edges vertex).map
        fun item => (key.direction.neighbor item.1, item.1)) := by
  rw [presentNeighbors]
  by_cases hvertex : vertex ∈ endpoints edges
  · rw [neighbors_eq h hvertex]
  · have hnone : rowAt key.direction edges vertex = [] := by
      refine List.filter_eq_nil_iff.mpr fun item hitem hanchor => hvertex ?_
      rw [← of_decide_eq_true hanchor]
      exact anchor_mem_endpoints _ (List.fst_mem_of_mem_zipIdx (mem_rowItems.mp hitem))
    rw [hnone]
    rw [layOut_eq] at h
    cases h
    rw [neighbors, localId, if_neg hvertex]
    rfl

theorem idxOf_endpoints_lt {a b : VertexId} (ha : a ∈ endpoints edges) (hb : b ∈ endpoints edges)
    (h : (endpoints edges).idxOf a < (endpoints edges).idxOf b) : a < b := by
  have hsorted : (endpoints edges).Pairwise (· ≤ ·) := List.pairwise_insertionSort _ _
  have hle := List.pairwise_iff_getElem.mp hsorted _ _ (List.idxOf_lt_length_of_mem ha)
    (List.idxOf_lt_length_of_mem hb) h
  rw [List.getElem_idxOf, List.getElem_idxOf] at hle
  exact lt_of_le_of_ne hle fun heq => h.ne (by rw [heq])

/-- The edges at a vertex are in the order of their neighbours and then of their identifiers. -/
theorem rowItems_ordered (hordered : Ascending edges) (direction : CsrDirection)
    (vertex : VertexId) :
    (rowAt direction edges vertex).Pairwise fun a b =>
      toLex (direction.neighbor a.1, a.1.id) < toLex (direction.neighbor b.1, b.1.id) := by
  have hplaces : edges.zipIdx.Pairwise fun a b => a.2 < b.2 := by
    rw [← List.pairwise_map, List.zipIdx_map_snd]
    exact List.pairwise_lt_range'
  refine ((sortBy_lex hplaces).filter _).imp_of_mem fun {a b} ha hb hlt => ?_
  rw [rowAt, List.mem_filter, mem_rowItems, decide_eq_true_eq] at ha hb
  have hneighbor := neighbor_mem_endpoints direction (List.fst_mem_of_mem_zipIdx ha.1)
  have hneighbor' := neighbor_mem_endpoints direction (List.fst_mem_of_mem_zipIdx hb.1)
  simp only [Prod.Lex.toLex_lt_toLex, entryOrder, entryOf, ha.2, hb.2, lt_irrefl, false_or,
    true_and, EmbeddingLike.apply_eq_iff_eq, Prod.mk.injEq] at hlt ⊢
  rcases hlt with (hlt | ⟨heq, hlt⟩) | ⟨⟨-, heq⟩, hlt⟩
  · exact Or.inl (idxOf_endpoints_lt hneighbor hneighbor' hlt)
  · refine Or.inr ⟨(List.idxOf_inj hneighbor).mp heq, ?_⟩
    have hedge := List.mem_zipIdx_iff_getElem?.mp ha.1
    have hedge' := List.mem_zipIdx_iff_getElem?.mp hb.1
    rw [List.getElem?_eq_some_iff] at hedge hedge'
    obtain ⟨hplace, hedge⟩ := hedge
    obtain ⟨hplace', hedge'⟩ := hedge'
    rw [← hedge, ← hedge']
    exact List.pairwise_iff_getElem.mp hordered _ _ hplace hplace' hlt
  · exact absurd heq hlt.ne

/-- The neighbours of a vertex are the edges it is the anchor of, each once and in order. -/
theorem presentNeighbors_spec (hordered : Ascending edges)
    (h : layOut key edges retainedBytes = .ok csr) (vertex : VertexId) :
    ∃ found : List EdgeVersion, csr.presentNeighbors vertex =
        .ok (found.map fun edge => (key.direction.neighbor edge, edge)) ∧
      found.Perm (edges.filter fun edge => key.direction.anchor edge = vertex) ∧
      found.Pairwise fun a b =>
        toLex (key.direction.neighbor a, a.id) < toLex (key.direction.neighbor b, b.id) := by
  refine ⟨(rowAt key.direction edges vertex).map Prod.fst, ?_, ?_, ?_⟩
  · rw [presentNeighbors_eq h, List.map_map]
    rfl
  · refine (((sortBy_perm edges.zipIdx).filter _).map _).trans (List.Perm.of_eq ?_)
    nth_rewrite 2 [← List.zipIdx_map_fst 0 edges]
    rw [List.filter_map]
    rfl
  · exact List.pairwise_map.mpr (rowItems_ordered hordered _ _)

theorem neighbors_eq_present (h : layOut key edges retainedBytes = .ok csr) {vertex : VertexId}
    (hvertex : vertex ∈ endpoints edges) : csr.neighbors vertex = csr.presentNeighbors vertex := by
  rw [presentNeighbors_eq h, neighbors_eq h hvertex]

theorem mem_neighbors_iff {maxRetainedBytes : ℕ} (h : build key edges maxRetainedBytes = .ok csr)
    {vertex : VertexId} {edge : EdgeVersion} :
    (∃ rows, csr.neighbors vertex = .ok rows ∧ edge ∈ rows.map (·.2)) ↔
      edge ∈ edges ∧ key.direction.anchor edge = vertex := by
  obtain ⟨hordered, bytes, hlay⟩ := build_eq_ok h
  obtain ⟨found, hfound, hperm, -⟩ := presentNeighbors_spec hordered hlay vertex
  have hmem : edge ∈ found ↔ edge ∈ edges ∧ key.direction.anchor edge = vertex := by
    rw [hperm.mem_iff, List.mem_filter, (sortBy_perm edges).mem_iff, decide_eq_true_eq]
  rw [← hmem]
  constructor
  · rintro ⟨rows, hrows, hedge⟩
    rw [presentNeighbors, hrows, Except.ok.injEq] at hfound
    simpa [hfound] using hedge
  · intro hedge
    have hsorted : edge ∈ sortBy EdgeVersion.id edges :=
      (sortBy_perm edges).mem_iff.mpr (hmem.mp hedge).1
    have hvertex := anchor_mem_endpoints key.direction hsorted
    rw [(hmem.mp hedge).2] at hvertex
    exact ⟨_, (neighbors_eq_present hlay hvertex).trans hfound, by simpa using hedge⟩

/-- The neighbours of all vertices tell the edges. -/
theorem edges_subset_of_neighbors_eq {retainedBytes' : ℕ} {csr' : SnapshotCsr}
    (hordered : Ascending edges) (hordered' : Ascending edges')
    (h : layOut key edges retainedBytes = .ok csr) (h' : layOut key edges' retainedBytes' = .ok csr')
    (hsame : ∀ vertex, csr.neighbors vertex = csr'.neighbors vertex) : edges ⊆ edges' := by
  intro edge hedge
  obtain ⟨found, hfound, hperm, -⟩ := presentNeighbors_spec hordered h (key.direction.anchor edge)
  obtain ⟨found', hfound', hperm', -⟩ :=
    presentNeighbors_spec hordered' h' (key.direction.anchor edge)
  rw [presentNeighbors, hsame, ← presentNeighbors, hfound', Except.ok.injEq] at hfound
  have hrows : found' = found := by
    simpa [Function.comp_def] using congrArg (List.map Prod.snd) hfound
  have hmem : edge ∈ found := hperm.mem_iff.mpr (List.mem_filter.mpr ⟨hedge, by simp⟩)
  rw [← hrows, hperm'.mem_iff] at hmem
  exact List.mem_of_mem_filter hmem

theorem edges_of_layOut (h : layOut key edges retainedBytes = .ok csr) :
    csr.edges = edges ∧ csr.key = key := by
  rw [layOut_eq] at h
  cases h
  exact ⟨rfl, rfl⟩

/-- Edges with ascending identifiers are told by membership. -/
theorem ascending_eq_iff (hordered : Ascending edges) (hordered' : Ascending edges') :
    edges = edges' ↔ ∀ edge, edge ∈ edges ↔ edge ∈ edges' := by
  refine ⟨fun h edge => by rw [h], fun h => ?_⟩
  have hnodup : ∀ {xs : List EdgeVersion}, Ascending xs → xs.Nodup :=
    fun hxs => hxs.imp fun {a b} hlt heq => absurd hlt (by rw [heq]; exact lt_irrefl _)
  exact ((List.perm_ext_iff_of_nodup (hnodup hordered) (hnodup hordered')).mpr h).eq_of_pairwise
    (fun a b _ _ hab hba => absurd hba (lt_asymm hab)) hordered hordered'

/-- Two rows with ascending identifiers give every vertex the same neighbours exactly if
they hold the same edges. -/
theorem neighbors_eq_iff {maxRetainedBytes maxRetainedBytes' : ℕ} {csr' : SnapshotCsr}
    (hordered : Ascending edges) (hordered' : Ascending edges')
    (h : build key edges maxRetainedBytes = .ok csr)
    (h' : build key edges' maxRetainedBytes' = .ok csr') :
    (∀ vertex, csr.neighbors vertex = csr'.neighbors vertex) ↔ edges = edges' := by
  obtain ⟨-, bytes, hlay⟩ := build_eq_ok h
  obtain ⟨-, bytes', hlay'⟩ := build_eq_ok h'
  rw [sortBy_eq_self (hordered.imp le_of_lt)] at hlay
  rw [sortBy_eq_self (hordered'.imp le_of_lt)] at hlay'
  constructor
  · intro hsame
    exact (ascending_eq_iff hordered hordered').mpr fun edge =>
      ⟨fun hedge => edges_subset_of_neighbors_eq hordered hordered' hlay hlay' hsame hedge,
        fun hedge => edges_subset_of_neighbors_eq hordered' hordered hlay' hlay
          (fun v => (hsame v).symm) hedge⟩
  · rintro rfl vertex
    rw [layOut_eq] at hlay hlay'
    cases hlay
    cases hlay'
    rfl

end SnapshotCsr

end DtgProxy.Execution

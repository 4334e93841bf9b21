import DtgProxy.Execution.SnapshotCsr
import DtgProxy.Lib.Overlay

/-! # Committed overlays

An overlay follows the committed edge changes after the index of a snapshot CSR, one index
at a time.  It holds added edges, grouped by their anchor, and the tombstones of edges of the
base.  A step that fails on a size overflow leaves the overlay as it was; any other failure
invalidates it, and every later call on it is refused.
-/
namespace DtgProxy.Execution

open Kernel Storage Lib Lib.Overlay OrderedMap GroupedMap

inductive CommittedAdjacencyOperation where
  | add (edge : EdgeVersion)
  | remove (tombstone : EdgeTombstone)
deriving DecidableEq, Repr

def CommittedAdjacencyOperation.edgeId : CommittedAdjacencyOperation → EdgeId
  | .add edge => edge.id
  | .remove tombstone => tombstone.id

/-- The operations of one committed index; no edge occurs twice. -/
structure CommittedGraphDelta where
  key : SnapshotCsrKey
  operations : List CommittedAdjacencyOperation
  distinct : (operations.map CommittedAdjacencyOperation.edgeId).Nodup

def CommittedGraphDelta.new (key : SnapshotCsrKey)
    (operations : List CommittedAdjacencyOperation) :
    Except SnapshotCsrError CommittedGraphDelta :=
  if h : (operations.map CommittedAdjacencyOperation.edgeId).Nodup then .ok ⟨key, operations, h⟩
  else .error (.invalidOverlay "committed delta repeats an edge identity")

/-- Edges are compared by transaction time and then by version. -/
abbrev EdgeRank := TransactionTime ×ₗ ℕ

def edgeRank (edge : EdgeVersion) : EdgeRank := toLex (edge.transactionTime, edge.version.toNat)

def tombstoneRank (tombstone : EdgeTombstone) : EdgeRank :=
  toLex (tombstone.transactionTime, tombstone.version.toNat)

def edgeIsAtLeastAsNew (left right : EdgeVersion) : Bool :=
  decide (edgeRank right ≤ edgeRank left)

def tombstoneIsAtLeastAsNew (tombstone : EdgeTombstone) (edge : EdgeVersion) : Bool :=
  decide (edgeRank edge ≤ tombstoneRank tombstone)

def tombstoneIsAtLeastAsNewTombstone (left right : EdgeTombstone) : Bool :=
  decide (tombstoneRank right ≤ tombstoneRank left)

structure OverlayEntries where
  additions : OrderedMap VertexId (OrderedMap EdgeId EdgeVersion)
  removals : OrderedMap EdgeId EdgeTombstone

namespace OverlayEntries

def empty : OverlayEntries := ⟨∅, ∅⟩

def applyOperation (base : SnapshotCsr) (entries : OverlayEntries) :
    CommittedAdjacencyOperation → OverlayEntries
  | .add edge =>
    if entries.removals[edge.id]?.any fun tombstone => tombstoneIsAtLeastAsNew tombstone edge then
      entries
    else
      let removals := entries.removals.erase edge.id
      if (anyValue entries.additions fun edges =>
            edges[edge.id]?.any fun existing => edgeIsAtLeastAsNew existing edge) ||
          (base.edgeById edge.id).any fun existing => edgeIsAtLeastAsNew existing edge then
        ⟨entries.additions, removals⟩
      else
        ⟨put (strike entries.additions edge.id fun _ => true) (base.key.direction.anchor edge)
          edge.id edge, removals⟩
  | .remove tombstone =>
    let additions := strike entries.additions tombstone.id fun edge =>
      tombstoneIsAtLeastAsNew tombstone edge
    if (base.edgeById tombstone.id).any fun edge => tombstoneIsAtLeastAsNew tombstone edge then
      -- The newest tombstone of a base edge stays.
      if entries.removals[tombstone.id]?.all fun existing =>
          tombstoneIsAtLeastAsNewTombstone tombstone existing then
        ⟨additions, entries.removals.insert tombstone.id tombstone⟩
      else ⟨additions, entries.removals⟩
    else ⟨additions, entries.removals⟩

def estimateRetainedBytes (entries : OverlayEntries) : Except SnapshotCsrError ℕ :=
  checkedSize (((GroupedMap.entries entries.additions).map fun entry =>
      estimatedEdgeBytes entry.2).sum +
    entries.removals.toList.length * 16)

def entryCount (entries : OverlayEntries) : Except SnapshotCsrError ℕ :=
  checkedSize (entries.removals.toList.length + (GroupedMap.entries entries.additions).length)

/-- The edges of the base that are not removed, and the added ones over them. -/
def merged (base : SnapshotCsr) (entries : OverlayEntries) : OrderedMap EdgeId EdgeVersion :=
  ((GroupedMap.entries entries.additions).map fun entry => (entry.2.id, entry.2)).foldl
    (fun m entry => m.insert entry.1 entry.2)
    (((base.edges.filter fun edge => !entries.removals[edge.id]?.any fun tombstone =>
      tombstoneIsAtLeastAsNew tombstone edge).map fun edge => (edge.id, edge)).foldl
        (fun m entry => m.insert entry.1 entry.2) ∅)

def materialized (base : SnapshotCsr) (entries : OverlayEntries) : List EdgeVersion :=
  (merged base entries).toList.map (·.2)

end OverlayEntries

structure CommittedCsrOverlay where
  base : SnapshotCsr
  coveredThrough : ℕ
  entries : OverlayEntries
  retainedBytes : ℕ
  maxRetainedBytes : ℕ
  maxEntries : ℕ

namespace CommittedCsrOverlay

def withLimits (base : SnapshotCsr) (maxRetainedBytes maxEntries : ℕ) :
    Except SnapshotCsrError CommittedCsrOverlay :=
  if maxRetainedBytes = 0 ∨ maxEntries = 0 then .error (.invalidOverlay "overlay budget is zero")
  else .ok ⟨base, base.key.appliedIndex, .empty, 0, maxRetainedBytes, maxEntries⟩

def new (base : SnapshotCsr) (maxRetainedBytes : ℕ) :
    Except SnapshotCsrError CommittedCsrOverlay :=
  withLimits base maxRetainedBytes 4096

def apply (overlay : CommittedCsrOverlay) (delta : CommittedGraphDelta) :
    Except SnapshotCsrError CommittedCsrOverlay :=
  let expected := overlay.coveredThrough + 1
  if overlay.base.key.sameLineage delta.key = false then
    .error (.invalidOverlay "committed delta snapshot identity differs from the base")
  else if delta.key.appliedIndex ≠ expected then
    .error (.nonContiguousOverlay expected delta.key.appliedIndex)
  else do
    let entries := delta.operations.foldl (OverlayEntries.applyOperation overlay.base) overlay.entries
    let retainedBytes ← entries.estimateRetainedBytes
    let count ← entries.entryCount
    if overlay.maxEntries < count then
      .error (.overlayEntryLimitExceeded count overlay.maxEntries)
    else if overlay.maxRetainedBytes < retainedBytes then
      .error (.insufficientMemory retainedBytes overlay.maxRetainedBytes)
    else .ok { overlay with entries, retainedBytes, coveredThrough := expected }

def neighbors (overlay : CommittedCsrOverlay) (vertex : VertexId) (appliedIndex : ℕ) :
    Except SnapshotCsrError (List EdgeVersion) :=
  if appliedIndex ≠ overlay.coveredThrough then
    .error (.invalidOverlay "overlay does not exactly cover the requested index")
  else do
    let rows ← overlay.base.presentNeighbors vertex
    let kept := (rows.map (·.2)).filter fun edge =>
      (!overlay.entries.removals[edge.id]?.any fun tombstone =>
        tombstoneIsAtLeastAsNew tombstone edge) &&
        !anyValue overlay.entries.additions fun edges => edges[edge.id]?.isSome
    let edges : OrderedMap EdgeId EdgeVersion :=
      (kept.map fun edge => (edge.id, edge)).foldl (fun m entry => m.insert entry.1 entry.2) ∅
    let added := (overlay.entries.additions[vertex]?.getD ∅).toList
    .ok ((added.foldl (fun m entry => m.insert entry.1 entry.2) edges).toList.map (·.2))

def materialize (overlay : CommittedCsrOverlay) (key : SnapshotCsrKey) (maxRetainedBytes : ℕ) :
    Except SnapshotCsrError SnapshotCsr :=
  if overlay.base.key.sameLineage key = false ∨ key.appliedIndex ≠ overlay.coveredThrough then
    .error (.invalidOverlay "overlay does not exactly cover the materialized snapshot")
  else SnapshotCsr.build key (overlay.entries.materialized overlay.base) maxRetainedBytes

end CommittedCsrOverlay

/-! ## One edge of an overlay -/

namespace CommittedAdjacencyOperation

/-- What an operation means for an edge. -/
def mark (id : EdgeId) (operation : CommittedAdjacencyOperation) :
    Option (Mark EdgeVersion EdgeRank) :=
  if operation.edgeId = id then
    some (match operation with
      | .add edge => .put edge
      | .remove tombstone => .tombstone (tombstoneRank tombstone))
  else none

end CommittedAdjacencyOperation

namespace OverlayEntries

variable {edge : EdgeVersion}

/-- What the overlay remembers of an edge. -/
def remembered (entries : OverlayEntries) (id : EdgeId) : Overlay.State EdgeVersion EdgeRank :=
  ⟨find? entries.additions id, entries.removals[id]?.map tombstoneRank⟩

variable {base : SnapshotCsr} {entries : OverlayEntries}

/-- Added edges stand under their anchor and identifier, each once. -/
def Keyed (base : SnapshotCsr) (entries : OverlayEntries) : Prop :=
  Placed base.key.direction.anchor EdgeVersion.id entries.additions

open CommittedAdjacencyOperation

/-- An operation leaves what is remembered of other edges. -/
theorem remembered_of_ne (h : entries.Keyed base) {operation : CommittedAdjacencyOperation}
    {id : EdgeId} (hid : operation.edgeId ≠ id) :
    (entries.applyOperation base operation).remembered id = entries.remembered id := by
  cases operation with
  | add edge =>
    simp only [edgeId] at hid
    simp only [applyOperation]
    split_ifs
    · rfl
    · simp [remembered, lookup_erase, hid]
    · simp [remembered, lookup_erase, h.find?_replace edge, hid]
  | remove tombstone =>
    simp only [edgeId] at hid
    simp only [applyOperation]
    split_ifs <;> simp [remembered, h.find?_strike, lookup_insert, hid]

theorem remembered_add (h : entries.Keyed base) (edge : EdgeVersion) :
    (entries.applyOperation base (.add edge)).remembered edge.id =
      (entries.remembered edge.id).apply edgeRank (base.edgeById edge.id) (.put edge) := by
  simp only [applyOperation, State.apply, apply_ite (remembered · edge.id)]
  refine ite_congr ?_ (fun _ => rfl) fun _ => ite_congr ?_ (fun _ => ?_) fun _ => ?_
  · rw [remembered, Option.any_map]
    rfl
  · rw [h.anyValue_eq]
    rfl
  · simp [remembered]
  · simp [remembered, h.find?_replace edge]

theorem remembered_remove (h : entries.Keyed base) (tombstone : EdgeTombstone) :
    (entries.applyOperation base (.remove tombstone)).remembered tombstone.id =
      (entries.remembered tombstone.id).apply edgeRank (base.edgeById tombstone.id)
        (.tombstone (tombstoneRank tombstone)) := by
  have hadditions : find? (strike entries.additions tombstone.id _) tombstone.id = _ :=
    (h.find?_strike (tombstoneIsAtLeastAsNew tombstone) tombstone.id).trans (if_pos rfl)
  simp only [applyOperation, State.apply]
  ext1
  · refine Eq.trans ?_ hadditions
    split_ifs <;> rfl
  · simp only [apply_ite (remembered · tombstone.id), apply_ite State.removed]
    refine ite_congr rfl (fun _ => ite_congr ?_ (fun _ => ?_) fun _ => rfl) fun _ => rfl
    · rw [remembered, Option.all_map]
      rfl
    · simp [remembered]

/-- An operation changes what is remembered of its own edge only. -/
theorem remembered_applyOperation (h : entries.Keyed base)
    (operation : CommittedAdjacencyOperation) (id : EdgeId) :
    (entries.applyOperation base operation).remembered id =
      match operation.mark id with
      | some mark => (entries.remembered id).apply edgeRank (base.edgeById id) mark
      | none => entries.remembered id := by
  unfold mark
  by_cases hid : operation.edgeId = id
  · subst hid
    rw [if_pos rfl]
    cases operation with
    | add edge => exact remembered_add h edge
    | remove tombstone => exact remembered_remove h tombstone
  · rw [if_neg hid]
    exact remembered_of_ne h hid

theorem keyed_empty : empty.Keyed base := placed_empty

theorem Keyed.applyOperation (h : entries.Keyed base) (operation : CommittedAdjacencyOperation) :
    (entries.applyOperation base operation).Keyed base := by
  cases operation with
  | add edge =>
    simp only [OverlayEntries.applyOperation]
    split_ifs
    · exact h
    · exact h
    · exact h.replace edge
  | remove =>
    simp only [OverlayEntries.applyOperation]
    split_ifs <;> exact h.strike _ _

theorem Keyed.foldl (h : entries.Keyed base) (operations : List CommittedAdjacencyOperation) :
    (operations.foldl (OverlayEntries.applyOperation base) entries).Keyed base := by
  induction operations generalizing entries with
  | nil => exact h
  | cons operation operations ih => exact ih (h.applyOperation operation)

theorem remembered_foldl (h : entries.Keyed base) (operations : List CommittedAdjacencyOperation)
    (id : EdgeId) :
    (operations.foldl (applyOperation base) entries).remembered id =
      (operations.filterMap (·.mark id)).foldl (State.apply edgeRank (base.edgeById id))
        (entries.remembered id) := by
  induction operations generalizing entries with
  | nil => rfl
  | cons operation operations ih =>
    rw [List.foldl_cons, ih (h.applyOperation operation), remembered_applyOperation h]
    cases hmark : operation.mark id with
    | none => rw [List.filterMap_cons_none hmark]
    | some => rw [List.filterMap_cons_some hmark, List.foldl_cons]

/-! ## The edges of an overlay -/

variable {id : EdgeId}

theorem edgeById_eq_some_iff (hbase : Ascending base.edges) :
    base.edgeById id = some edge ↔ edge ∈ base.edges ∧ edge.id = id := by
  have hdistinct : (base.edges.map EdgeVersion.id).Nodup :=
    List.pairwise_map.mpr (hbase.imp ne_of_lt)
  constructor
  · intro h
    exact ⟨List.mem_of_find?_eq_some h, by simpa using List.find?_some h⟩
  · rintro ⟨hmem, hid⟩
    cases hfind : base.edgeById id with
    | none => exact absurd hid (by simpa using List.find?_eq_none.mp hfind edge hmem)
    | some other =>
      have hother : other.id = id := by simpa using List.find?_some hfind
      rw [List.inj_on_of_nodup_map hdistinct (List.mem_of_find?_eq_some hfind) hmem
        (hother.trans hid.symm)]

section Keyed

variable (h : entries.Keyed base) (hbase : Ascending base.edges)

include h hbase

theorem lookup_merged :
    (merged base entries)[id]? = some edge ↔
      (entries.remembered id).result edgeRank (base.edgeById id) = some edge := by
  have hadded : ((GroupedMap.entries entries.additions).map fun entry => (entry.2.id, entry.2)) =
      GroupedMap.entries entries.additions := by
    refine (List.map_congr_left fun entry hentry => ?_).trans (List.map_id _)
    exact Prod.ext (h.name_of_find? (h.mem_entries.mp hentry)) rfl
  have hkept : (((base.edges.filter fun edge => !entries.removals[edge.id]?.any fun tombstone =>
      tombstoneIsAtLeastAsNew tombstone edge).map fun edge => (edge.id, edge)).map
        Prod.fst).Nodup := by
    rw [List.map_map]
    exact List.pairwise_map.mpr ((hbase.filter _).imp ne_of_lt)
  have habsent : id ∉ (GroupedMap.entries entries.additions).map Prod.fst ↔
      find? entries.additions id = none := by
    simp [h.mem_entries, Option.eq_none_iff_forall_ne_some]
  rw [merged, hadded, lookup_foldl_insert _ _ h.nodup_entries, habsent,
    lookup_foldl_insert _ _ hkept, h.mem_entries,
    State.result, Option.or_eq_some_iff, Option.filter_eq_some_iff, edgeById_eq_some_iff hbase]
  refine or_congr_right (and_congr_right fun _ => ?_)
  simp only [List.mem_map, List.mem_filter, Prod.mk.injEq, remembered, Option.any_map,
    Std.ExtTreeMap.getElem?_empty, reduceCtorEq, and_false, or_false]
  constructor
  · rintro ⟨_, ⟨hmem, hremoved⟩, rfl, rfl⟩
    exact ⟨⟨hmem, rfl⟩, hremoved⟩
  · rintro ⟨⟨hmem, rfl⟩, hremoved⟩
    exact ⟨edge, ⟨hmem, hremoved⟩, rfl, rfl⟩

/-- An edge stands under its own identifier. -/
theorem id_of_lookup_merged (hget : (merged base entries)[id]? = some edge) : edge.id = id := by
  rw [lookup_merged h hbase, State.result, Option.or_eq_some_iff, Option.filter_eq_some_iff] at hget
  rcases hget with hadded | ⟨-, hfound, -⟩
  · exact h.name_of_find? hadded
  · exact ((edgeById_eq_some_iff hbase).mp hfound).2

/-- The overlay has exactly the edges that it remembers. -/
theorem mem_materialized :
    edge ∈ entries.materialized base ↔
      (entries.remembered edge.id).result edgeRank (base.edgeById edge.id) = some edge := by
  rw [materialized, ← lookup_merged h hbase, List.mem_map]
  constructor
  · rintro ⟨⟨id, _⟩, hentry, rfl⟩
    have hget := Std.ExtTreeMap.mem_toList_iff_getElem?_eq_some.mp hentry
    rw [id_of_lookup_merged h hbase hget]
    exact hget
  · intro hget
    exact ⟨(edge.id, edge), Std.ExtTreeMap.mem_toList_iff_getElem?_eq_some.mpr hget, rfl⟩

theorem materialized_ordered : Ascending (entries.materialized base) := by
  refine List.pairwise_map.mpr ((merged base entries).ordered_toList.imp_of_mem
    fun {a b} ha hb hlt => ?_)
  have hget := Std.ExtTreeMap.mem_toList_iff_getElem?_eq_some.mp ha
  have hget' := Std.ExtTreeMap.mem_toList_iff_getElem?_eq_some.mp hb
  rw [id_of_lookup_merged h hbase hget, id_of_lookup_merged h hbase hget']
  exact hlt

end Keyed

end OverlayEntries

/-! ## The neighbours under an overlay -/

namespace CommittedCsrOverlay

variable {key : SnapshotCsrKey} {edges : List EdgeVersion} {maxRetainedBytes : ℕ}
variable {overlay : CommittedCsrOverlay}

theorem apply_eq_ok {overlay overlay' : CommittedCsrOverlay}
    {delta : CommittedGraphDelta} (h : overlay.apply delta = .ok overlay') :
    overlay'.base = overlay.base ∧
      overlay'.entries =
        delta.operations.foldl (OverlayEntries.applyOperation overlay.base) overlay.entries := by
  unfold CommittedCsrOverlay.apply at h
  simp only at h
  split_ifs at h
  obtain ⟨retainedBytes, -, h⟩ := Result.bind_eq_ok.mp h
  obtain ⟨count, -, h⟩ := Result.bind_eq_ok.mp h
  split_ifs at h
  cases h
  exact ⟨rfl, rfl⟩

theorem keyed_of_applies {deltas : List CommittedGraphDelta} {start : CommittedCsrOverlay}
    (hstart : start.entries.Keyed start.base) (h : deltas.foldlM apply start = .ok overlay) :
    overlay.base = start.base ∧ overlay.entries.Keyed overlay.base := by
  refine Result.foldlM_invariant (fun s => s.base = start.base ∧ s.entries.Keyed s.base) ?_ deltas
    ⟨rfl, hstart⟩ h
  rintro s delta s' ⟨hbase, hkeyed⟩ happly
  obtain ⟨hbase', hentries⟩ := apply_eq_ok happly
  rw [hbase', hentries]
  exact ⟨hbase, hkeyed.foldl delta.operations⟩

theorem mem_neighbors (hkeyed : overlay.entries.Keyed overlay.base)
    (hbase : SnapshotCsr.build key edges maxRetainedBytes = .ok overlay.base) (vertex : VertexId) :
    ∃ found, overlay.neighbors vertex overlay.coveredThrough = .ok found ∧ ∀ edge, edge ∈ found ↔
      edge ∈ overlay.entries.materialized overlay.base ∧ key.direction.anchor edge = vertex := by
  obtain ⟨hordered, bytes, hlay⟩ := SnapshotCsr.build_eq_ok hbase
  obtain ⟨rows, hrows, hperm, -⟩ := SnapshotCsr.presentNeighbors_spec hordered hlay vertex
  obtain ⟨hedges, hkey⟩ := SnapshotCsr.edges_of_layOut hlay
  have hids : (rows.map EdgeVersion.id).Nodup :=
    (hperm.map _).nodup_iff.mpr (List.pairwise_map.mpr ((hordered.filter _).imp ne_of_lt))
  have hadded : ((overlay.entries.additions[vertex]?.getD ∅).toList.map Prod.fst).Nodup :=
    List.pairwise_map.mpr ((OrderedMap.ordered_toList _).imp ne_of_lt)
  have hkept : ∀ p : EdgeVersion → Bool,
      (((rows.filter p).map fun edge => (edge.id, edge)).map Prod.fst).Nodup := by
    intro p
    rw [List.map_map]
    exact hids.sublist (List.filter_sublist.map _)
  rw [← hedges] at hordered hperm
  rw [neighbors, if_neg (not_not.mpr rfl), hrows]
  refine ⟨_, rfl, fun edge => ?_⟩
  simp only [List.map_map, Function.comp_def, List.map_id', mem_values,
    lookup_foldl_insert _ _ hadded, lookup_foldl_insert _ _ (hkept _)]
  rw [OverlayEntries.mem_materialized hkeyed hordered, State.result, Option.or_eq_some_iff,
    Option.filter_eq_some_iff, OverlayEntries.edgeById_eq_some_iff hordered]
  simp only [List.mem_filter, List.mem_map, hperm.mem_iff, OverlayEntries.remembered, lookup_getD,
    Std.ExtTreeMap.mem_toList_iff_getElem?_eq_some, decide_eq_true_eq, Bool.and_eq_true,
    hkeyed.at?_iff, hkeyed.anyValue_isSome, hkey, Option.any_map, Option.not_isSome,
    Option.isNone_iff_eq_none]
  constructor
  · rintro ⟨id, ⟨hget, hanchor⟩ | ⟨-, ⟨_, ⟨⟨hmem, hanchor⟩, hremoved, hnone⟩, heq⟩ | ⟨-, hget⟩⟩⟩
    · have hid := hkeyed.name_of_find? hget
      subst hid
      exact ⟨Or.inl hget, hanchor⟩
    · cases heq
      exact ⟨Or.inr ⟨hnone, ⟨hmem, trivial⟩, hremoved⟩, hanchor⟩
    · simp at hget
  · rintro ⟨hget | ⟨hnone, ⟨hmem, -⟩, hremoved⟩, hanchor⟩
    · exact ⟨edge.id, Or.inl ⟨hget, hanchor⟩⟩
    · refine ⟨edge.id, Or.inr ⟨?_, Or.inl ⟨edge, ⟨⟨hmem, hanchor⟩, hremoved, hnone⟩, rfl⟩⟩⟩
      rintro ⟨⟨id, added⟩, hget, rfl⟩
      rw [Std.ExtTreeMap.mem_toList_iff_getElem?_eq_some, lookup_getD, hkeyed.at?_iff, hnone] at hget
      cases hget.1

theorem materialize_isOk_iff (hkeyed : overlay.entries.Keyed overlay.base)
    (hordered : Ascending overlay.base.edges) :
    (∃ copy, overlay.materialize key maxRetainedBytes = .ok copy) ↔
      overlay.base.key.sameLineage key = true ∧ key.appliedIndex = overlay.coveredThrough ∧
        SnapshotCsr.Fits (overlay.entries.materialized overlay.base) maxRetainedBytes := by
  have hmerged := OverlayEntries.materialized_ordered hkeyed hordered
  have hids : ((overlay.entries.materialized overlay.base).map EdgeVersion.id).Nodup :=
    List.pairwise_map.mpr (hmerged.imp ne_of_lt)
  unfold materialize
  split_ifs with hrefused
  · refine iff_of_false (fun ⟨_, h⟩ => nomatch h) fun h => ?_
    rcases hrefused with hlineage | hindex
    · rw [h.1] at hlineage
      cases hlineage
    · exact hindex h.2.1
  · rw [not_or, Bool.not_eq_false, not_not] at hrefused
    rw [SnapshotCsr.build_isOk_iff, Newest.sortBy_eq_self (hmerged.imp le_of_lt),
      and_iff_right hids, and_iff_right hrefused.1, and_iff_right hrefused.2]

/-- A list of edges is refused exactly when an identifier repeats or it is too large.  The rows
of any other list give a vertex of it the edges it is the anchor of, each once, by neighbour and
identifier.  Whatever an overlay on the rows has followed, the copy it is written out to gives
every vertex the edges that the overlay gives, and only its size can keep it from being made. -/
theorem neighbors_enumerate (key : SnapshotCsrKey) (edges : List EdgeVersion)
    (maxRetainedBytes : ℕ) :
    ((∃ csr, SnapshotCsr.build key edges maxRetainedBytes = .ok csr) ↔
      (edges.map EdgeVersion.id).Nodup ∧
        SnapshotCsr.Fits (Newest.sortBy EdgeVersion.id edges) maxRetainedBytes) ∧
    ∀ csr, SnapshotCsr.build key edges maxRetainedBytes = .ok csr →
      (∀ vertex, (∃ edge ∈ edges, vertex = edge.source ∨ vertex = edge.target) →
        ∃ found : List EdgeVersion, csr.neighbors vertex =
            .ok (found.map fun edge => (key.direction.neighbor edge, edge)) ∧
          found.Perm (edges.filter fun edge => key.direction.anchor edge = vertex) ∧
          found.Pairwise fun a b =>
            toLex (key.direction.neighbor a, a.id) < toLex (key.direction.neighbor b, b.id)) ∧
      ∀ maxBytes maxEntries (deltas : List CommittedGraphDelta) (start overlay : CommittedCsrOverlay),
        withLimits csr maxBytes maxEntries = .ok start → deltas.foldlM apply start = .ok overlay →
          ∀ key' maxBytes',
            ((∃ copy, overlay.materialize key' maxBytes' = .ok copy) ↔
              csr.key.sameLineage key' = true ∧ key'.appliedIndex = overlay.coveredThrough ∧
                SnapshotCsr.Fits (overlay.entries.materialized csr) maxBytes') ∧
            ∀ copy, overlay.materialize key' maxBytes' = .ok copy →
              ∀ vertex, ∃ found, overlay.neighbors vertex overlay.coveredThrough = .ok found ∧
                ∀ edge, edge ∈ found ↔
                  ∃ rows, copy.neighbors vertex = .ok rows ∧ edge ∈ rows.map (·.2) := by
  refine ⟨SnapshotCsr.build_isOk_iff, fun csr h => ?_⟩
  obtain ⟨hordered, bytes, hlay⟩ := SnapshotCsr.build_eq_ok h
  obtain ⟨hedges, hkey⟩ := SnapshotCsr.edges_of_layOut hlay
  constructor
  · intro vertex hvertex
    obtain ⟨found, hfound, hperm, hpairwise⟩ :=
      SnapshotCsr.presentNeighbors_spec hordered hlay vertex
    have hperm' := hperm.trans ((Newest.sortBy_perm edges).filter _)
    refine ⟨found, ?_, hperm', hpairwise⟩
    rw [SnapshotCsr.neighbors_eq_present hlay, hfound]
    simpa [SnapshotCsr.mem_endpoints, (Newest.sortBy_perm edges).mem_iff] using hvertex
  · intro maxBytes maxEntries deltas start overlay hstart hrun key' maxBytes'
    have hstart : start.base = csr ∧ start.entries = .empty := by
      unfold withLimits at hstart
      split_ifs at hstart
      cases hstart
      exact ⟨rfl, rfl⟩
    obtain ⟨hbase, hkeyed⟩ := keyed_of_applies (hstart.2 ▸ OverlayEntries.keyed_empty) hrun
    obtain rfl : overlay.base = csr := hbase.trans hstart.1
    rw [← hedges] at hordered
    refine ⟨materialize_isOk_iff hkeyed hordered, fun copy hcopy vertex => ?_⟩
    obtain ⟨found, hfound, hmem⟩ := mem_neighbors hkeyed h vertex
    refine ⟨found, hfound, fun edge => ?_⟩
    unfold materialize at hcopy
    split_ifs at hcopy with hlineage
    rw [not_or, Bool.not_eq_false] at hlineage
    have hdirection := SnapshotCsrKey.direction_of_sameLineage hlineage.1
    rw [hkey] at hdirection
    rw [hmem, SnapshotCsr.mem_neighbors_iff hcopy, hdirection]

def sampleKey (appliedIndex : ℕ) : SnapshotCsrKey :=
  ⟨1, 1, 1, 1, 1, appliedIndex, 30, 0, .outgoing, 1, 1⟩

/-- The edge of the lower identifier has the higher neighbour. -/
def sampleEdges : List EdgeVersion :=
  [.plain 2 5 6 .decade 10, .plain 1 5 7 .decade 10, .plain 3 7 5 .decade 10]

/-- One edge of the base goes, and one comes in its place. -/
def sampleDelta : CommittedGraphDelta :=
  ⟨sampleKey 1, [.remove ⟨2, 1, 20⟩, .add (.plain 4 5 6 .decade 20)], by decide⟩

def sampleRows : SnapshotCsr :=
  ⟨sampleKey 0, [5, 6, 7], [0, 2, 2, 3], [⟨1, 1⟩, ⟨2, 0⟩, ⟨0, 2⟩],
    [.plain 1 5 7 .decade 10, .plain 2 5 6 .decade 10, .plain 3 7 5 .decade 10], 391⟩

def sampleCopy : SnapshotCsr :=
  ⟨sampleKey 1, [5, 6, 7], [0, 2, 2, 3], [⟨1, 2⟩, ⟨2, 0⟩, ⟨0, 1⟩],
    [.plain 1 5 7 .decade 10, .plain 3 7 5 .decade 10, .plain 4 5 6 .decade 20], 391⟩

theorem neighbors_enumerate_sample :
    SnapshotCsr.build (sampleKey 0) sampleEdges 4096 = .ok sampleRows ∧
      (∃ found : List EdgeVersion,
        sampleRows.neighbors 5 = .ok (found.map fun edge => (edge.target, edge)) ∧
          found.Perm [.plain 2 5 6 .decade 10, .plain 1 5 7 .decade 10] ∧
          found.Pairwise fun a b => toLex (a.target, a.id) < toLex (b.target, b.id)) ∧
      ∃ overlay, apply ⟨sampleRows, 0, .empty, 0, 4096, 8⟩ sampleDelta = .ok overlay ∧
        overlay.materialize (sampleKey 1) 4096 = .ok sampleCopy ∧
        ∃ found, overlay.neighbors 5 overlay.coveredThrough = .ok found ∧ ∀ edge,
          edge ∈ found ↔ ∃ rows, sampleCopy.neighbors 5 = .ok rows ∧ edge ∈ rows.map (·.2) := by
  have hbuild : SnapshotCsr.build (sampleKey 0) sampleEdges 4096 = .ok sampleRows := by
    decide +kernel
  have hrun : (apply ⟨sampleRows, 0, .empty, 0, 4096, 8⟩ sampleDelta >>= fun overlay =>
      overlay.materialize (sampleKey 1) 4096) = .ok sampleCopy := by
    decide +kernel
  obtain ⟨overlay, happly, hcopy⟩ := Result.bind_eq_ok.mp hrun
  obtain ⟨hrows, hcopies⟩ := (neighbors_enumerate (sampleKey 0) sampleEdges 4096).2 _ hbuild
  have happlies : [sampleDelta].foldlM apply ⟨sampleRows, 0, .empty, 0, 4096, 8⟩ = .ok overlay := by
    rw [List.foldlM_cons, happly]
    rfl
  exact ⟨hbuild, hrows 5 ⟨.plain 2 5 6 .decade 10, List.mem_cons_self, Or.inl rfl⟩, overlay, happly,
    hcopy, (hcopies 4096 8 _ _ _ rfl happlies (sampleKey 1) 4096).2 _ hcopy 5⟩

/-- An identifier that repeats is refused. -/
theorem build_refuses_repeated :
    SnapshotCsr.build (sampleKey 0) [.plain 1 5 6 .decade 10, .plain 1 6 7 .decade 20] 4096 =
      .error (.duplicateEdgeId 1) := by
  decide +kernel

end CommittedCsrOverlay

end DtgProxy.Execution

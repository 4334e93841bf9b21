import DtgProxy.Execution.SnapshotExtension
import DtgProxy.Storage.FjallVisibility

/-! # Extending a snapshot CSR against building it again

For every edge the overlay of an extension sees the marks of the changes after its base.
The rows it gives agree with those of a scan exactly when, for every edge, what it keeps is
what the rule of the two times shows of the whole history.
-/
namespace DtgProxy.Execution

open Kernel Storage Lib Lib.Newest Lib.Paging Lib.Overlay
open ElementKind CommittedAdjacencyOperation ReplicaStore ChangeRecord OverlayEntries

variable {edge : EdgeVersion}

/-! ## The marks on an edge -/

def SnapshotCsrKey.request (key : SnapshotCsrKey) (id : EdgeId) : EdgeRead :=
  ⟨id, key.validAt, key.transactionTime⟩

/-- The marks that changes leave on an edge at the times of a key. -/
def edgeMarks (key : SnapshotCsrKey) (changes : List ChangeRecord) (id : EdgeId) :
    List (Mark EdgeVersion EdgeRank) :=
  (changes.filterMap fun change => visibleOperation key change.mutation).filterMap (·.mark id)

def eventMark (event : Event EdgeVersion) : Mark EdgeVersion EdgeRank :=
  match event.row with
  | some edge => .put edge
  | none => .tombstone event.rank

/-- The operations of an extension are the events of a point read. -/
theorem mark_eq_event (key : SnapshotCsrKey) (id : EdgeId) (mutation : LogicalMutation) :
    (visibleOperation key mutation).bind (·.mark id) =
      (edges.event (key.request id) mutation).map eventMark := by
  cases mutation with
  | putEdge edge =>
    simp only [visibleOperation, event, edges, SnapshotCsrKey.request]
    by_cases hid : edge.id = id
    · split_ifs <;>
        simp_all [mark, edgeId, eventMark]
    · split_ifs <;>
        simp_all [mark, edgeId]
  | deleteEdge tombstone =>
    simp only [visibleOperation, event, edges, SnapshotCsrKey.request]
    by_cases hid : tombstone.id = id
    · split_ifs <;>
        simp_all [mark, edgeId, eventMark,
          Event.rank, tombstoneRank]
    · split_ifs <;>
        simp_all [mark, edgeId]
  | _ => rfl

theorem edgeMarks_append (key : SnapshotCsrKey) (changes more : List ChangeRecord) (id : EdgeId) :
    edgeMarks key (changes ++ more) id = edgeMarks key changes id ++ edgeMarks key more id := by
  simp [edgeMarks]

variable {key : SnapshotCsrKey} {changes : List ChangeRecord} {id : EdgeId}

theorem edgeMarks_eq : edgeMarks key changes id =
    changes.filterMap fun change => (edges.event (key.request id) change.mutation).map eventMark := by
  rw [edgeMarks, List.filterMap_filterMap]
  exact List.filterMap_congr fun change _ => mark_eq_event key id change.mutation

theorem puts_edgeMarks : puts (edgeMarks key changes id) =
    changes.filterMap fun change => (edges.event (key.request id) change.mutation).bind Event.row := by
  rw [edgeMarks_eq, puts, List.filterMap_filterMap]
  refine List.filterMap_congr fun change _ => ?_
  rw [Option.bind_map]
  congr 1
  funext event
  cases hrow : event.row <;> simp [eventMark, hrow, Mark.row?]

theorem mem_tombstones_edgeMarks {t : EdgeRank} : t ∈ tombstones (edgeMarks key changes id) ↔
    ∃ change ∈ changes, ∃ event, edges.event (key.request id) change.mutation = some event ∧
      event.row = none ∧ event.rank = t := by
  rw [edgeMarks_eq, tombstones, List.filterMap_filterMap, List.mem_filterMap]
  refine exists_congr fun change => and_congr_right fun _ => ?_
  rw [Option.bind_map, Option.bind_eq_some_iff]
  refine exists_congr fun event => and_congr_right fun _ => ?_
  cases hrow : event.row <;> simp [eventMark, hrow, Mark.removal?]

theorem rank_of_row {change : ChangeRecord} {event : Event EdgeVersion}
    (h : edges.event (key.request id) change.mutation = some event) (hrow : event.row = some edge) :
    event.rank = edgeRank edge := by
  rw [(event_some h hrow).2.2]
  rfl

/-- The row that the marks show is the one that the rule selects. -/
theorem selectedRow_of_shown (hordered : InOrder changes)
    (h : shown edgeRank (edgeMarks key changes id) = some edge) :
    edges.SelectedRow changes (key.request id) edge := by
  obtain ⟨hnewest, htombstones⟩ := shown_eq_some_iff.mp h
  rw [puts_edgeMarks] at hnewest
  obtain ⟨change, hchange, hput, hgreatest⟩ := newest_filterMap hordered hnewest
  obtain ⟨event, hevent, hrow⟩ := Option.bind_eq_some_iff.mp hput
  refine ⟨change, event, ⟨hchange, hevent, fun other hother e he => ?_⟩, hrow⟩
  rw [rank_of_row hevent hrow, hrow]
  cases herow : e.row with
  | some row =>
    rw [rank_of_row he herow]
    rcases hgreatest other hother row (by rw [he]; exact herow) with hlt | ⟨heq, hle⟩
    · exact Or.inl hlt
    · exact Or.inr ⟨heq, Or.inr ⟨rfl, hle⟩⟩
  | none =>
    have hle := htombstones e.rank (mem_tombstones_edgeMarks.mpr ⟨other, hother, e, he, herow, rfl⟩)
    rcases lt_or_eq_of_le hle with hlt | heq
    · exact Or.inl hlt
    · exact Or.inr ⟨heq, Or.inl Bool.false_lt_true⟩

theorem shown_ne_none_of_selectedRow (h : edges.SelectedRow changes (key.request id) edge) :
    shown edgeRank (edgeMarks key changes id) ≠ none := by
  intro hnone
  obtain ⟨change, event, hselects, hrow⟩ := h
  have hput : edge ∈ puts (edgeMarks key changes id) := by
    rw [puts_edgeMarks]
    refine List.mem_filterMap.mpr ⟨change, hselects.applied, ?_⟩
    rw [hselects.visible]
    exact hrow
  obtain ⟨top, htop⟩ : ∃ top, newest edgeRank (puts (edgeMarks key changes id)) = some top := by
    refine Option.ne_none_iff_exists'.mp fun hempty => ?_
    rw [newest_eq_none_iff.mp hempty] at hput
    cases hput
  -- Some tombstone is newer than every put, but the selected put is the greatest event.
  obtain ⟨t, ht, hlt⟩ := shown_eq_none_iff.mp hnone top htop
  obtain ⟨other, hother, e, he, -, rfl⟩ := mem_tombstones_edgeMarks.mp ht
  have hge : e.rank ≤ event.rank := by
    rcases hselects.greatest other hother e he with hless | ⟨heq, -⟩
    · exact hless.le
    · exact heq.le
  rw [rank_of_row hselects.visible hrow] at hge
  exact absurd (hlt.trans_le hge) (not_lt.mpr (rank_le_newest htop edge hput))

theorem visible_eq_shown (hordered : InOrder changes)
    (id : EdgeId) :
    edges.visible ((FjallTables.keyOrder changes).map (·.2)) (key.request id) =
      shown edgeRank (edgeMarks key changes id) := by
  cases hshown : shown edgeRank (edgeMarks key changes id) with
  | some =>
    exact (visible_keyOrder_iff edgesKeyed hordered).mpr
      (selectedRow_of_shown hordered hshown)
  | none =>
    refine Option.eq_none_iff_forall_ne_some.mpr fun edge hvisible => ?_
    exact shown_ne_none_of_selectedRow
      ((visible_keyOrder_iff edgesKeyed hordered).mp hvisible) hshown

/-! ## The rows of a scan -/

/-- The edges a view shows at the times of a key. -/
def shownEdges (view : FjallStore.View) (key : SnapshotCsrKey) : List EdgeVersion :=
  edges.visibleRows view.history key.validAt key.transactionTime

theorem shownEdges_ordered (view : FjallStore.View) (key : SnapshotCsrKey) :
    Ascending (shownEdges view key) :=
  @visibleRows_ordered _ _ _ edges _ _ _

theorem length_visibleRows_le {ι ρ : Type} [LinearOrder ι] (kind : ElementKind ι ρ)
    (history : List LogicalMutation) (validAt : Int64) (transactionAt : TransactionTime) :
    (kind.visibleRows history validAt transactionAt).length ≤ history.length := by
  refine (List.length_filterMap_le _ _).trans ?_
  rw [ids, List.length_insertionSort]
  exact (List.dedup_sublist _).length_le.trans (List.length_filterMap_le _ _)

theorem scanEdgePages_eq (view : FjallStore.View) (key : SnapshotCsrKey) :
    ∃ pages, scanEdgePages view key = some pages ∧ pages.flatten = shownEdges view key := by
  let rows := shownEdges view key
  have hrows : rows.Pairwise (fun a b => edges.id a < edges.id b) := shownEdges_ordered view key
  have hall : rest edges.id rows none = rows := List.filter_eq_self.mpr (by simp)
  let fetch : Option EdgeId → Page EdgeVersion EdgeId := fun after =>
    let page := view.scanEdges
      ⟨key.validAt, key.transactionTime, after, snapshotCsrEdgePageSize, by decide⟩
    ⟨page.rows, page.nextAfter⟩
  have hfetch : ∀ after, fetch after = ⟨(rest edges.id rows after).take snapshotCsrEdgePageSize,
      if snapshotCsrEdgePageSize < (rest edges.id rows after).length then
        ((rest edges.id rows after).take snapshotCsrEdgePageSize).getLast?.map edges.id
      else none⟩ := by
    intro after
    simp only [fetch, FjallStore.View.scanEdges, scanRows_eq_rest]
    rfl
  obtain ⟨pages, hcollect, hflatten, -⟩ := collect_eq hrows
    (show 0 < snapshotCsrEdgePageSize by decide) hfetch (view.history.length + 1) none (by
      rw [hall]
      exact Nat.lt_succ_of_le (length_visibleRows_le edges _ _ _))
  exact ⟨pages, hcollect, hflatten.trans hall⟩

variable {csr : SnapshotCsr}

theorem buildSnapshotCsr_eq_some {view : FjallStore.View}
    (h : buildSnapshotCsr view key = .ok (some csr)) :
    SnapshotCsr.build key (shownEdges view key) maxSnapshotCsrBytesPerReplica = .ok csr := by
  obtain ⟨pages, hpages, hflatten⟩ := scanEdgePages_eq view key
  rw [buildSnapshotCsr, hpages] at h
  simp only [hflatten] at h
  split_ifs at h
  · cases h
  · split at h
    · rename_i hbuild
      cases h
      exact hbuild
    · split_ifs at h
      cases h

theorem SnapshotCsr.edges_of_build {rows : List EdgeVersion} {maxRetainedBytes : ℕ}
    (hordered : Ascending rows) (h : SnapshotCsr.build key rows maxRetainedBytes = .ok csr) :
    csr.edges = rows ∧ csr.key = key := by
  obtain ⟨-, bytes, hlay⟩ := SnapshotCsr.build_eq_ok h
  rw [sortBy_eq_self (hordered.imp le_of_lt)] at hlay
  exact SnapshotCsr.edges_of_layOut hlay

/-! ## The changes of an extension -/

theorem changePages_eq {log more : List StoredBatch} (history : List LogicalMutation)
    (hkey : key.appliedIndex = (log ++ more).length) {after : ChangeCursor}
    {pages : List (List ChangeRecord)} (hafter : after.raftIndex = log.length)
    (hpages : changePages ⟨history, changesFrom 1 (log ++ more)⟩ key after = some pages)
    (hlater : ∀ change ∈ pages.flatten, log.length < change.cursor.raftIndex) :
    pages.flatten = changesFrom (log.length + 1) more := by
  let feed := changesFrom 1 (log ++ more)
  have hordered : InOrder feed :=
    changesFrom_ordered 1 _
  let fetch : Option ChangeCursor → Page ChangeRecord ChangeCursor := fun after =>
    let page := (⟨history, feed⟩ : FjallStore.View).changesPage
      ⟨after, key.appliedIndex, snapshotCsrOverlayChangePageSize⟩
    ⟨page.rows, page.nextAfter⟩
  -- The bound on the index excludes nothing: the view ends there.
  have hselected : ∀ after, feed.filter (fun change => ChangesRead.includes
      ⟨after, key.appliedIndex, snapshotCsrOverlayChangePageSize⟩ change.cursor) =
        rest cursor feed after := by
    intro after
    refine List.filter_congr fun change hchange => ?_
    have hindex := (cursor_lt_of_mem_changesFrom hchange).1
    rw [ChangesRead.includes, decide_eq_true (show change.cursor.raftIndex ≤ key.appliedIndex by omega),
      Bool.and_true]
    cases after <;> simp
  have hfetch : ∀ after, fetch after =
      ⟨(rest cursor feed after).take snapshotCsrOverlayChangePageSize,
        if snapshotCsrOverlayChangePageSize < (rest cursor feed after).length then
          ((rest cursor feed after).take snapshotCsrOverlayChangePageSize).getLast?.map
            cursor
        else none⟩ := by
    intro after
    simp only [fetch, FjallStore.View.changesPage, hselected]
  obtain ⟨found, hcollect, hflatten, -⟩ := collect_eq hordered
    (show 0 < snapshotCsrOverlayChangePageSize by decide) hfetch (feed.length + 1) (some after)
    (Nat.lt_succ_of_le (List.length_filter_le _ _))
  have hsame : pages = found := Option.some.inj (hpages.symm.trans hcollect)
  rw [hsame] at hlater ⊢
  rw [hflatten] at hlater ⊢
  -- Of the changes up to the base, none is read; those after it all are.
  have hsplit : feed = changesFrom 1 log ++
      changesFrom (log.length + 1) more := by
    rw [Nat.add_comm]
    exact changesFrom_append 1 log more
  have hbefore : rest cursor (changesFrom 1 log) (some after) = [] := by
    refine List.eq_nil_iff_forall_not_mem.mpr fun change hchange => ?_
    have hmem := (mem_rest _).mp hchange
    have hindex := (cursor_lt_of_mem_changesFrom hmem.1).1
    have := hlater change ((mem_rest _).mpr
      ⟨by rw [hsplit]; exact List.mem_append_left _ hmem.1, hmem.2⟩)
    omega
  have hafterwards : rest cursor
      (changesFrom (log.length + 1) more) (some after) =
        changesFrom (log.length + 1) more := by
    refine List.filter_eq_self.mpr fun change hchange => decide_eq_true ?_
    have hindex := index_le_of_mem_changesFrom hchange
    rintro _ ⟨⟩
    exact (ChangeCursor.lt_iff _ _).mpr (Or.inl (by omega))
  rw [hsplit, rest, List.filter_append]
  change rest _ _ _ ++ rest _ _ _ = _
  rw [hbefore, hafterwards, List.nil_append]

/-! ## The comparison -/

/-- The view of a store that has applied the changes. -/
def viewOf (changes : List ChangeRecord) : FjallStore.View :=
  ⟨(FjallTables.keyOrder changes).map (·.2), changes⟩

theorem mem_shownEdges (hordered : InOrder changes) :
    edge ∈ shownEdges (viewOf changes) key ↔
      shown edgeRank (edgeMarks key changes edge.id) = some edge := by
  rw [← visible_eq_shown hordered]
  exact mem_visibleRows

theorem id_of_shown (hordered : InOrder changes)
    (h : shown edgeRank (edgeMarks key changes id) = some edge) :
    edge.id = id := by
  rw [← visible_eq_shown hordered] at h
  exact id_of_visible h

variable {base : SnapshotCsr}

/-- The base has the edges that its changes show. -/
theorem edgeById_eq_shown (hordered : InOrder changes)
    (hbase : base.edges = shownEdges (viewOf changes) key) (id : EdgeId) :
    base.edgeById id = shown edgeRank (edgeMarks key changes id) := by
  rw [← visible_eq_shown hordered, visible_eq_find?, SnapshotCsr.edgeById, hbase]
  congr!

/-- What an overlay holds after following changes. -/
def followed (base : SnapshotCsr) (key : SnapshotCsrKey) (changes : List ChangeRecord) :
    OverlayEntries :=
  (changes.filterMap fun change => visibleOperation key change.mutation).foldl
    (OverlayEntries.applyOperation base) .empty

theorem keyed_followed (base : SnapshotCsr) (key : SnapshotCsrKey) (changes : List ChangeRecord) :
    (followed base key changes).Keyed base :=
  keyed_empty.foldl _

theorem result_followed (base : SnapshotCsr) (more : List ChangeRecord) (id : EdgeId) :
    ((followed base key more).remembered id).result edgeRank (base.edgeById id) =
      kept edgeRank (base.edgeById id) (edgeMarks key more id) := by
  rw [← result_run, followed, remembered_foldl keyed_empty]
  rfl

/-- The overlay on a base has the edges that all changes show exactly if it keeps up with
the marks on every edge. -/
theorem materialized_eq_shownEdges_iff {more : List ChangeRecord}
    (hordered : InOrder (changes ++ more)) (hbase : base.edges = shownEdges (viewOf changes) key) :
    (followed base key more).materialized base = shownEdges (viewOf (changes ++ more)) key ↔
      ∀ id, Keeps edgeRank (edgeMarks key changes id) (edgeMarks key more id) := by
  have hbefore := (List.pairwise_append.mp hordered).1
  have hascending : Ascending base.edges := by
    rw [hbase]
    exact shownEdges_ordered _ _
  have hkeyed := keyed_followed base key more
  have hkept : ∀ (id : EdgeId) (edge : EdgeVersion),
      (merged base (followed base key more))[id]? = some edge ↔
        kept edgeRank (shown edgeRank (edgeMarks key changes id)) (edgeMarks key more id) =
          some edge := by
    intro id edge
    rw [lookup_merged hkeyed hascending, result_followed,
      edgeById_eq_shown hbefore hbase]
  rw [SnapshotCsr.ascending_eq_iff (materialized_ordered hkeyed hascending)
    (shownEdges_ordered _ _)]
  constructor
  · intro hsame id
    rw [keeps_iff, ← edgeMarks_append]
    refine Option.ext fun edge => ?_
    -- Either side can only hold an edge with this identifier.
    constructor
    · intro h
      have hget := (hkept id edge).mpr h
      have hid := id_of_lookup_merged hkeyed hascending hget
      subst hid
      rw [lookup_merged hkeyed hascending,
        ← mem_materialized hkeyed hascending] at hget
      exact (mem_shownEdges hordered).mp ((hsame edge).mp hget)
    · intro h
      have hid := id_of_shown hordered h
      subst hid
      have hmem := (hsame edge).mpr ((mem_shownEdges hordered).mpr h)
      rw [mem_materialized hkeyed hascending,
        ← lookup_merged hkeyed hascending] at hmem
      exact (hkept edge.id edge).mp hmem
  · intro hkeeps edge
    rw [mem_materialized hkeyed hascending,
      ← lookup_merged hkeyed hascending, hkept, mem_shownEdges hordered,
      edgeMarks_append, keeps_iff.mp (hkeeps edge.id)]

/-- Extending the rows of an index by the changes since then gives every vertex the
neighbours that a scan at the later index gives exactly if, for every edge, what the overlay
keeps over the base is what the rule of the two times shows of all changes.  That is so when
every change is admitted: no tombstone ties with the row shown before it, and a put that
arrives while nothing is shown is not older than a tombstone that the overlay has forgotten. -/
theorem extension_eq_rebuild_iff [Blake3] {earlier later : FjallStore} {log more : List StoredBatch}
    (hearlier : earlier.Holds log) (hlater : later.Holds (log ++ more)) (key : SnapshotCsrKey)
    {base extended rebuilt : SnapshotCsr}
    (hbase : buildSnapshotCsr earlier.load (key.withAppliedIndex log.length) = .ok (some base))
    (hextended : extendSnapshotCsr [base] later.load
      (key.withAppliedIndex (log ++ more).length) = some extended)
    (hrebuilt : buildSnapshotCsr later.load (key.withAppliedIndex (log ++ more).length) =
      .ok (some rebuilt)) :
    let marks := edgeMarks key (ReplicaStore.changesFrom 1 log)
    let newer := edgeMarks key (ReplicaStore.changesFrom (log.length + 1) more)
    ((∀ vertex, extended.neighbors vertex = rebuilt.neighbors vertex) ↔
      ∀ id, Keeps edgeRank (marks id) (newer id)) ∧
    ((∀ id done mark, done ++ [mark] <+: newer id → Admits edgeRank (marks id) done mark) →
      ∀ vertex, extended.neighbors vertex = rebuilt.neighbors vertex) := by
  intro marks newer
  have hsplit : ReplicaStore.changesFrom 1 (log ++ more) = ReplicaStore.changesFrom 1 log ++
      ReplicaStore.changesFrom (log.length + 1) more := by
    rw [Nat.add_comm]
    exact ReplicaStore.changesFrom_append 1 log more
  have hordered := ReplicaStore.changesFrom_ordered 1 (log ++ more)
  rw [FjallStore.load_of_holds hearlier] at hbase
  rw [FjallStore.load_of_holds hlater] at hextended hrebuilt
  have hrebuilt := buildSnapshotCsr_eq_some hrebuilt
  obtain ⟨hedges, hbasekey⟩ :=
    SnapshotCsr.edges_of_build (shownEdges_ordered _ _) (buildSnapshotCsr_eq_some hbase)
  obtain ⟨pages, hpages, hindices, hbuild⟩ := extendSnapshotCsr_eq_some hextended
  have hindex : base.key.appliedIndex = log.length := by
    rw [hbasekey]
    rfl
  rw [hindex] at hpages hindices
  rw [changePages_eq _ rfl rfl hpages hindices] at hbuild
  have hascending : Ascending base.edges := by
    rw [hedges]
    exact shownEdges_ordered _ _
  have hiff : (∀ vertex, extended.neighbors vertex = rebuilt.neighbors vertex) ↔
      ∀ id, Keeps edgeRank (marks id) (newer id) := by
    rw [SnapshotCsr.neighbors_eq_iff
      (OverlayEntries.materialized_ordered (keyed_followed _ _ _) hascending)
      (shownEdges_ordered _ _) hbuild hrebuilt]
    rw [hsplit] at hordered ⊢
    exact materialized_eq_shownEdges_iff hordered hedges
  exact ⟨hiff, fun hadmits => hiff.mpr fun id => keeps_of_admits (hadmits id)⟩

/-! ### A put that arrives after the tombstone of a later time -/

def deletedEdge : EdgeVersion := .plain 1 sampleVertexId 6 .decade 10
def baseEdge : EdgeVersion := .plain 2 sampleVertexId 7 .decade 10

def sampleCalls : List (List CommittedShardBatch) :=
  [[sampleBatch 0 (.putEdge baseEdge)],
    [sampleBatch 1 (.deleteEdge ⟨deletedEdge.id, 1, 20⟩)],
    [sampleBatch 2 (.putEdge deletedEdge)]]

def sampleStoreAt (calls : ℕ) : FjallStore :=
  letI := foldHash
  applyCalls FjallStore.applyBatches (sampleCalls.take calls)
    (FjallStore.create (sampleBinding .fjall))

def sampleKey : SnapshotCsrKey :=
  SnapshotCsrKey.new (sampleBinding .fjall) 1 30 0 .outgoing

def sampleRows (index : ℕ) : SnapshotCsr :=
  ⟨sampleKey.withAppliedIndex index, [sampleVertexId, baseEdge.target], [0, 1, 1], [⟨1, 0⟩],
    [baseEdge], 153⟩

/-- The extension shows the edge that was deleted at a later time than it was put; a scan of
the same store does not. -/
theorem tombstone_forgotten_by_extension :
    buildSnapshotCsr (sampleStoreAt 1).load (sampleKey.withAppliedIndex 1) =
        .ok (some (sampleRows 1)) ∧
      (extendSnapshotCsr [sampleRows 1] (sampleStoreAt 3).load
        (sampleKey.withAppliedIndex 3)).map (·.neighbors sampleVertexId) =
          some (.ok [(deletedEdge.target, deletedEdge), (baseEdge.target, baseEdge)]) ∧
      (buildSnapshotCsr (sampleStoreAt 3).load (sampleKey.withAppliedIndex 3)).map
        (·.map (·.neighbors sampleVertexId)) =
          .ok (some (.ok [(baseEdge.target, baseEdge)])) := by
  decide +kernel

def sampleLogAt (calls : ℕ) : List StoredBatch :=
  letI := foldHash
  loggedBatches (sampleBinding .fjall) (sampleCalls.take calls)

theorem sampleStoreAt_holds (calls : ℕ) :
    letI := foldHash
    (sampleStoreAt calls).Holds (sampleLogAt calls) :=
  letI := foldHash
  (FjallStore.holds_applyCalls _ ⟨rfl, rfl, rfl⟩).1

theorem sampleLogAt_two :
    sampleLogAt 2 = sampleLogAt 1 ++ (sampleLogAt 2).drop 1 := by
  decide +kernel

/-- Up to the tombstone the two agree. -/
theorem extension_eq_rebuild_sample :
    letI := foldHash
    let log := sampleLogAt 1
    let more := (sampleLogAt 2).drop 1
    let key := sampleKey.withAppliedIndex (log ++ more).length
    (sampleStoreAt 1).Holds log ∧ (sampleStoreAt 2).Holds (log ++ more) ∧
      ∃ base extended rebuilt,
        buildSnapshotCsr (sampleStoreAt 1).load (sampleKey.withAppliedIndex log.length) =
          .ok (some base) ∧
        extendSnapshotCsr [base] (sampleStoreAt 2).load key = some extended ∧
        buildSnapshotCsr (sampleStoreAt 2).load key = .ok (some rebuilt) ∧
        ((∀ vertex, extended.neighbors vertex = rebuilt.neighbors vertex) ↔
          ∀ id, Keeps edgeRank (edgeMarks sampleKey (ReplicaStore.changesFrom 1 log) id)
            (edgeMarks sampleKey (ReplicaStore.changesFrom (log.length + 1) more) id)) := by
  let := foldHash
  intro log more key
  have hlater : (sampleStoreAt 2).Holds (log ++ more) := sampleLogAt_two ▸ sampleStoreAt_holds 2
  have hbase : buildSnapshotCsr (sampleStoreAt 1).load (sampleKey.withAppliedIndex log.length) =
      .ok (some (sampleRows 1)) := by
    decide +kernel
  have hextended : extendSnapshotCsr [sampleRows 1] (sampleStoreAt 2).load key =
      some (sampleRows 2) := by
    decide +kernel
  have hrebuilt : buildSnapshotCsr (sampleStoreAt 2).load key = .ok (some (sampleRows 2)) := by
    decide +kernel
  exact ⟨sampleStoreAt_holds 1, hlater, _, _, _, hbase, hextended, hrebuilt,
    (extension_eq_rebuild_iff (sampleStoreAt_holds 1) hlater sampleKey hbase hextended hrebuilt).1⟩

end DtgProxy.Execution

import DtgProxy.Query.SourceRuns

/-! # What a storage source returns

Points and scans return the rows of the graph up to the row bound, whatever the batch
size.  The edges at a vertex and the walks from it are read by one call with the batch
size as its limit; their rows depend on the batch size unless there is at most one to
return.
-/
namespace DtgProxy.Query

open Kernel DtgProxy.Language Storage Lib Lib.Paging QueryValue StorageSource

/-! ## Whole reads -/

/-- The budget covers the rows of the read. -/
structure Sufficient (context : QueryContext) (read : LogicalRead)
    (rows : Except QueryError (List QueryValue)) : Prop where
  rowsLeft : read.rowBound.toNat ≤ context.remainingRows
  allows : context.Allows (rows.toOption.getD [])

namespace GraphView

variable (view : GraphView) (read : LogicalRead)

/-- What one call with a limit returns for the reads that make only one call. -/
def cut (limit : ℕ) : List EdgeVersion :=
  let graph := view.graph read.validAt read.transactionTime
  match read.operation with
  | .adjacency vertexId direction => (graph.incident direction vertexId).take limit
  | .traversal vertexId directions => graph.cutWalks limit directions [vertexId]
  | _ => []

/-- The edges those reads ask for. -/
def wanted : List EdgeVersion :=
  let graph := view.graph read.validAt read.transactionTime
  match read.operation with
  | .adjacency vertexId direction => graph.incident direction vertexId
  | .traversal vertexId directions => graph.walks directions [vertexId]
  | _ => []

/-- There is at most one row to return, and a walk that takes the first edge at every hop
finds it. -/
def Unsplit : Prop :=
  let graph := view.graph read.validAt read.transactionTime
  match read.operation with
  | .adjacency vertexId direction =>
    read.rowBound = 1 ∨ (graph.incident direction vertexId).length ≤ 1
  | .traversal vertexId directions => directions.length < 2 ∨
    (read.rowBound = 1 ∨ (graph.walks directions [vertexId]).length ≤ 1) ∧
      (graph.walks directions [vertexId] = [] ∨ graph.FirstWalk directions vertexId)
  | .vertexPoint _ | .vertexScan | .edgePoint _ | .edgeScan => True

theorem cut_prefix_wanted (limit : ℕ) : view.cut read limit <+: view.wanted read := by
  unfold cut wanted
  cases read.operation with
  | adjacency => exact List.take_prefix _ _
  | traversal => exact Graph.cutWalks_prefix_walks _ _ _ List.prefix_rfl
  | _ => exact List.prefix_rfl

theorem cut_mono {limit limit' : ℕ} (h : limit ≤ limit') :
    view.cut read limit <+: view.cut read limit' := by
  unfold cut
  cases read.operation with
  | adjacency => exact List.take_prefix_take_left h
  | traversal => exact Graph.cutWalks_prefix _ h _ List.prefix_rfl
  | _ => exact List.prefix_rfl

theorem length_cut_le (limit : ℕ) : (view.cut read limit).length ≤ limit := by
  unfold cut
  cases read.operation with
  | adjacency => exact List.length_take_le _ _
  | traversal => exact Graph.length_cutWalks_le _ _ _ _
  | _ => exact Nat.zero_le _

/-- The cuts at all batch sizes are the wanted rows up to a bound exactly if there is at
most one such row and the smallest cut has it. -/
theorem cut_eq_take_iff {bound : ℕ} (hbound : 1 ≤ bound) :
    (∀ size, 1 ≤ size → view.cut read (min size bound) = (view.wanted read).take bound) ↔
      (bound = 1 ∨ (view.wanted read).length ≤ 1) ∧
        (view.wanted read = [] ∨ view.cut read 1 ≠ []) := by
  constructor
  · intro h
    have hone := h 1 le_rfl
    rw [Nat.min_eq_left hbound] at hone
    have hlength := view.length_cut_le read 1
    rw [hone, List.length_take] at hlength
    refine ⟨by omega, ?_⟩
    by_cases hnil : view.wanted read = []
    · exact Or.inl hnil
    · refine Or.inr fun hcut => hnil ?_
      rw [hone, List.take_eq_nil_iff] at hcut
      exact hcut.resolve_left (by omega)
  · rintro ⟨hsmall, hfirst⟩ size hsize
    have hprefix := view.cut_prefix_wanted read (min size bound)
    rcases hfirst with hnil | hne
    · rw [hnil, List.take_nil]
      exact List.prefix_nil.mp (hnil ▸ hprefix)
    · -- The smallest cut is the first wanted row.
      have hone : view.cut read 1 = (view.wanted read).take 1 := by
        have hlength : (view.cut read 1).length = 1 := by
          have := List.length_pos_of_ne_nil hne
          have := view.length_cut_le read 1
          omega
        have := List.prefix_iff_eq_take.mp (view.cut_prefix_wanted read 1)
        rwa [hlength] at this
      rcases hsmall with rfl | hlength
      · rw [Nat.min_eq_right hsize, hone]
      · rw [List.take_of_length_le hlength] at hone
        rw [List.take_of_length_le (hlength.trans hbound)]
        refine hprefix.eq_of_length_le ?_
        have := (view.cut_mono read (Nat.le_min.mpr ⟨hsize, hbound⟩)).length_le
        rwa [hone] at this

/-! ### The source of a read -/

def source (batchSize : UInt32) : StorageSource :=
  ⟨read, view.toTemporalReadView, batchSize, ⟨[StorageSource.field read.operation]⟩, .start,
    read.rowBound.toNat⟩

variable {view read} {fence : ExecutionFence} {context : QueryContext} {batchSize : UInt32}

theorem collect_eq_drain (hview : validateView fence view.fence = .ok ()) (hbatch : batchSize ≠ 0) :
    StorageSource.collect read fence view.toTemporalReadView batchSize context =
      (view.source read batchSize).drain (read.rowBound.toNat + 1) context := by
  have hnew : StorageSource.new read fence view.toTemporalReadView batchSize =
      .ok (view.source read batchSize) := by
    rw [StorageSource.new, if_neg hbatch, hview]
    rfl
  rw [StorageSource.collect, hnew]

theorem source_ready (hbatch : batchSize ≠ 0) (hrows : read.rowBound.toNat ≤ context.remainingRows)
    (hactive : context.checkpoint = .ok ()) : (view.source read batchSize).Ready context where
  schema := rfl
  open_cursor := nofun
  batch := hbatch
  positive := Nat.pos_of_ne_zero fun h => read.bounded (UInt32.toNat_inj.mp h)
  bound := read.rowBound.toNat_lt
  rows := hrows
  active := hactive

/-- The source is drained to the rows of the graph. -/
def Drains (view : GraphView) (read : LogicalRead) (context : QueryContext)
    (batchSize : UInt32) : Prop :=
  (view.source read batchSize).drain (read.rowBound.toNat + 1) context =
    some ((view.rows read).map (·.map ([·])))

theorem typed_map {ρ : Type} {value : ρ → QueryValue} {column : Field}
    (h : field read.operation = column)
    (hvalue : ∀ row, (value row).matchesType column.dataType column.nullable = true)
    (rows : List ρ) : (view.source read batchSize).Typed (rows.map value) := by
  intro _ hmem
  obtain ⟨row, -, rfl⟩ := List.mem_map.mp hmem
  exact h ▸ hvalue row

section Whole

variable (hready : (view.source read batchSize).Ready context)
  (hallows : context.Allows ((view.rows read).toOption.getD []))

include hready hallows

/-- A point read, whose only call returns all its rows. -/
theorem drains_of_point {ρ : Type} {value : ρ → QueryValue} {found : Option ρ}
    (hfetch : (view.source read batchSize).fetch (view.source read batchSize).limit =
      .ok (some (found.toList.map value, .done)))
    (htyped : (view.source read batchSize).Typed (found.toList.map value))
    (hanswer : (view.graph read.validAt read.transactionTime).answer read.operation =
      .ok (found.toList.map value)) : view.Drains read context batchSize := by
  have hbound : (found.toList.map value).length ≤ read.rowBound.toNat := by
    rw [List.length_map]
    exact Option.length_toList_le.trans hready.positive
  have hrows : view.rows read = .ok (found.toList.map value) := by
    rw [GraphView.rows, hanswer]
    exact congrArg Except.ok (List.take_of_length_le hbound)
  rw [Drains, hrows]
  rw [hrows] at hallows
  exact hready.drain_once hfetch hbound htyped hallows le_rfl

theorem drains_of_scan {ι ρ : Type} [LinearOrder ι] {kind : ElementKind ι ρ}
    {resume : Cursor → Option ι} {advance : ι → Cursor} {value : ρ → QueryValue} {feed : List ρ}
    (hscans : (view.source read batchSize).Scans kind resume advance value feed)
    (hanswer : (view.graph read.validAt read.transactionTime).answer read.operation =
      .ok (feed.map value)) : view.Drains read context batchSize := by
  have hall : rest kind.id feed none = feed := List.filter_eq_self.mpr (by simp)
  have hrows : view.rows read = .ok ((feed.map value).take read.rowBound.toNat) := by
    rw [GraphView.rows, hanswer]
    rfl
  rw [hrows] at hallows
  have hstands : Stands advance .start none := rfl
  have hdrain := hscans.drain_eq hstands read.rowBound.toNat read.rowBound.toNat context
    hready (by rw [hall]; exact hallows) le_rfl
  rw [hall] at hdrain
  rw [Drains, hrows]
  exact hdrain

/-- Points and scans return the rows of the graph. -/
theorem drains
    (hoperation : (∀ vertexId direction, read.operation ≠ .adjacency vertexId direction) ∧
      ∀ vertexId directions, read.operation ≠ .traversal vertexId directions) :
    view.Drains read context batchSize := by
  let graph := view.graph read.validAt read.transactionTime
  cases hop : read.operation with
  | vertexPoint id =>
    have hfetch : (view.source read batchSize).fetch (view.source read batchSize).limit =
        .ok (some ((graph.vertices.find? (·.id = id)).toList.map vertex, .done)) := by
      simp only [fetch, source, hop, view.getVertex_eq]
      rfl
    exact drains_of_point hready hallows hfetch (typed_map (by rw [hop]) (fun _ => rfl) _)
      (by rw [hop]; rfl)
  | edgePoint id =>
    have hfetch : (view.source read batchSize).fetch (view.source read batchSize).limit =
        .ok (some ((graph.edges.find? (·.id = id)).toList.map relationship, .done)) := by
      simp only [fetch, source, hop, view.getEdge_eq]
      rfl
    exact drains_of_point hready hallows hfetch (typed_map (by rw [hop]) (fun _ => rfl) _)
      (by rw [hop]; rfl)
  | vertexScan =>
    have hscans : (view.source read batchSize).Scans vertices Cursor.vertexAfter Cursor.vertex
        vertex graph.vertices :=
      { ordered := graph.vertices_ordered
        fetch_eq := fun cursor remaining limit hlimit =>
          ⟨"vertex scan exceeded requested page bound", view.scanVertices,
            by simp only [fetch, source, hop], fun after => view.scanVertices_eq _⟩
        resume_advance := fun _ => rfl
        advance_start := fun _ => nofun
        advance_done := fun _ => nofun
        typed := fun row => by simp only [source, hop]; rfl }
    exact drains_of_scan hready hallows hscans (by rw [hop]; rfl)
  | edgeScan =>
    have hscans : (view.source read batchSize).Scans edges Cursor.edgeAfter Cursor.edge
        relationship graph.edges :=
      { ordered := graph.edges_ordered
        fetch_eq := fun cursor remaining limit hlimit =>
          ⟨"edge scan exceeded requested page bound", view.scanEdges,
            by simp only [fetch, source, hop], fun after => view.scanEdges_eq _⟩
        resume_advance := fun _ => rfl
        advance_start := fun _ => nofun
        advance_done := fun _ => nofun
        typed := fun row => by simp only [source, hop]; rfl }
    exact drains_of_scan hready hallows hscans (by rw [hop]; rfl)
  | adjacency vertexId direction => exact absurd hop (hoperation.1 vertexId direction)
  | traversal vertexId directions => exact absurd hop (hoperation.2 vertexId directions)

/-- The reads that make one call return their edges cut at its limit. -/
theorem drain_eq_cut
    (hanswer : (view.graph read.validAt read.transactionTime).answer read.operation =
      .ok ((view.wanted read).map .relationship))
    (hoperation : (∃ vertexId direction, read.operation = .adjacency vertexId direction) ∨
      ∃ vertexId directions, read.operation = .traversal vertexId directions ∧
        2 ≤ directions.length) :
    (view.source read batchSize).drain (read.rowBound.toNat + 1) context =
      some (.ok (((view.cut read (min batchSize.toNat read.rowBound.toNat)).map
        relationship).map ([·]))) := by
  let limit := min batchSize.toNat read.rowBound.toNat
  have hpos : 0 < limit := hready.limit_pos
  have hle : limit ≤ read.rowBound.toNat := Nat.min_le_right _ _
  have hlength : ((view.cut read limit).map relationship).length ≤
      read.rowBound.toNat := by
    rw [List.length_map]
    exact (view.length_cut_le read limit).trans hle
  have hprefix : (view.cut read limit).map relationship <+:
      (view.rows read).toOption.getD [] := by
    have htake : view.cut read limit <+: (view.wanted read).take read.rowBound.toNat :=
      List.prefix_take_iff.mpr
        ⟨view.cut_prefix_wanted read limit, (view.length_cut_le read limit).trans hle⟩
    rw [GraphView.rows, hanswer]
    change _ <+: ((view.wanted read).map relationship).take read.rowBound.toNat
    rw [← List.map_take]
    exact htake.map _
  have hfield : field read.operation = ⟨"relationship", .relationship, false⟩ := by
    rcases hoperation with ⟨vertexId, direction, hop⟩ | ⟨vertexId, directions, hop, -⟩ <;>
      rw [hop] <;> rfl
  have hfetch : (view.source read batchSize).fetch (view.source read batchSize).limit =
      .ok (some ((view.cut read limit).map relationship, .done)) := by
    change (view.source read batchSize).fetch limit = _
    rcases hoperation with ⟨vertexId, direction, hop⟩ | ⟨vertexId, directions, hop, hhops⟩
    · simp only [fetch, source, hop, cut, AdjacencyRead.new, dif_neg hpos.ne']
      change ((view.expand _).mapError QueryError.ofStorage >>= _) = _
      rw [view.expand_eq]
      rfl
    · simp only [fetch, source, hop, cut, traverseLogicalAdjacency,
        if_neg (not_lt.mpr hhops), view.traverseHops_eq]
      rfl
  exact hready.drain_once hfetch hlength (typed_map hfield (fun _ => rfl) _)
    (hallows.of_prefix hprefix) le_rfl

end Whole

/-- A traversal of fewer than two hops is refused at any batch size. -/
theorem drains_refusal (hready : (view.source read batchSize).Ready context) {vertexId : VertexId}
    {directions : List ExpandDirection} (hop : read.operation = .traversal vertexId directions)
    (hhops : directions.length < 2) : view.Drains read context batchSize := by
  have hfetch : (view.source read batchSize).fetch (view.source read batchSize).limit =
      .error (.invalidPlan "logical traversal requires at least two hops") := by
    simp only [fetch, source, hop, traverseLogicalAdjacency, if_pos hhops]
    rfl
  have hcall : (view.source read batchSize).nextBatch context =
      .error (.invalidPlan "logical traversal requires at least two hops") := by
    rw [nextBatch, hready.active]
    refine (if_neg (not_or.mpr ⟨hready.open_cursor, hready.positive.ne'⟩)).trans ?_
    rw [executeLogical, hready.nextLimit_eq]
    change ((view.source read batchSize).fetch (view.source read batchSize).limit >>= _) = _
    rw [hfetch]
    rfl
  rw [Drains, drain, hcall, GraphView.rows, hop, Graph.answer, if_pos hhops]
  rfl

theorem map_singletons_injective :
    Function.Injective fun edges : List EdgeVersion =>
      (edges.map relationship).map ([·]) := by
  refine Function.Injective.comp (List.map_injective_iff.mpr ?_) (List.map_injective_iff.mpr ?_)
  · intro a b hab
    exact List.head_eq_of_cons_eq hab
  · intro a b hab
    cases hab
    rfl

/-- For the reads that make one call, all batch sizes return the wanted rows exactly if
there is at most one and the smallest batch finds it. -/
theorem forall_drain_iff
    (hready : ∀ batchSize, batchSize ≠ 0 → (view.source read batchSize).Ready context)
    (hanswer : (view.graph read.validAt read.transactionTime).answer read.operation =
      .ok ((view.wanted read).map .relationship))
    (hallows : context.Allows ((view.rows read).toOption.getD []))
    (hoperation : (∃ vertexId direction, read.operation = .adjacency vertexId direction) ∨
      ∃ vertexId directions, read.operation = .traversal vertexId directions ∧
        2 ≤ directions.length) :
    (∀ batchSize, batchSize ≠ 0 → view.Drains read context batchSize) ↔
      (read.rowBound = 1 ∨ (view.wanted read).length ≤ 1) ∧
        (view.wanted read = [] ∨ view.cut read 1 ≠ []) := by
  have hbound : 1 ≤ read.rowBound.toNat := (hready 1 (by decide)).positive
  have hone : read.rowBound = 1 ↔ read.rowBound.toNat = 1 := UInt32.toNat_inj.symm
  have hrows : (view.rows read).map (·.map ([·])) =
      .ok ((((view.wanted read).take read.rowBound.toNat).map relationship).map
        ([·])) := by
    rw [GraphView.rows, hanswer, List.map_take]
    rfl
  simp only [Drains]
  rw [hone, ← view.cut_eq_take_iff read hbound, hrows]
  constructor
  · intro h size hsize
    -- A batch size of the machine that cuts at the same limit.
    let batchSize := UInt32.ofNat (min size read.rowBound.toNat)
    have hsizes : batchSize.toNat = min size read.rowBound.toNat := by
      have := read.rowBound.toNat_lt
      rw [UInt32.toNat_ofNat', Nat.mod_eq_of_lt]
      omega
    have hne : batchSize ≠ 0 := by
      intro hzero
      have := congrArg UInt32.toNat hzero
      rw [hsizes, UInt32.toNat_zero] at this
      omega
    have hdrain := h batchSize hne
    rw [drain_eq_cut (hready batchSize hne) hallows hanswer hoperation, hsizes,
      Nat.min_assoc, Nat.min_self] at hdrain
    exact map_singletons_injective (Except.ok.inj (Option.some.inj hdrain))
  · intro h batchSize hne
    rw [drain_eq_cut (hready batchSize hne) hallows hanswer hoperation,
      h batchSize.toNat (Nat.pos_of_ne_zero fun hzero => hne (UInt32.toNat_inj.mp hzero))]

end GraphView

/-- With a sufficient budget, a read returns the rows of the graph up to its row bound at
every batch size exactly if it is a point or a scan, or there is at most one row and no
hop cuts it off. -/
theorem collect_eq_rows_iff (view : GraphView) (fence : ExecutionFence) (read : LogicalRead)
    (context : QueryContext) (hview : validateView fence view.fence = .ok ())
    (hbudget : Sufficient context read (view.rows read)) :
    (∀ batchSize, batchSize ≠ 0 →
      StorageSource.collect read fence view.toTemporalReadView batchSize context =
        some ((view.rows read).map (·.map ([·])))) ↔ view.Unsplit read := by
  obtain ⟨hrows, hallows⟩ := hbudget
  have hready : ∀ batchSize, batchSize ≠ 0 → (view.source read batchSize).Ready context :=
    fun _ hne => GraphView.source_ready hne hrows hallows.active
  have hcollect : (∀ batchSize, batchSize ≠ 0 →
      StorageSource.collect read fence view.toTemporalReadView batchSize context =
        some ((view.rows read).map (·.map ([·])))) ↔
      ∀ batchSize, batchSize ≠ 0 → view.Drains read context batchSize :=
    forall_congr' fun _ => forall_congr' fun hne => by
      rw [GraphView.collect_eq_drain hview hne, GraphView.Drains]
  rw [hcollect]
  cases hop : read.operation with
  | adjacency vertexId direction =>
    rw [GraphView.forall_drain_iff hready (by simp only [hop, GraphView.wanted]; rfl) hallows
      (Or.inl ⟨vertexId, direction, hop⟩)]
    simp only [GraphView.Unsplit, GraphView.wanted, GraphView.cut, hop, Ne, List.take_eq_nil_iff]
    tauto
  | traversal vertexId directions =>
    by_cases hhops : directions.length < 2
    · simp only [GraphView.Unsplit, hop, hhops, true_or, iff_true]
      exact fun batchSize hne => GraphView.drains_refusal (hready batchSize hne) hop hhops
    · rw [GraphView.forall_drain_iff hready
        (by simp only [hop, GraphView.wanted, Graph.answer, if_neg hhops]) hallows
        (Or.inr ⟨vertexId, directions, hop, not_lt.mp hhops⟩)]
      simp only [GraphView.Unsplit, GraphView.wanted, GraphView.cut, hop, hhops, false_or,
        Graph.cutWalks_one_ne_nil_iff]
  | _ =>
    simp only [GraphView.Unsplit, hop, iff_true]
    exact fun batchSize hne => GraphView.drains (hready batchSize hne) hallows
      ⟨by simp [hop], by simp [hop]⟩

/-! ## The views of a Fjall store -/

/-- A read view of a Fjall store shows one graph at each pair of times. -/
def fjallView (fence : ReadFence) (view : FjallStore.View) : GraphView where
  fence := fence
  getVertex request := .ok (view.getVertex request)
  getEdge request := .ok (view.getEdge request)
  expand request := .ok (view.expand request)
  scanVertices request := .ok (view.scanVertices request)
  scanEdges request := .ok (view.scanEdges request)
  graph validAt transactionTime :=
    ⟨vertices.visibleRows view.history validAt transactionTime,
      edges.visibleRows view.history validAt transactionTime,
      @ElementKind.visibleRows_ordered _ _ _ vertices _ _ _,
      @ElementKind.visibleRows_ordered _ _ _ edges _ _ _⟩
  getVertex_eq request := by
    rw [FjallStore.View.getVertex, vertices.visible_eq_find?]
    congr!
  getEdge_eq request := by
    rw [FjallStore.View.getEdge, edges.visible_eq_find?]
    congr!
  expand_eq request := by
    rw [FjallStore.View.expand, expandRows_eq_filter]
  scanVertices_eq request := by
    rw [FjallStore.View.scanVertices, ElementKind.scanRows_eq_rest]
  scanEdges_eq request := by
    rw [FjallStore.View.scanEdges, ElementKind.scanRows_eq_rest]

/-! ### Two edges at one vertex -/

def firstEdge : EdgeVersion := .plain 1 sampleVertexId 6 .decade 20
def secondEdge : EdgeVersion := .plain 2 sampleVertexId 7 .decade 20

/-- A store after two batches, each with one edge. -/
def sampleStore : FjallStore :=
  letI := foldHash
  applyCalls FjallStore.applyBatches
    [[sampleBatch 0 (.putEdge firstEdge)],
      [sampleBatch 1 (.putEdge secondEdge)]]
    (FjallStore.create (sampleBinding .fjall))

def sampleFence : ReadFence :=
  ⟨sampleBinding .fjall, 2, (sampleBinding .fjall).capabilityDigest⟩

def sampleView : GraphView := fjallView sampleFence sampleStore.load

theorem sampleVersions_ne_zero : 1 ≠ 0 ∧ 1 ≠ 0 := by decide

def sampleExecution : ExecutionFence :=
  ⟨sampleFence, 1, 1, 20, 0, sampleVersions_ne_zero, rfl⟩

def sampleAdjacency : LogicalRead :=
  ⟨.adjacency sampleVertexId .outgoing, 10, 20, 0, by decide⟩

def sampleContext : QueryContext := ⟨false, false, 100, 0, 100000, 0⟩

/-- The same read returns one edge at batch size one and two at batch size two. -/
theorem adjacency_cut_at_batch_size :
    letI := foldHash
    (sampleStore.beginReadView sampleFence).isOk = true ∧
      StorageSource.collect sampleAdjacency sampleExecution sampleView.toTemporalReadView 1
        sampleContext = some (.ok [[.relationship firstEdge]]) ∧
      StorageSource.collect sampleAdjacency sampleExecution sampleView.toTemporalReadView 2
        sampleContext = some (.ok [[.relationship firstEdge], [.relationship secondEdge]]) := by
  decide +kernel

def sampleScan : LogicalRead := ⟨.edgeScan, 10, 20, 0, by decide⟩

theorem sufficient_sampleScan :
    Sufficient sampleContext sampleScan (sampleView.rows sampleScan) := by
  exact ⟨by decide, ⟨rfl, by decide +kernel, by decide⟩⟩

theorem collect_sampleScan :
    validateView sampleExecution sampleView.fence = .ok () ∧
      Sufficient sampleContext sampleScan (sampleView.rows sampleScan) ∧
      ((∀ batchSize, batchSize ≠ 0 →
        StorageSource.collect sampleScan sampleExecution sampleView.toTemporalReadView batchSize
          sampleContext = some ((sampleView.rows sampleScan).map (·.map ([·])))) ↔
        sampleView.Unsplit sampleScan) :=
  have hview : validateView sampleExecution sampleView.fence = .ok () := by decide +kernel
  ⟨hview, sufficient_sampleScan,
    collect_eq_rows_iff sampleView sampleExecution sampleScan sampleContext hview
      sufficient_sampleScan⟩

end DtgProxy.Query

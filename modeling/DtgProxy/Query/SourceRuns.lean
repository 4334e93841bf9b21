import DtgProxy.Query.StorageSource

/-! # Runs of a storage source

A view shows one graph at each pair of times.  A traversal of the view is a walk in the
graph, cut at every hop; a run of the operator over a scan returns the rows of the scan,
page by page, until the row bound is reached.
-/
namespace DtgProxy.Query

open Kernel DtgProxy.Language Storage Lib Lib.Paging

/-! ## Graphs -/

/-- The elements visible at a valid time and a transaction time. -/
structure Graph where
  vertices : List VertexVersion
  edges : List EdgeVersion
  vertices_ordered : vertices.Pairwise (fun a b => a.id < b.id)
  edges_ordered : edges.Pairwise (fun a b => a.id < b.id)

namespace Graph

variable (graph : Graph)

def incident (direction : ExpandDirection) (vertexId : VertexId) : List EdgeVersion :=
  graph.edges.filter fun edge => Incident (adjacencyDirection direction) vertexId edge

def otherEnd (direction : ExpandDirection) (current : VertexId) (edge : EdgeVersion) : VertexId :=
  match direction with
  | .outgoing => edge.target
  | .incoming => edge.source
  | .either => if edge.source = current then edge.target else edge.source

/-- The ends of all edges at the vertices of a frontier. -/
def advance (direction : ExpandDirection) (frontier : List VertexId) : List VertexId :=
  frontier.flatMap fun vertex => (graph.incident direction vertex).map (otherEnd direction vertex)

/-- The last edges of all walks along the directions. -/
def walks : List ExpandDirection → List VertexId → List EdgeVersion
  | [], _ => []
  | [direction], frontier => frontier.flatMap (graph.incident direction)
  | direction :: directions, frontier => walks directions (graph.advance direction frontier)

/-- The same, with every hop cut at a limit. -/
def cutWalks (limit : ℕ) : List ExpandDirection → List VertexId → List EdgeVersion
  | [], _ => []
  | [direction], frontier => (frontier.flatMap (graph.incident direction)).take limit
  | direction :: directions, frontier =>
    cutWalks limit directions ((graph.advance direction frontier).take limit)

/-- Taking the first edge at every hop leads to the last hop. -/
def FirstWalk : List ExpandDirection → VertexId → Prop
  | [], _ => False
  | [direction], vertex => graph.incident direction vertex ≠ []
  | direction :: directions, vertex => ∃ edge,
    (graph.incident direction vertex).head? = some edge ∧
      FirstWalk directions (otherEnd direction vertex edge)

/-- The full answer to a read. -/
def answer : ReadOperation → Except QueryError (List QueryValue)
  | .vertexPoint id => .ok ((graph.vertices.find? (·.id = id)).toList.map .vertex)
  | .vertexScan => .ok (graph.vertices.map .vertex)
  | .edgePoint id => .ok ((graph.edges.find? (·.id = id)).toList.map .relationship)
  | .edgeScan => .ok (graph.edges.map .relationship)
  | .adjacency vertexId direction => .ok ((graph.incident direction vertexId).map .relationship)
  | .traversal vertexId directions =>
    if directions.length < 2 then
      .error (.invalidPlan "logical traversal requires at least two hops")
    else .ok ((graph.walks directions [vertexId]).map .relationship)

/-! ### Cut walks -/

theorem prefix_flatMap {α β : Type} {f : α → List β} {xs ys : List α} (h : xs <+: ys) :
    xs.flatMap f <+: ys.flatMap f := by
  obtain ⟨zs, rfl⟩ := h
  rw [List.flatMap_append]
  exact List.prefix_append _ _

/-- A larger limit and a longer frontier give more walks. -/
theorem cutWalks_prefix {limit limit' : ℕ} (hlimit : limit ≤ limit')
    (directions : List ExpandDirection) {frontier frontier' : List VertexId}
    (h : frontier <+: frontier') :
    graph.cutWalks limit directions frontier <+: graph.cutWalks limit' directions frontier' := by
  induction directions generalizing frontier frontier' with
  | nil => exact List.prefix_rfl
  | cons direction directions ih =>
    cases directions with
    | nil => exact ((prefix_flatMap h).take limit).trans (List.take_prefix_take_left hlimit)
    | cons =>
      exact ih (((prefix_flatMap h).take limit).trans (List.take_prefix_take_left hlimit))

theorem cutWalks_prefix_walks (limit : ℕ) (directions : List ExpandDirection)
    {frontier frontier' : List VertexId} (h : frontier <+: frontier') :
    graph.cutWalks limit directions frontier <+: graph.walks directions frontier' := by
  induction directions generalizing frontier frontier' with
  | nil => exact List.prefix_rfl
  | cons direction directions ih =>
    cases directions with
    | nil => exact (List.take_prefix _ _).trans (prefix_flatMap h)
    | cons => exact ih ((List.take_prefix _ _).trans (prefix_flatMap h))

theorem length_cutWalks_le (limit : ℕ) (directions : List ExpandDirection)
    (frontier : List VertexId) : (graph.cutWalks limit directions frontier).length ≤ limit := by
  induction directions generalizing frontier with
  | nil => exact Nat.zero_le _
  | cons direction directions ih =>
    cases directions with
    | nil => exact List.length_take_le _ _
    | cons => exact ih _

theorem cutWalks_nil (limit : ℕ) (directions : List ExpandDirection) :
    graph.cutWalks limit directions [] = [] := by
  induction directions with
  | nil => rfl
  | cons direction directions ih =>
    cases directions with
    | nil => simp [cutWalks]
    | cons => simpa [cutWalks, advance] using ih

theorem cutWalks_one_ne_nil_iff (directions : List ExpandDirection) (vertex : VertexId) :
    graph.cutWalks 1 directions [vertex] ≠ [] ↔ graph.FirstWalk directions vertex := by
  induction directions generalizing vertex with
  | nil => simp [cutWalks, FirstWalk]
  | cons direction directions ih =>
    cases directions with
    | nil =>
      rw [cutWalks, FirstWalk, List.flatMap_singleton, Ne, List.take_eq_nil_iff]
      simp
    | cons =>
      rw [cutWalks, FirstWalk, advance, List.flatMap_singleton]
      · cases graph.incident direction vertex with
        | nil => simp [cutWalks_nil]
        | cons =>
          rw [List.map_cons, List.take_succ_cons, List.take_zero, ih]
          simp
      · simp
      · simp

end Graph

/-! ## Views -/

/-- A view that answers every request from one graph at each pair of times. -/
structure GraphView extends TemporalReadView where
  graph : Int64 → TransactionTime → Graph
  getVertex_eq : ∀ request, getVertex request =
    .ok ((graph request.validAt request.transactionAt).vertices.find? (·.id = request.id))
  getEdge_eq : ∀ request, getEdge request =
    .ok ((graph request.validAt request.transactionAt).edges.find? (·.id = request.id))
  expand_eq : ∀ request, expand request =
    .ok (((graph request.validAt request.transactionAt).edges.filter fun edge =>
      Incident request.direction request.vertexId edge).take request.limit)
  scanVertices_eq : ∀ request, scanVertices request =
    .ok (vertices.page (rest vertices.id
      (graph request.validAt request.transactionAt).vertices request.after) request.limit)
  scanEdges_eq : ∀ request, scanEdges request =
    .ok (edges.page (rest edges.id
      (graph request.validAt request.transactionAt).edges request.after) request.limit)

namespace GraphView

variable (view : GraphView) (validAt : Int64) (transactionTime : TransactionTime)

theorem expandFrontier_eq {β : Type} (direction : ExpandDirection)
    {visit : VertexId → EdgeVersion → Except QueryError β} {f : VertexId → EdgeVersion → β}
    (hvisit : ∀ vertex edge, Incident (adjacencyDirection direction) vertex edge →
      visit vertex edge = .ok (f vertex edge)) (frontier : List VertexId) (remaining : ℕ) :
    expandFrontier view.toTemporalReadView validAt transactionTime direction visit frontier
        remaining =
      .ok ((frontier.flatMap fun vertex =>
        ((view.graph validAt transactionTime).incident direction vertex).map (f vertex)).take
          remaining) := by
  induction frontier generalizing remaining with
  | nil => simp [expandFrontier]
  | cons vertex frontier ih =>
    rw [expandFrontier]
    by_cases hzero : remaining = 0
    · rw [if_pos hzero, hzero, List.take_zero]
    · let edges := (view.graph validAt transactionTime).incident direction vertex
      have hmapM : (edges.take remaining).mapM (visit vertex) =
          .ok ((edges.take remaining).map (f vertex)) := by
        refine Result.mapM_eq_ok_map fun edge hedge => hvisit vertex edge ?_
        simpa using (List.mem_filter.mp (List.mem_of_mem_take hedge)).2
      have hlength : ¬ remaining < (edges.take remaining).length :=
        not_lt.mpr (List.length_take_le _ _)
      rw [if_neg hzero, AdjacencyRead.new, dif_neg hzero]
      change (do
        let edges ← (view.expand ⟨vertex, adjacencyDirection direction, validAt, transactionTime,
          remaining, hzero⟩).mapError QueryError.ofStorage
        _) = _
      rw [view.expand_eq]
      change (if remaining < (edges.take remaining).length then _ else do
        let found ← (edges.take remaining).mapM (visit vertex)
        _) = _
      rw [if_neg hlength, hmapM]
      rw [ih]
      change Except.ok _ = _
      rw [List.flatMap_cons, List.take_append, List.map_take, List.length_take, List.length_map]
      congr 3
      change remaining - min remaining edges.length = remaining - edges.length
      omega

theorem traversalNextVertex_eq {direction : ExpandDirection} {vertex : VertexId}
    {edge : EdgeVersion} (h : Incident (adjacencyDirection direction) vertex edge) :
    traversalNextVertex vertex edge direction = .ok (Graph.otherEnd direction vertex edge) := by
  cases direction with
  | outgoing | incoming => exact if_pos h
  | either =>
    by_cases hsource : edge.source = vertex
    · simp [traversalNextVertex, Graph.otherEnd, hsource]
    · have htarget : edge.target = vertex := h.resolve_left hsource
      simp [traversalNextVertex, Graph.otherEnd, hsource, htarget]

theorem traverseHops_eq (limit : ℕ) (directions : List ExpandDirection)
    (frontier : List VertexId) :
    traverseHops view.toTemporalReadView validAt transactionTime limit directions frontier =
      .ok ((view.graph validAt transactionTime).cutWalks limit directions frontier) := by
  induction directions generalizing frontier with
  | nil => rfl
  | cons direction directions ih =>
    cases directions with
    | nil =>
      rw [traverseHops, view.expandFrontier_eq validAt transactionTime direction
        (f := fun _ edge => edge) (fun _ _ _ => rfl), Graph.cutWalks]
      simp
    | cons =>
      rw [traverseHops, view.expandFrontier_eq validAt transactionTime direction
        (fun _ _ h => traversalNextVertex_eq h)]
      · exact ih _
      · simp

/-- The rows of a read: the full answer up to the row bound. -/
def rows (read : LogicalRead) : Except QueryError (List QueryValue) :=
  ((view.graph read.validAt read.transactionTime).answer read.operation).map
    (·.take read.rowBound.toNat)

end GraphView

/-! ## Calls of the operator -/

namespace StorageSource

variable {rows : List QueryValue} {cursor : Cursor}

/-- The source has rows to return and the context lets it. -/
structure Ready (source : StorageSource) (context : QueryContext) : Prop where
  schema : source.schema = ⟨[field source.read.operation]⟩
  open_cursor : source.cursor ≠ .done
  batch : source.batchSize ≠ 0
  positive : 0 < source.remaining
  bound : source.remaining < 2 ^ 32
  rows : source.remaining ≤ context.remainingRows
  active : context.checkpoint = .ok ()

/-- The values are of the type of the source's one column. -/
def Typed (source : StorageSource) (rows : List QueryValue) : Prop :=
  ∀ value ∈ rows, value.matchesType (field source.read.operation).dataType
    (field source.read.operation).nullable = true

def limit (source : StorageSource) : ℕ := min source.batchSize.toNat source.remaining

variable {source : StorageSource} {context : QueryContext}

theorem Ready.limit_pos (h : source.Ready context) : 0 < source.limit := by
  have hbatch : source.batchSize.toNat ≠ 0 := fun hzero => h.batch (UInt32.toNat_inj.mp hzero)
  have := h.positive
  rw [limit]
  omega

theorem Ready.nextLimit_eq (h : source.Ready context) :
    source.nextLimit context = .ok source.limit := by
  have hpos := h.limit_pos
  have hbound := h.bound
  have hrows := h.rows
  have hbudget : min (min source.batchSize.toNat source.remaining)
      (min context.remainingRows (2 ^ 32 - 1)) = source.limit := by
    rw [limit]
    omega
  rw [nextLimit, if_neg (not_or.mpr ⟨h.open_cursor, h.positive.ne'⟩)]
  simp only [hbudget]
  exact if_neg hpos.ne'

theorem drain_of_finished (hactive : context.checkpoint = .ok ())
    (h : source.cursor = .done ∨ source.remaining = 0) (fuel : ℕ) :
    source.drain (fuel + 1) context = some (.ok []) := by
  have hcall : source.nextBatch context = .ok (none, source, context) := by
    rw [nextBatch, hactive]
    exact if_pos h
  rw [drain, hcall]

/-- The operator after a call that returned `rows` and left `cursor`. -/
def after (source : StorageSource) (rows : List QueryValue) (cursor : Cursor) : StorageSource :=
  { source with
    cursor := if source.remaining - rows.length = 0 then .done else cursor
    remaining := source.remaining - rows.length }

section Call

variable (h : source.Ready context)
  (hfetch : source.fetch source.limit = .ok (some (rows, cursor)))
  (hlength : rows.length ≤ source.remaining) (htyped : source.Typed rows)
  (hallows : context.Allows rows) (hprogress : rows = [] → cursor = .done)

include h hfetch hlength htyped hallows hprogress

theorem Ready.nextBatch_eq :
    ∃ batch : Option ColumnBatch, (rows = [] → batch = none) ∧
      (rows ≠ [] → ∃ found, batch = some found ∧ found.rows = rows.map ([·])) ∧
      source.nextBatch context = .ok (batch, source.after rows cursor, context.charged rows) := by
  have hcall : source.nextBatch context = source.finishRows cursor rows >>= fun result =>
      .ok (result.1, result.2, context.charged rows) := by
    rw [nextBatch, h.active]
    refine (if_neg (not_or.mpr ⟨h.open_cursor, h.positive.ne'⟩)).trans ?_
    rw [executeLogical, h.nextLimit_eq]
    change (source.fetch source.limit >>= _) = _
    rw [hfetch]
    change (context.chargeRows rows >>= _) = _
    rw [hallows.chargeRows_eq]
    rfl
  rw [hcall, finishRows, if_neg (not_lt.mpr hlength)]
  by_cases hrows : rows = []
  · -- No row: the scan is over.
    refine ⟨none, fun _ => rfl, fun hne => absurd hrows hne, ?_⟩
    have hcursor : (if source.remaining - rows.length = 0 then Cursor.done else cursor) = .done := by
      rw [hprogress hrows]
      exact ite_self _
    simp only [hrows, if_true] at hcursor ⊢
    rw [if_pos hcursor]
    rfl
  · obtain ⟨batch, hbatch, hcontents⟩ := ColumnBatch.fromRows_singletons htyped
    refine ⟨some batch, fun hnil => absurd hnil hrows, fun _ => ⟨batch, rfl, hcontents⟩, ?_⟩
    simp only [if_neg hrows, h.schema]
    rw [hbatch]
    change Except.ok (some batch, _, _) = Except.ok (some batch, _, _)
    simp only [after, h.schema]

theorem Ready.drain_eq (fuel : ℕ) :
    source.drain (fuel + 1) context =
      if rows = [] then some (.ok [])
      else ((source.after rows cursor).drain fuel (context.charged rows)).map
          fun rest => rest.map (rows.map ([·]) ++ ·) := by
  obtain ⟨batch, hnone, hsome, hcall⟩ :=
    h.nextBatch_eq hfetch hlength htyped hallows hprogress
  rw [drain, hcall]
  by_cases hrows : rows = []
  · rw [hnone hrows, if_pos hrows]
  · obtain ⟨found, rfl, hcontents⟩ := hsome hrows
    rw [if_neg hrows, ← hcontents]

end Call

/-- A read that ends with its first call. -/
theorem Ready.drain_once (h : source.Ready context)
    (hfetch : source.fetch source.limit = .ok (some (rows, .done)))
    (hlength : rows.length ≤ source.remaining) (htyped : source.Typed rows)
    (hallows : context.Allows rows) {fuel : ℕ} (hfuel : source.remaining ≤ fuel) :
    source.drain (fuel + 1) context = some (.ok (rows.map ([·]))) := by
  rw [h.drain_eq hfetch hlength htyped hallows fun _ => rfl]
  by_cases hrows : rows = []
  · rw [if_pos hrows, hrows]
    rfl
  · obtain ⟨fuel, rfl⟩ : ∃ n, fuel = n + 1 := ⟨fuel - 1, by have := h.positive; omega⟩
    have hdone : (source.after rows .done).cursor = .done := ite_self _
    rw [if_neg hrows, drain_of_finished (context.checkpoint_charged rows ▸ h.active) (Or.inl hdone)]
    simp [Except.map]

/-! ### Scans -/

/-- How a source scans: it asks for pages of the feed, and its cursor is the last
identifier seen. -/
structure Scans {ι ρ : Type} [LinearOrder ι] (source : StorageSource) (kind : ElementKind ι ρ)
    (resume : Cursor → Option ι) (advance : ι → Cursor) (value : ρ → QueryValue)
    (feed : List ρ) : Prop where
  ordered : feed.Pairwise (fun a b => kind.id a < kind.id b)
  fetch_eq : ∀ cursor remaining limit (hlimit : limit ≠ 0), ∃ excess scan,
    ({ source with cursor, remaining } : StorageSource).fetch limit =
      scanPage cursor resume advance value excess scan source.read limit ∧
    ∀ after, scan ⟨source.read.validAt, source.read.transactionTime, after, limit, hlimit⟩ =
      .ok (kind.page (rest kind.id feed after) limit)
  resume_advance : ∀ id, resume (advance id) = some id
  advance_start : ∀ id, advance id ≠ .start
  advance_done : ∀ id, advance id ≠ .done
  typed : ∀ row, (value row).matchesType (field source.read.operation).dataType
    (field source.read.operation).nullable = true

/-- The cursor stands after these rows of the scan. -/
def Stands {ι : Type} (advance : ι → Cursor) (cursor : Cursor) : Option ι → Prop
  | none => cursor = .start
  | some id => cursor = advance id

variable {ι ρ : Type} [LinearOrder ι] {kind : ElementKind ι ρ} {resume : Cursor → Option ι}
  {advance : ι → Cursor} {value : ρ → QueryValue} {feed : List ρ} {after : Option ι}
  (h : source.Scans kind resume advance value feed) (hstands : Stands advance cursor after)

include h hstands

theorem Scans.scanAfter_eq :
    scanAfter cursor resume = .ok (some after) := by
  cases after with
  | none =>
    obtain rfl : cursor = .start := hstands
    rfl
  | some id =>
    obtain rfl : cursor = advance id := hstands
    have hresume := h.resume_advance id
    have hstart := h.advance_start id
    have hdone := h.advance_done id
    generalize advance id = cursor at hresume hstart hdone
    cases cursor with
    | start => exact absurd rfl hstart
    | done => exact absurd rfl hdone
    | vertex | edge => simp [scanAfter, hresume]

theorem Scans.fetch_page (remaining : ℕ) {limit : ℕ} (hlimit : limit ≠ 0) :
    ({ source with cursor, remaining } : StorageSource).fetch limit =
      .ok (some (((rest kind.id feed after).take limit).map value,
        if limit < (rest kind.id feed after).length then
          (((rest kind.id feed after).take limit).getLast?.map kind.id).elim .done advance
        else .done)) := by
  obtain ⟨excess, scan, hfetch, hscan⟩ := h.fetch_eq cursor remaining limit hlimit
  rw [hfetch, scanPage, h.scanAfter_eq hstands]
  change ((ScanRead.new source.read.validAt source.read.transactionTime after limit).mapError
    QueryError.ofStorage >>= _) = _
  rw [ScanRead.new, dif_neg hlimit]
  change ((scan ⟨source.read.validAt, source.read.transactionTime, after, limit, hlimit⟩).mapError
    QueryError.ofStorage >>= _) = _
  rw [hscan]
  change (if limit < ((rest kind.id feed after).take limit).length then _ else _) = _
  rw [if_neg (not_lt.mpr (List.length_take_le _ _)), ElementKind.page]
  split_ifs <;> rfl

/-- A whole scan: the rest of the feed, up to what remains of the row bound. -/
theorem Scans.drain_eq (fuel remaining : ℕ) (context : QueryContext)
    (hready : ({ source with cursor, remaining } : StorageSource).Ready context)
    (hallows : context.Allows (((rest kind.id feed after).map value).take remaining))
    (hfuel : remaining ≤ fuel) :
    ({ source with cursor, remaining } : StorageSource).drain (fuel + 1) context =
      some (.ok ((((rest kind.id feed after).map value).take remaining).map ([·]))) := by
  induction fuel generalizing remaining cursor after context with
  | zero => exact absurd hready.positive (by change ¬ 0 < remaining; omega)
  | succ fuel ih =>
    let limit := min source.batchSize.toNat remaining
    have hpos : 0 < limit := hready.limit_pos
    have hle : limit ≤ remaining := Nat.min_le_right _ _
    have hfetch := h.fetch_page hstands remaining hpos.ne'
    set left := rest kind.id feed after
    have hprefix : (left.take limit).map value <+:
        (left.map value).take remaining := by
      rw [List.map_take]
      exact List.take_prefix_take_left hle
    have htyped : ({ source with cursor, remaining } : StorageSource).Typed
        ((left.take limit).map value) := by
      intro v hv
      obtain ⟨row, -, rfl⟩ := List.mem_map.mp hv
      exact h.typed row
    have hlength : ((left.take limit).map value).length ≤ remaining := by
      rw [List.length_map, List.length_take]
      omega
    by_cases hmore : limit < left.length
    · have hne : left.take limit ≠ [] := by
        rw [Ne, List.take_eq_nil_iff, ← List.length_eq_zero_iff]
        omega
      obtain ⟨last, hlast⟩ := List.getLast?_isSome.mpr hne |> Option.isSome_iff_exists.mp
      have hfull : ((left.take limit).map value).length = limit := by
        rw [List.length_map, List.length_take]
        omega
      have hsplit : (left.map value).take remaining =
          (left.take limit).map value ++
            (((rest kind.id feed (some (kind.id last))).map value).take (remaining - limit)) := by
        rw [rest_last kind.id h.ordered hlast, List.map_take, List.map_drop, ← List.take_add,
          Nat.add_sub_cancel' hle]
      rw [if_pos hmore, hlast] at hfetch
      rw [hready.drain_eq hfetch hlength htyped (hallows.of_prefix hprefix)
        (fun hnil => absurd (List.map_eq_nil_iff.mp hnil) hne),
        if_neg (fun hnil => hne (List.map_eq_nil_iff.mp hnil)), StorageSource.after, hfull]
      by_cases hlast' : remaining - limit = 0
      · -- The row bound is reached.
        have hactive : (context.charged
            ((left.take limit).map value)).checkpoint = .ok () := hready.active
        rw [drain_of_finished hactive (Or.inr hlast'), hsplit, hlast', List.take_zero, List.append_nil]
        simp [Except.map]
      · have hrest := @ih (advance (kind.id last)) (some (kind.id last)) rfl (remaining - limit)
          (context.charged ((left.take limit).map value))
          ⟨hready.schema, h.advance_done _, hready.batch, Nat.pos_of_ne_zero hlast',
            lt_of_le_of_lt (Nat.sub_le _ _) hready.bound,
            le_trans (Nat.sub_le _ _) hready.rows, hready.active⟩
          (QueryContext.Allows.charged (hsplit ▸ hallows)) (by omega)
        simp only [if_neg hlast', Option.map_some, Option.elim_some]
        rw [hrest, hsplit, List.map_append]
        rfl
    · have hall : left.take limit = left :=
        List.take_of_length_le (not_lt.mp hmore)
      rw [if_neg hmore] at hfetch
      rw [hready.drain_once hfetch hlength htyped (hallows.of_prefix hprefix) hfuel, hall,
        List.take_of_length_le]
      rw [List.length_map]
      omega

end StorageSource

end DtgProxy.Query

import DtgProxy.Lib.Paging
import DtgProxy.Storage.FjallKeys
import DtgProxy.Storage.ProviderEquivalence

/-! # What a Fjall read view shows

A point read shows the put that the rule of the two times selects from all changes ever
applied.  Scans show the visible rows in the order of their identifiers, and reading
them page by page neither loses nor repeats a row.  An expansion shows the visible edges
at a vertex, up to its limit.
-/
namespace DtgProxy.Storage

open Kernel Lib Lib.Newest Lib.Paging FjallTables

namespace ElementKind

variable {ι ρ : Type} [LinearOrder ι] {kind : ElementKind ι ρ}

/-- The change is the one the rule selects for a point read: no event of the element
that is visible at the times of the read has a greater time and version, and of those
with the same, puts come before tombstones and then the earlier place in the log. -/
structure Selects (kind : ElementKind ι ρ) (changes : List ChangeRecord) (request : PointRead ι)
    (change : ChangeRecord) (event : Event ρ) : Prop where
  applied : change ∈ changes
  visible : kind.event request change.mutation = some event
  greatest : ∀ other ∈ changes, ∀ e, kind.event request other.mutation = some e →
    e.rank < event.rank ∨ (e.rank = event.rank ∧ (event.row.isNone < e.row.isNone ∨
      (event.row.isNone = e.row.isNone ∧ change.cursor ≤ other.cursor)))

/-- The row the rule selects; a selected tombstone has none. -/
def SelectedRow (kind : ElementKind ι ρ) (changes : List ChangeRecord) (request : PointRead ι)
    (row : ρ) : Prop :=
  ∃ change event, kind.Selects changes request change event ∧ event.row = some row

variable {changes : List ChangeRecord} {request : PointRead ι}

theorem Selects.unique (hordered : InOrder changes)
    {x x' : ChangeRecord} {e e' : Event ρ} (h : kind.Selects changes request x e)
    (h' : kind.Selects changes request x' e') : e = e' := by
  have hflag : ∀ a b : Bool, a < b → ¬ b < a ∧ b ≠ a := by decide
  have hsame : x.cursor = x'.cursor := by
    rcases h.greatest x' h'.applied e' h'.visible with hlt | ⟨hrank, hplace⟩
    · rcases h'.greatest x h.applied e h.visible with hlt' | ⟨hrank', -⟩
      · exact absurd hlt' (lt_asymm hlt)
      · exact absurd hrank' (ne_of_gt hlt)
    · rcases h'.greatest x h.applied e h.visible with hlt' | ⟨-, hplace'⟩
      · exact absurd hrank (ne_of_gt hlt')
      · rcases hplace with hlt | ⟨heq, hle⟩
        · rcases hplace' with hlt' | ⟨heq', -⟩
          · exact absurd hlt' (hflag _ _ hlt).1
          · exact absurd heq' (hflag _ _ hlt).2
        · rcases hplace' with hlt' | ⟨-, hle'⟩
          · exact absurd heq (hflag _ _ hlt').2
          · exact le_antisymm hle hle'
  have hdistinct : (changes.map (·.cursor)).Nodup :=
    List.pairwise_map.mpr (hordered.imp ne_of_lt)
  have hx : x = x' := List.inj_on_of_nodup_map hdistinct h.applied h'.applied hsame
  exact Option.some.inj (h.visible.symm.trans (hx ▸ h'.visible))

variable {row : ρ}

/-- Reading the history in the order of its keys shows the selected row. -/
theorem visible_keyOrder_iff (keyed : kind.Keyed) (hordered : InOrder changes) :
    kind.visible ((keyOrder changes).map (·.2)) request = some row ↔
      kind.SelectedRow changes request row := by
  rw [ElementKind.visible]
  constructor
  · intro h
    obtain ⟨event, hnewest, hrow⟩ := Option.bind_eq_some_iff.mp h
    obtain ⟨change, happlied, hvisible, hgreatest⟩ := newest_keyOrder keyed hordered hnewest
    exact ⟨change, event, ⟨happlied, hvisible, hgreatest⟩, hrow⟩
  · rintro ⟨change, event, hselects, hrow⟩
    have hsome : newest Event.rank (((keyOrder changes).map (·.2)).filterMap
        (kind.event request)) ≠ none := by
      rw [Ne, newest_eq_none_iff, filterMap_event_eq_nil_iff keyed hordered,
        List.filterMap_eq_nil_iff]
      intro hnone
      have := hnone change.mutation (List.mem_map_of_mem hselects.applied)
      rw [hselects.visible] at this
      cases this
    obtain ⟨event', hnewest⟩ := Option.ne_none_iff_exists'.mp hsome
    obtain ⟨change', happlied, hvisible, hgreatest⟩ := newest_keyOrder keyed hordered hnewest
    have hsame : event' = event :=
      Selects.unique hordered ⟨happlied, hvisible, hgreatest⟩ hselects
    rw [hnewest, hsame]
    exact hrow

/-! ## Scans -/

/-- All visible rows, in the order of their identifiers. -/
def visibleRows (kind : ElementKind ι ρ) (history : List LogicalMutation) (validAt : Int64)
    (transactionAt : TransactionTime) : List ρ :=
  (kind.ids history).filterMap fun id => kind.visible history ⟨id, validAt, transactionAt⟩

variable {history : List LogicalMutation} {validAt : Int64} {transactionAt : TransactionTime}

theorem visibleRows_ordered :
    (kind.visibleRows history validAt transactionAt).Pairwise (fun a b => kind.id a < kind.id b) :=
  filterMap_visible_ordered (ids_ordered history)

/-- An element with a visible row is touched by the history. -/
theorem mem_ids_of_visible (h : kind.visible history request = some row) :
    request.id ∈ kind.ids history := by
  obtain ⟨event, hnewest, hrow⟩ := Option.bind_eq_some_iff.mp h
  have hne : history.filterMap (kind.event request) ≠ [] := by
    intro hnil
    rw [hnil] at hnewest
    cases hnewest
  obtain ⟨e, he⟩ := List.exists_mem_of_ne_nil _ hne
  obtain ⟨mutation, hmutation, hevent⟩ := List.mem_filterMap.mp he
  refine mem_ids.mpr ⟨mutation, hmutation, ?_⟩
  cases herow : e.row with
  | some =>
    obtain ⟨hput, hid, -⟩ := event_some hevent herow
    rw [touched, hput, ← hid]
  | none =>
    obtain ⟨hput, htombstone⟩ := event_none hevent herow
    rw [touched, hput, htombstone]
    rfl

theorem mem_visibleRows :
    row ∈ kind.visibleRows history validAt transactionAt ↔
      kind.visible history ⟨kind.id row, validAt, transactionAt⟩ = some row := by
  rw [visibleRows, List.mem_filterMap]
  constructor
  · rintro ⟨id, -, hvisible⟩
    have hid : kind.id row = id := id_of_visible hvisible
    rw [hid]
    exact hvisible
  · intro hvisible
    exact ⟨kind.id row, mem_ids_of_visible hvisible, hvisible⟩

/-- A point read finds its row among the visible ones. -/
theorem visible_eq_find? (kind : ElementKind ι ρ) (history : List LogicalMutation)
    (request : PointRead ι) :
    kind.visible history request =
      (kind.visibleRows history request.validAt request.transactionAt).find?
        fun row => kind.id row = request.id := by
  symm
  cases hvisible : kind.visible history request with
  | none =>
    rw [List.find?_eq_none]
    intro row hrow hid
    have hid : kind.id row = request.id := by simpa using hid
    rw [mem_visibleRows, hid, hvisible] at hrow
    cases hrow
  | some row =>
    have hid : kind.id row = request.id := id_of_visible hvisible
    have hmem : row ∈ kind.visibleRows history request.validAt request.transactionAt := by
      rw [mem_visibleRows, hid]
      exact hvisible
    cases hfind : (kind.visibleRows history request.validAt request.transactionAt).find?
        fun row => kind.id row = request.id with
    | none => exact absurd hid (by simpa using List.find?_eq_none.mp hfind row hmem)
    | some other =>
      have hother : kind.id other = request.id := by simpa using List.find?_some hfind
      have := List.mem_of_find?_eq_some hfind
      rw [mem_visibleRows, hother, hvisible] at this
      exact this.symm

/-- The rows of a scan are the visible rows after its cursor. -/
theorem scanRows_eq_rest (scan : ScanRead ι) :
    kind.scanRows history scan =
      rest kind.id (kind.visibleRows history scan.validAt scan.transactionAt) scan.after := by
  rw [scanRows, rest, visibleRows, List.filter_filterMap, List.filterMap_filter]
  refine List.filterMap_congr fun id _ => ?_
  cases hvisible : kind.visible history ⟨id, scan.validAt, scan.transactionAt⟩ with
  | none => split_ifs <;> simp
  | some row =>
    have hid : kind.id row = id := id_of_visible hvisible
    cases hafter : scan.after with
    | none => simp [Option.filter]
    | some after =>
      by_cases hlt : after < id
      · simp [Option.filter, hlt, hid]
      · simp [Option.filter, hlt, hid]

/-- Reading the pages of a scan one after another, each within the limit, shows the rows
the rule selects at the two times, each once and in the order of the identifiers. -/
def PagesShow (kind : ElementKind ι ρ) (changes : List ChangeRecord) (validAt : Int64)
    (transactionAt : TransactionTime) (limit : ℕ) (fetch : Option ι → ScanPage ι ρ) : Prop :=
  ∃ count pages,
    collect (fun after => ⟨(fetch after).rows, (fetch after).nextAfter⟩) count none = some pages ∧
      (∀ page ∈ pages, page.length ≤ limit) ∧
      pages.flatten.Pairwise (fun a b => kind.id a < kind.id b) ∧
      ∀ row, row ∈ pages.flatten ↔
        kind.SelectedRow changes ⟨kind.id row, validAt, transactionAt⟩ row

theorem pagesShow (keyed : kind.Keyed)
    (hordered : InOrder changes) (validAt : Int64)
    (transactionAt : TransactionTime) {limit : ℕ} (hlimit : limit ≠ 0) :
    kind.PagesShow changes validAt transactionAt limit (fun after =>
      kind.page (kind.scanRows ((keyOrder changes).map (·.2))
        ⟨validAt, transactionAt, after, limit, hlimit⟩) limit) := by
  let rows := kind.visibleRows ((keyOrder changes).map (·.2)) validAt transactionAt
  have hrows : rows.Pairwise (fun a b => kind.id a < kind.id b) := visibleRows_ordered
  have hall : rest kind.id rows none = rows := List.filter_eq_self.mpr (by simp)
  let fetch : Option ι → Page ρ ι := fun after =>
    let page := kind.page (kind.scanRows ((keyOrder changes).map (·.2))
      ⟨validAt, transactionAt, after, limit, hlimit⟩) limit
    ⟨page.rows, page.nextAfter⟩
  have hfetch : ∀ after, fetch after = ⟨(rest kind.id rows after).take limit,
      if limit < (rest kind.id rows after).length then
        ((rest kind.id rows after).take limit).getLast?.map kind.id
      else none⟩ := by
    intro after
    simp only [fetch, scanRows_eq_rest]
    rfl
  obtain ⟨pages, hcollect, hflatten, hsizes⟩ := collect_eq hrows (Nat.pos_of_ne_zero hlimit)
    hfetch (rows.length + 1) none (by
      rw [hall]
      omega)
  rw [hall] at hflatten
  refine ⟨_, pages, hcollect, hsizes, by rw [hflatten]; exact hrows, fun row => ?_⟩
  rw [hflatten, mem_visibleRows, visible_keyOrder_iff keyed hordered]

theorem contains_of_event {mutation : LogicalMutation} {event : Event ρ}
    (h : kind.event request mutation = some event) (hrow : event.row = some row) :
    (kind.validTime row).contains request.validAt = true ∧
      kind.transactionTime row ≤ request.transactionAt := by
  obtain ⟨hput, -, -⟩ := event_some h hrow
  rw [ElementKind.event, hput] at h
  simp only at h
  split_ifs at h with hif
  exact ⟨hif.2.2, hif.2.1⟩

end ElementKind

/-! ## Expansions -/

open ElementKind

/-- The edge leaves or enters the vertex as the direction asks. -/
def Incident (direction : AdjacencyDirection) (vertexId : VertexId) (edge : EdgeVersion) : Prop :=
  match direction with
  | .outgoing => edge.source = vertexId
  | .incoming => edge.target = vertexId
  | .both => edge.source = vertexId ∨ edge.target = vertexId

instance (direction : AdjacencyDirection) (vertexId : VertexId) :
    DecidablePred (Incident direction vertexId) := fun edge =>
  match direction with
  | .outgoing => inferInstanceAs (Decidable (edge.source = vertexId))
  | .incoming => inferInstanceAs (Decidable (edge.target = vertexId))
  | .both => inferInstanceAs (Decidable (edge.source = vertexId ∨ edge.target = vertexId))

variable {request : AdjacencyRead} {edge : EdgeVersion}

theorem accepts_iff (hvalid : edge.validTime.contains request.validAt = true)
    (htime : edge.transactionTime ≤ request.transactionAt) :
    request.accepts edge = true ↔ Incident request.direction request.vertexId edge := by
  rw [AdjacencyRead.accepts, hvalid, decide_eq_true htime, Bool.and_true, Bool.and_true]
  cases request.direction <;> simp [Incident]

theorem mem_expandRows {changes : List ChangeRecord} (hordered : InOrder changes) :
    edge ∈ expandRows ((keyOrder changes).map (·.2)) request ↔
      edges.SelectedRow changes ⟨edge.id, request.validAt, request.transactionAt⟩ edge ∧
        Incident request.direction request.vertexId edge := by
  have hrows : edge ∈ expandRows ((keyOrder changes).map (·.2)) request ↔
      edges.SelectedRow changes ⟨edge.id, request.validAt, request.transactionAt⟩ edge ∧
        request.accepts edge = true := by
    rw [← visible_keyOrder_iff edgesKeyed hordered]
    exact List.mem_filter.trans (and_congr_left fun _ => mem_visibleRows)
  rw [hrows]
  refine and_congr_right ?_
  rintro ⟨change, event, hselects, hrow⟩
  obtain ⟨hvalid, htime⟩ := contains_of_event hselects.visible hrow
  exact accepts_iff hvalid htime

/-- An expansion shows the visible edges at its vertex. -/
theorem expandRows_eq_filter (history : List LogicalMutation) (request : AdjacencyRead) :
    expandRows history request =
      (edges.visibleRows history request.validAt request.transactionAt).filter
        (Incident request.direction request.vertexId ·) := by
  refine List.filter_congr fun edge hedge => ?_
  have hvisible := mem_visibleRows.mp hedge
  obtain ⟨event, hnewest, hrow⟩ := Option.bind_eq_some_iff.mp hvisible
  obtain ⟨mutation, -, hevent⟩ := List.mem_filterMap.mp (mem_of_newest hnewest)
  obtain ⟨hvalid, htime⟩ := contains_of_event hevent hrow
  rw [Bool.eq_iff_iff, accepts_iff hvalid htime, decide_eq_true_iff]

theorem expandRows_ordered (history : List LogicalMutation) (request : AdjacencyRead) :
    (expandRows history request).Pairwise (fun a b => a.id < b.id) := by
  have hrows : (edges.visibleRows history request.validAt request.transactionAt).Pairwise
      (fun a b => edges.id a < edges.id b) := visibleRows_ordered
  exact hrows.filter _

/-! ## Runs -/

section Runs

variable [Blake3]

/-- What opening an empty namespace gives. -/
def FjallStore.create (binding : ReplicaBinding) : FjallStore :=
  ⟨binding, binding, none, none, none, FjallTables.empty⟩

/-- The batches applied by the calls, in the order they arrived. -/
def loggedBatches (binding : ReplicaBinding) (calls : List (List CommittedShardBatch)) :
    List StoredBatch :=
  (applyCalls ReplicaStore.applyBatches calls ⟨binding, []⟩).log

/-- A store accepts the fence at its own binding, index and capabilities. -/
theorem FjallStore.beginReadView_isOk_iff {fjall : FjallStore} {log : List StoredBatch}
    (h : fjall.Holds log) {fence : ReadFence} :
    (∃ view, fjall.beginReadView fence = .ok view) ↔
      fence = ⟨fjall.binding, log.length, fjall.binding.capabilityDigest⟩ := by
  have hverify : fjall.verifyFence fence = .ok () ↔
      fence = ⟨fjall.binding, log.length, fjall.binding.capabilityDigest⟩ := by
    rw [FjallStore.verifyFence_of_holds h, ReadFence.ext_iff]
    split_ifs <;> simp_all
  rw [← hverify]
  constructor
  · rintro ⟨view, hview⟩
    exact (Result.check_eq_ok.mp hview).1
  · intro hfence
    exact ⟨_, Result.check_eq_ok.mpr ⟨hfence, rfl⟩⟩

/-- After any calls on a new store, the fence at the index reached is accepted, and its read
view shows what the rule of the two times selects from the applied changes.  The history
keyspace is visited in the order of its bytes, which is the order the rule needs. -/
theorem reads_follow_rule (binding : ReplicaBinding) (calls : List (List CommittedShardBatch)) :
    let store := applyCalls FjallStore.applyBatches calls (FjallStore.create binding)
    let log := loggedBatches binding calls
    let changes := ReplicaStore.changesFrom 1 log
    (LogFits log →
      (FjallTables.byteHistory changes).toList.map (·.2) = store.load.history) ∧
    (∀ fence, (∃ view, store.beginReadView fence = .ok view) ↔
      fence = ⟨binding, log.length, binding.capabilityDigest⟩) ∧
    ∀ fence view, store.beginReadView fence = .ok view →
      (∀ request row, view.getVertex request = some row ↔
        vertices.SelectedRow changes request row) ∧
      (∀ request row, view.getEdge request = some row ↔ edges.SelectedRow changes request row) ∧
      (∀ validAt transactionAt limit (hlimit : limit ≠ 0),
        vertices.PagesShow changes validAt transactionAt limit (fun after =>
          view.scanVertices ⟨validAt, transactionAt, after, limit, hlimit⟩) ∧
        edges.PagesShow changes validAt transactionAt limit (fun after =>
          view.scanEdges ⟨validAt, transactionAt, after, limit, hlimit⟩)) ∧
      ∀ request, ∃ rows : List EdgeVersion, view.expand request = rows.take request.limit ∧
        rows.Pairwise (fun a b => a.id < b.id) ∧
        ∀ edge, edge ∈ rows ↔
          edges.SelectedRow changes ⟨edge.id, request.validAt, request.transactionAt⟩ edge ∧
            Incident request.direction request.vertexId edge := by
  intro store log changes
  have hordered : InOrder changes :=
    ReplicaStore.changesFrom_ordered 1 log
  have hempty : (FjallStore.create binding).Holds [] := ⟨rfl, rfl, rfl⟩
  obtain ⟨hholds, hbinding⟩ := FjallStore.holds_applyCalls calls hempty
  have hload : store.load = ⟨(FjallTables.keyOrder changes).map (·.2), changes⟩ :=
    FjallStore.load_of_holds hholds
  refine ⟨fun hfits => ?_, fun fence => ?_, fun fence view hview => ?_⟩
  · rw [FjallTables.toList_byteHistory hfits, hload, List.map_map]
    rfl
  · rw [FjallStore.beginReadView_isOk_iff hholds, hbinding]
    rfl
  · obtain ⟨-, hok⟩ := Result.check_eq_ok.mp hview
    rw [hload] at hok
    cases hok
    exact ⟨fun _ _ => visible_keyOrder_iff verticesKeyed hordered,
      fun _ _ => visible_keyOrder_iff edgesKeyed hordered,
      fun validAt transactionAt limit hlimit =>
        ⟨pagesShow verticesKeyed hordered validAt transactionAt hlimit,
          pagesShow edgesKeyed hordered validAt transactionAt hlimit⟩,
      fun request => ⟨_, rfl, expandRows_ordered _ _, fun _ => mem_expandRows hordered⟩⟩

end Runs

/-- The tombstone came first; of one time and version the put is selected. -/
theorem tombstoneFirst_follows_rule :
    letI := foldHash
    let store := applyCalls FjallStore.applyBatches tombstoneFirst (.create (sampleBinding .fjall))
    let changes := ReplicaStore.changesFrom 1 (loggedBatches (sampleBinding .fjall) tombstoneFirst)
    ∃ view, store.beginReadView
        ⟨sampleBinding .fjall, 2, (sampleBinding .fjall).capabilityDigest⟩ = .ok view ∧
      view.getVertex sampleRead = some sampleVertex ∧
      vertices.SelectedRow changes sampleRead sampleVertex := by
  let _ := foldHash
  intro store changes
  obtain ⟨-, haccepts, hreads⟩ := reads_follow_rule (sampleBinding .fjall) tombstoneFirst
  have hlength : (loggedBatches (sampleBinding .fjall) tombstoneFirst).length = 2 := by
    decide +kernel
  have hread : (store.beginReadView
      ⟨sampleBinding .fjall, 2, (sampleBinding .fjall).capabilityDigest⟩).map
        (·.getVertex sampleRead) = .ok (some sampleVertex) := by
    decide +kernel
  rw [hlength] at haccepts
  obtain ⟨view, hview⟩ := (haccepts _).mpr rfl
  rw [hview] at hread
  have hvertex : view.getVertex sampleRead = some sampleVertex := Except.ok.inj hread
  exact ⟨view, hview, hvertex, ((hreads _ _ hview).1 _ _).mp hvertex⟩

end DtgProxy.Storage

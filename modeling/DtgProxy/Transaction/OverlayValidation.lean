import DtgProxy.Transaction.Overlay

/-! # What overlay validation guarantees

Validation succeeds exactly if the staged versions respect identity and the graph
they lead to passes its checks.  Every check reads a history as a collection, so
the order in which mutations were staged does not matter.
-/
namespace DtgProxy.Transaction

open Kernel Lib DtgProxy.Storage Histories HistoryEdit

variable {versions : List VertexVersion}

/-! ## The sweep -/

variable {required : ValidInterval}

/-- What the sweep has passed and every instant it accepts is covered. -/
theorem sweep_covers {covered : Int64} {intervals : List ValidInterval}
    (h : sweep required covered intervals = true) {t : Int64} (hcovered : covered ≤ t)
    (ht : t < required.stop) :
    ∃ interval ∈ intervals, interval.contains t = true := by
  induction intervals generalizing covered with
  | nil => simp [sweep] at h
  | cons interval rest ih =>
    by_cases hskip : interval.stop ≤ covered ∨ required.stop ≤ interval.start
    · rw [sweep, if_pos hskip] at h
      obtain ⟨found, hfound, hcontains⟩ := ih h hcovered
      exact ⟨found, List.mem_cons_of_mem interval hfound, hcontains⟩
    · by_cases hgap : covered < interval.start
      · simp [sweep, hskip, hgap] at h
      · have hreach : covered < interval.stop := by
          push Not at hskip
          exact Int64.not_le.mp hskip.1
        rw [sweep, if_neg hskip, if_neg hgap, if_pos hreach] at h
        by_cases hin : t < interval.stop
        · refine ⟨interval, List.mem_cons_self, ?_⟩
          have hstart : interval.start ≤ t := Int64.le_trans (Int64.not_lt.mp hgap) hcovered
          simp [ValidInterval.contains, hstart, hin]
        · -- the instant lies beyond this interval, so the sweep went on
          have hbeyond : interval.stop ≤ t := Int64.not_lt.mp hin
          have hopen : ¬required.stop ≤ interval.stop := fun hle =>
            Int64.lt_irrefl (Int64.lt_of_lt_of_le ht (Int64.le_trans hle hbeyond))
          rw [if_neg hopen] at h
          obtain ⟨found, hfound, hcontains⟩ := ih h hbeyond
          exact ⟨found, List.mem_cons_of_mem interval hfound, hcontains⟩

theorem historyCovers_sound (h : historyCovers versions required = true) {t : Int64}
    (ht : required.contains t = true) :
    ∃ version ∈ versions, version.validTime.contains t = true := by
  simp only [ValidInterval.contains, Bool.and_eq_true, decide_eq_true_eq] at ht
  obtain ⟨interval, hinterval, hcontains⟩ := sweep_covers h ht.1 ht.2
  rw [sortIntervals, List.mem_insertionSort, List.mem_map] at hinterval
  obtain ⟨version, hversion, rfl⟩ := hinterval
  exact ⟨version, hversion, hcontains⟩

/-- Intervals in any order are sorted to the same list. -/
theorem sortIntervals_perm {intervals intervals' : List ValidInterval}
    (h : intervals.Perm intervals') : sortIntervals intervals = sortIntervals intervals' := by
  refine List.Perm.eq_of_pairwise (fun a b _ _ hab hba => ?_)
    (List.pairwise_insertionSort _ _) (List.pairwise_insertionSort _ _)
    ((List.perm_insertionSort _ _).trans (h.trans (List.perm_insertionSort _ _).symm))
  have hkey := congrArg ofLex (le_antisymm hab hba)
  exact ValidInterval.ext (Int64.toInt_inj.mp (congrArg Prod.fst hkey))
    (Int64.toInt_inj.mp (congrArg Prod.snd hkey))

variable {versions' : List VertexVersion}

theorem historyCovers_perm (h : versions.Perm versions') (required : ValidInterval) :
    historyCovers versions required = historyCovers versions' required := by
  rw [historyCovers, historyCovers, sortIntervals_perm (h.map _)]

/-! ## Checks of one history -/

namespace Versioned

variable {α : Type} (kind : Versioned α)

theorem clash_comm (left right : α) : kind.clash left right = kind.clash right left := by
  rw [clash, clash, ValidInterval.overlaps_comm]
  congr 1
  exact decide_eq_decide.mpr eq_comm

theorem perm_sortHistory (history : List α) : (kind.sortHistory history).Perm history :=
  List.perm_insertionSort _ _

/-- Versions that can stand together: other numbers, and no common instant. -/
def Apart (left right : α) : Prop :=
  kind.version left ≠ kind.version right ∧
    ∀ t, ¬((kind.validTime left).contains t = true ∧ (kind.validTime right).contains t = true)

variable {kind}

theorem apart_of_clash {left right : α} (h : kind.clash left right = false) :
    kind.Apart left right := by
  simp only [clash, Bool.or_eq_false_iff, decide_eq_false_iff_not] at h
  refine ⟨h.1, fun t ht => ?_⟩
  simp only [ValidInterval.contains, Bool.and_eq_true, decide_eq_true_eq] at ht
  have hoverlaps : (kind.validTime left).overlaps (kind.validTime right) = true := by
    simp only [ValidInterval.overlaps, Bool.and_eq_true, decide_eq_true_eq]
    exact ⟨Int64.lt_of_le_of_lt ht.1.1 ht.2.2, Int64.lt_of_le_of_lt ht.2.1 ht.1.2⟩
  rw [hoverlaps] at h
  cases h.2

end Versioned

theorem validateVertexHistory_eq_ok :
    validateVertexHistory versions = .ok () ↔ anyPair vertexVersions.clash versions = false := by
  unfold validateVertexHistory
  split_ifs with h <;> simp [h]

theorem validateVertexHistory_perm (h : versions.Perm versions')
    (hok : validateVertexHistory versions = .ok ()) :
    validateVertexHistory versions' = .ok () := by
  rw [validateVertexHistory_eq_ok] at hok ⊢
  rw [← anyPair_perm vertexVersions.clash_comm h]
  exact hok

/-- All versions have the endpoints and the type of each other. -/
def SameEdge (versions : List EdgeVersion) : Prop :=
  ∀ left ∈ versions, ∀ right ∈ versions, differs left right = false

theorem differs_eq_false {first edge : EdgeVersion} :
    differs first edge = false ↔ edge.source = first.source ∧ edge.target = first.target ∧
      edge.edgeType = first.edgeType := by
  simp [differs]

variable {versions : List EdgeVersion}

/-- To compare all with the first is to compare all with each other. -/
theorem sameEdge_iff_head :
    (versions.head?.any fun first => versions.any (differs first)) = false ↔
      SameEdge versions := by
  cases versions with
  | nil => simp [SameEdge]
  | cons first =>
    rw [List.head?_cons, Option.any_some, List.any_eq_false]
    constructor
    · intro h left hleft right hright
      have hl := differs_eq_false.mp (by simpa using h left hleft)
      have hr := differs_eq_false.mp (by simpa using h right hright)
      rw [differs_eq_false, hl.1, hl.2.1, hl.2.2]
      exact hr
    · intro h edge hedge
      simpa using h first List.mem_cons_self edge hedge

theorem SameEdge.perm {versions' : List EdgeVersion} (h : SameEdge versions)
    (hperm : versions.Perm versions') : SameEdge versions' :=
  fun left hleft right hright => h left (hperm.mem_iff.mpr hleft) right (hperm.mem_iff.mpr hright)

theorem validateEdgeHistory_eq_ok :
    validateEdgeHistory versions = .ok () ↔
      SameEdge versions ∧ anyPair edgeVersions.clash versions = false := by
  rw [← sameEdge_iff_head]
  unfold validateEdgeHistory
  split_ifs with h
  · simp only [false_iff]
    intro hboth
    simp [hboth.1, hboth.2] at h
  · rw [Bool.not_eq_true, Bool.or_eq_false_iff] at h
    simp [h.1, h.2]

theorem validateEdgeHistory_perm {versions' : List EdgeVersion} (h : versions.Perm versions')
    (hok : validateEdgeHistory versions = .ok ()) :
    validateEdgeHistory versions' = .ok () := by
  rw [validateEdgeHistory_eq_ok] at hok ⊢
  rw [← anyPair_perm edgeVersions.clash_comm h]
  exact ⟨hok.1.perm h, hok.2⟩

/-! ## Checks of a graph -/

namespace BaseGraphSnapshot

variable {graph : BaseGraphSnapshot}

theorem validateHistories_eq_ok :
    graph.validateHistories = .ok () ↔
      (∀ (id : VertexId) history, graph.vertices.entries[id]? = some history →
        validateVertexHistory history = .ok ()) ∧
      ∀ (id : EdgeId) history, graph.edges.entries[id]? = some history →
        validateEdgeHistory history = .ok () := by
  rw [validateHistories, Result.check_eq_ok, Result.foldlM_visit_eq_ok,
    Result.foldlM_visit_eq_ok]
  refine and_congr ⟨fun h id history hfound => ?_, fun h entry hentry => ?_⟩
    ⟨fun h id history hfound => ?_, fun h entry hentry => ?_⟩
  · exact validateVertexHistory_perm (vertexVersions.perm_sortHistory history)
      (h (id, history) (Std.ExtTreeMap.mem_toList_iff_getElem?_eq_some.mpr hfound))
  · exact validateVertexHistory_perm (vertexVersions.perm_sortHistory entry.2).symm
      (h entry.1 entry.2 (Std.ExtTreeMap.mem_toList_iff_getElem?_eq_some.mp hentry))
  · exact validateEdgeHistory_perm (edgeVersions.perm_sortHistory history)
      (h (id, history) (Std.ExtTreeMap.mem_toList_iff_getElem?_eq_some.mpr hfound))
  · exact validateEdgeHistory_perm (edgeVersions.perm_sortHistory entry.2).symm
      (h entry.1 entry.2 (Std.ExtTreeMap.mem_toList_iff_getElem?_eq_some.mp hentry))

/-- A live edge version has both endpoints throughout. -/
def Referenced (graph : BaseGraphSnapshot) (edge : EdgeVersion) : Prop :=
  graph.coversVertex edge.source edge.validTime = true ∧
    graph.coversVertex edge.target edge.validTime = true

theorem validateReferences_eq_ok :
    graph.validateReferences = .ok () ↔
      ∀ (id : EdgeId) history, graph.edges.entries[id]? = some history →
        ∀ edge ∈ history, graph.Referenced edge := by
  have hedge : ∀ edge : EdgeVersion,
      (if graph.coversVertex edge.source edge.validTime &&
          graph.coversVertex edge.target edge.validTime then (.ok () : Except TxnError Unit)
        else .error .referentialIntegrity) = .ok () ↔ graph.Referenced edge := by
    intro edge
    unfold Referenced
    split_ifs with h
    · simpa using h
    · simpa using h
  unfold validateReferences
  simp only [Result.foldlM_visit_eq_ok, hedge]
  constructor
  · intro h id history hfound edge hmem
    exact h (id, history) (Std.ExtTreeMap.mem_toList_iff_getElem?_eq_some.mpr hfound) edge
      ((edgeVersions.perm_sortHistory history).mem_iff.mpr hmem)
  · intro h entry hentry edge hmem
    exact h entry.1 entry.2 (Std.ExtTreeMap.mem_toList_iff_getElem?_eq_some.mp hentry) edge
      ((edgeVersions.perm_sortHistory entry.2).mem_iff.mp hmem)

variable {required : ValidInterval}

theorem coversVertex_eq_true {id : VertexId} :
    graph.coversVertex id required = true ↔ ∃ history,
      graph.vertices.entries[id]? = some history ∧ historyCovers history required = true := by
  unfold coversVertex
  cases graph.vertices.entries[id]? with
  | none => simp
  | some history =>
    simp [historyCovers_perm (vertexVersions.perm_sortHistory history)]

theorem coversVertex_sound {id : VertexId} (h : graph.coversVertex id required = true) {t : Int64}
    (ht : required.contains t = true) :
    ∃ version ∈ graph.vertices.under id, version.validTime.contains t = true := by
  obtain ⟨history, hfound, hcovers⟩ := coversVertex_eq_true.mp h
  obtain ⟨version, hversion, hcontains⟩ := historyCovers_sound hcovers ht
  exact ⟨version, by simpa [under, hfound] using hversion, hcontains⟩

/-- The same histories up to their order. -/
def Similar (graph graph' : BaseGraphSnapshot) : Prop :=
  (∀ (id : VertexId) history, graph.vertices.entries[id]? = some history →
    ∃ history', graph'.vertices.entries[id]? = some history' ∧ history.Perm history') ∧
  ∀ (id : EdgeId) history, graph.edges.entries[id]? = some history →
    ∃ history', graph'.edges.entries[id]? = some history' ∧ history.Perm history'

variable {graph' : BaseGraphSnapshot}

theorem Similar.validateHistories (h : Similar graph' graph)
    (hok : graph.validateHistories = .ok ()) : graph'.validateHistories = .ok () := by
  rw [validateHistories_eq_ok] at hok ⊢
  refine ⟨fun id history hfound => ?_, fun id history hfound => ?_⟩
  · obtain ⟨history', hfound', hperm⟩ := h.1 id history hfound
    exact validateVertexHistory_perm hperm.symm (hok.1 id history' hfound')
  · obtain ⟨history', hfound', hperm⟩ := h.2 id history hfound
    exact validateEdgeHistory_perm hperm.symm (hok.2 id history' hfound')

theorem Similar.coversVertex (h : Similar graph graph') {id : VertexId}
    (hcovers : graph.coversVertex id required = true) :
    graph'.coversVertex id required = true := by
  obtain ⟨history, hfound, hcovers⟩ := coversVertex_eq_true.mp hcovers
  obtain ⟨history', hfound', hperm⟩ := h.1 id history hfound
  exact coversVertex_eq_true.mpr ⟨history', hfound', historyCovers_perm hperm required ▸ hcovers⟩

theorem Similar.validateReferences (h : Similar graph graph') (h' : Similar graph' graph)
    (hok : graph.validateReferences = .ok ()) :
    graph'.validateReferences = .ok () := by
  rw [validateReferences_eq_ok] at hok ⊢
  intro id history' hfound' edge hedge
  obtain ⟨history, hfound, hperm⟩ := h'.2 id history' hfound'
  obtain ⟨hsource, htarget⟩ := hok id history hfound edge (hperm.mem_iff.mp hedge)
  exact ⟨h.coversVertex hsource, h.coversVertex htarget⟩

end BaseGraphSnapshot

/-! ## Identity of the staged versions -/

namespace TransactionOverlay

variable {α κ : Type} [LinearOrder κ] {key : α → κ}

variable (kind : Versioned α)

theorem overlapping_perm {versions versions' : List α}
    (h : versions.Perm versions') : overlapping kind versions = overlapping kind versions' :=
  anyPair_perm (fun _ _ => ValidInterval.overlaps_comm _ _) h

theorem reuses_perm (existing : List α) {staged staged' : List α}
    (h : staged.Perm staged') : reuses kind existing staged = reuses kind existing staged' := by
  rw [Bool.eq_iff_iff, reuses, reuses, List.any_eq_true, List.any_eq_true]
  simp only [h.mem_iff]

omit [LinearOrder κ] in
theorem contested_perm [DecidableEq κ] {removals removals' : List κ}
    (hremovals : removals.Perm removals') (existing : Option (List α)) (k : κ)
    {versions versions' : List α} (h : versions.Perm versions') :
    contested kind removals existing k versions =
      contested kind removals' existing k versions' := by
  unfold contested
  rw [overlapping_perm kind h]
  simp only [hremovals.mem_iff]
  cases existing with
  | none => rfl
  | some existing => simp only [Option.any_some, reuses_perm kind existing h]

/-- To be versions of the first staged edge is to be versions of one edge. -/
theorem changesEdge_eq_false {existing : Option (List EdgeVersion)} {versions : List EdgeVersion}
    (hsome : versions ≠ []) :
    changesEdge existing versions = false ↔ SameEdge (versions ++ existing.getD []) := by
  rw [← sameEdge_iff_head]
  cases versions with
  | nil => exact absurd rfl hsome
  | cons first =>
    have hself : differs first first = false := differs_eq_false.mpr ⟨rfl, rfl, rfl⟩
    cases existing with
    | none | some => simp [changesEdge, hself]

/-- A check of the staged histories that reads each as a collection passes for the
same items in another order. -/
theorem any_ofList_perm {xs xs' : List α} {bad bad' : κ → List α → Bool}
    (hbad : ∀ k versions versions', versions ≠ [] → versions.Perm versions' →
      bad k versions = false → bad' k versions' = false) (h : xs.Perm xs')
    (hgood : ((ofList key xs).entries.toList.any fun entry => bad entry.1 entry.2) =
      false) :
    ((ofList key xs').entries.toList.any fun entry => bad' entry.1 entry.2) = false := by
  rw [List.any_eq_false] at hgood ⊢
  rintro ⟨k, versions'⟩ hentry
  have hfound := Std.ExtTreeMap.mem_toList_iff_getElem?_eq_some.mp hentry
  rw [lookup_ofList] at hfound
  have hperm := h.filter fun item => decide (key item = k)
  split_ifs at hfound with hnone
  cases hfound
  have hsome : xs.filter (fun item => decide (key item = k)) ≠ [] := fun hnil =>
    hnone (by rw [hnil] at hperm; exact hperm.nil_eq.symm)
  have hold : (k, xs.filter fun item => decide (key item = k)) ∈
      (ofList key xs).entries.toList := by
    rw [Std.ExtTreeMap.mem_toList_iff_getElem?_eq_some, lookup_ofList, if_neg hsome]
  have hpassed := hgood _ hold
  simp only [Bool.not_eq_true] at hpassed ⊢
  exact hbad k _ _ hsome hperm hpassed

variable {overlay other : TransactionOverlay} {base : BaseGraphSnapshot}

theorem edits_perm (h : overlay.mutations.Perm other.mutations) :
    overlay.vertexEdits.Perm other.vertexEdits ∧ overlay.edgeEdits.Perm other.edgeEdits :=
  ⟨h.filterMap vertexEdit, h.filterMap edgeEdit⟩

theorem validateVertexIdentity_eq_ok :
    overlay.validateVertexIdentity base = .ok () ↔
      (overlay.vertexPuts.entries.toList.any fun entry =>
        overlay.vertexContested base entry.1 entry.2) = false := by
  unfold validateVertexIdentity
  split_ifs with h <;> simp [h]

theorem validateEdgeIdentity_eq_ok :
    overlay.validateEdgeIdentity base = .ok () ↔
      (overlay.edgePuts.entries.toList.any fun entry =>
        overlay.edgeContested base entry.1 entry.2) = false := by
  unfold validateEdgeIdentity
  split_ifs with h <;> simp [h]

theorem validateVertexIdentity_perm (h : overlay.mutations.Perm other.mutations)
    (hok : overlay.validateVertexIdentity base = .ok ()) :
    other.validateVertexIdentity base = .ok () := by
  have hedits := (edits_perm h).1
  rw [validateVertexIdentity_eq_ok] at hok ⊢
  refine any_ofList_perm (fun id versions versions' _ hperm hgood => ?_)
    (items_perm hedits) hok
  rw [vertexContested] at hgood ⊢
  rw [← contested_perm vertexVersions (removals_perm hedits) _ id hperm]
  exact hgood

theorem validateEdgeIdentity_perm (h : overlay.mutations.Perm other.mutations)
    (hok : overlay.validateEdgeIdentity base = .ok ()) :
    other.validateEdgeIdentity base = .ok () := by
  have hedits := (edits_perm h).2
  rw [validateEdgeIdentity_eq_ok] at hok ⊢
  refine any_ofList_perm (fun id versions versions' hsome hperm hgood => ?_)
    (items_perm hedits) hok
  have hsome' : versions' ≠ [] := fun hnil => hsome (by rw [hnil] at hperm; exact hperm.eq_nil)
  rw [edgeContested, Bool.or_eq_false_iff] at hgood ⊢
  rw [← contested_perm edgeVersions (removals_perm hedits) _ id hperm,
    changesEdge_eq_false hsome']
  exact ⟨hgood.1, ((changesEdge_eq_false hsome).mp hgood.2).perm (hperm.append_right _)⟩

/-- No id is both put and deleted by an overlay that passes an identity check. -/
theorem separate_of_good {edits : List (HistoryEdit α κ)} {bad : κ → List α → Bool}
    (hbad : ∀ k versions, bad k versions = false → k ∉ removals edits)
    (h : ((ofList key (items edits)).entries.toList.any fun entry =>
      bad entry.1 entry.2) = false) : Histories.Separate key edits := by
  intro item hitem
  have hmem : item ∈ (items edits).filter fun other => decide (key other = key item) :=
    List.mem_filter.mpr ⟨hitem, by simp⟩
  have hentry : (key item, (items edits).filter
      fun other => decide (key other = key item)) ∈
        (ofList key (items edits)).entries.toList := by
    rw [Std.ExtTreeMap.mem_toList_iff_getElem?_eq_some, lookup_ofList,
      if_neg (List.ne_nil_of_mem hmem)]
  have hgood := List.any_eq_false.mp h _ hentry
  exact hbad _ _ (by simpa using hgood)

theorem separate_vertices (hok : overlay.validateVertexIdentity base = .ok ()) :
    Histories.Separate VertexVersion.id overlay.vertexEdits := by
  refine separate_of_good (fun id versions hgood => ?_) (validateVertexIdentity_eq_ok.mp hok)
  simp only [vertexContested, contested, Bool.or_eq_false_iff, decide_eq_false_iff_not] at hgood
  exact hgood.1.1

theorem separate_edges (hok : overlay.validateEdgeIdentity base = .ok ()) :
    Histories.Separate EdgeVersion.id overlay.edgeEdits := by
  refine separate_of_good (fun id versions hgood => ?_) (validateEdgeIdentity_eq_ok.mp hok)
  simp only [edgeContested, contested, Bool.or_eq_false_iff, decide_eq_false_iff_not] at hgood
  exact hgood.1.1.1

/-! ## The graph the mutations lead to -/

/-- The mutations that only touch the graph. -/
def onGraph : LogicalMutation → Bool
  | .putTransaction _ | .putReplicaMetadata _ => false
  | _ => true

theorem foldlM_apply_eq_ok {mutations : List LogicalMutation} {graph : BaseGraphSnapshot} :
    mutations.foldlM BaseGraphSnapshot.apply base = .ok graph ↔
      (∀ mutation ∈ mutations, onGraph mutation = true) ∧
        ⟨(mutations.filterMap vertexEdit).foldl edit base.vertices,
          (mutations.filterMap edgeEdit).foldl edit base.edges⟩ = graph := by
  induction mutations generalizing base with
  | nil => simp [pure, Except.pure]
  | cons mutation mutations ih =>
    rw [List.foldlM_cons, Result.bind_eq_ok, List.forall_mem_cons]
    cases mutation with
    | putTransaction | putReplicaMetadata => simp [BaseGraphSnapshot.apply, onGraph]
    | putVertex | deleteVertex | putEdge | deleteEdge =>
      simp only [BaseGraphSnapshot.apply, Except.ok.injEq, exists_eq_left', ih]
      exact ⟨fun h => ⟨⟨rfl, h.1⟩, h.2⟩, fun h => ⟨h.1.2, h.2⟩⟩

theorem applied_eq_ok {graph : BaseGraphSnapshot} :
    overlay.applied base = .ok graph ↔
      (∀ mutation ∈ overlay.mutations, onGraph mutation = true) ∧
        ⟨overlay.vertexEdits.foldl edit base.vertices,
          overlay.edgeEdits.foldl edit base.edges⟩ = graph :=
  foldlM_apply_eq_ok

theorem applied_similar (h : overlay.mutations.Perm other.mutations)
    (hvertices : overlay.validateVertexIdentity base = .ok ())
    (hedges : overlay.validateEdgeIdentity base = .ok ()) {graph graph' : BaseGraphSnapshot}
    (hgraph : overlay.applied base = .ok graph) (hgraph' : other.applied base = .ok graph') :
    graph.Similar graph' := by
  obtain ⟨-, rfl⟩ := applied_eq_ok.mp hgraph
  obtain ⟨-, rfl⟩ := applied_eq_ok.mp hgraph'
  exact ⟨fun _ _ hfound => lookup_foldl_edit_perm (separate_vertices hvertices)
      (edits_perm h).1 base.vertices hfound,
    fun _ _ hfound => lookup_foldl_edit_perm (separate_edges hedges)
      (edits_perm h).2 base.edges hfound⟩

theorem validate_eq_ok :
    overlay.validate base = .ok () ↔
      overlay.validateVertexIdentity base = .ok () ∧ overlay.validateEdgeIdentity base = .ok () ∧
        ∃ graph, overlay.applied base = .ok graph ∧ graph.validateHistories = .ok () ∧
          graph.validateReferences = .ok () := by
  rw [validate, Result.check_eq_ok, Result.check_eq_ok, Result.bind_eq_ok]
  simp only [Result.check_eq_ok]

theorem validate_perm (h : overlay.mutations.Perm other.mutations)
    (hok : overlay.validate base = .ok ()) : other.validate base = .ok () := by
  rw [validate_eq_ok] at hok ⊢
  obtain ⟨hvertices, hedges, graph, hgraph, hhistories, hreferences⟩ := hok
  have hvertices' := validateVertexIdentity_perm h hvertices
  have hedges' := validateEdgeIdentity_perm h hedges
  have honGraph : ∀ mutation ∈ other.mutations, onGraph mutation = true := fun mutation hmem =>
    (applied_eq_ok.mp hgraph).1 mutation (h.mem_iff.mpr hmem)
  obtain ⟨graph', hgraph'⟩ : ∃ graph', other.applied base = .ok graph' :=
    ⟨_, applied_eq_ok.mpr ⟨honGraph, rfl⟩⟩
  have hsimilar := applied_similar h hvertices hedges hgraph hgraph'
  have hsimilar' := applied_similar h.symm hvertices' hedges' hgraph' hgraph
  exact ⟨hvertices', hedges', graph', hgraph', hsimilar'.validateHistories hhistories,
    hsimilar.validateReferences hsimilar' hreferences⟩

end TransactionOverlay

/-! ## Soundness and order -/

/-- A graph as a transaction may leave it. -/
structure BaseGraphSnapshot.Consistent (graph : BaseGraphSnapshot) : Prop where
  vertices : ∀ (id : VertexId) history, graph.vertices.entries[id]? = some history →
    history.Pairwise vertexVersions.Apart
  edges : ∀ (id : EdgeId) history, graph.edges.entries[id]? = some history →
    history.Pairwise edgeVersions.Apart
  identity : ∀ (id : EdgeId) history, graph.edges.entries[id]? = some history →
    ∀ edge ∈ history, ∀ other ∈ history, edge.source = other.source ∧
      edge.target = other.target ∧ edge.edgeType = other.edgeType
  references : ∀ (id : EdgeId) history, graph.edges.entries[id]? = some history →
    ∀ edge ∈ history, ∀ t, edge.validTime.contains t = true →
      (∃ vertex ∈ graph.vertices.under edge.source, vertex.validTime.contains t = true) ∧
      ∃ vertex ∈ graph.vertices.under edge.target, vertex.validTime.contains t = true

theorem BaseGraphSnapshot.consistent_of_validate {graph : BaseGraphSnapshot}
    (hhistories : graph.validateHistories = .ok ())
    (hreferences : graph.validateReferences = .ok ()) : graph.Consistent := by
  rw [validateHistories_eq_ok] at hhistories
  rw [validateReferences_eq_ok] at hreferences
  refine ⟨fun id history hfound => ?_, fun id history hfound => ?_,
    fun id history hfound edge hedge other hother => ?_,
    fun id history hfound edge hedge t ht => ?_⟩
  · have hclear := validateVertexHistory_eq_ok.mp (hhistories.1 id history hfound)
    exact (anyPair_eq_false_iff.mp hclear).imp Versioned.apart_of_clash
  · have hclear := (validateEdgeHistory_eq_ok.mp (hhistories.2 id history hfound)).2
    exact (anyPair_eq_false_iff.mp hclear).imp Versioned.apart_of_clash
  · have hsame := (validateEdgeHistory_eq_ok.mp (hhistories.2 id history hfound)).1
    exact differs_eq_false.mp (hsame other hother edge hedge)
  · obtain ⟨hsource, htarget⟩ := hreferences id history hfound edge hedge
    exact ⟨coversVertex_sound hsource ht, coversVertex_sound htarget ht⟩

/-- A validated overlay leads to a consistent graph, and mutations staged in another
order are validated alike. -/
theorem TransactionOverlay.validation_sound_in_any_order (base : BaseGraphSnapshot)
    (overlay : TransactionOverlay) :
    (overlay.validate base = .ok () →
      ∃ graph, overlay.applied base = .ok graph ∧ graph.Consistent) ∧
    ∀ other : TransactionOverlay, overlay.mutations.Perm other.mutations →
      (overlay.validate base = .ok () ↔ other.validate base = .ok ()) := by
  refine ⟨fun hok => ?_, fun other hperm => ⟨validate_perm hperm, validate_perm hperm.symm⟩⟩
  obtain ⟨-, -, graph, hgraph, hhistories, hreferences⟩ := validate_eq_ok.mp hok
  exact ⟨graph, hgraph, BaseGraphSnapshot.consistent_of_validate hhistories hreferences⟩

/-- An edge between two vertices, staged before them. -/
def edgeFirst : TransactionOverlay :=
  ⟨[.putEdge (.plain 9 1 2 .decade 1), .putVertex (.plain 2 .decade 1),
    .putVertex (.plain 1 .decade 1)]⟩

theorem edgeFirst_sound_in_any_order :
    edgeFirst.validate ⟨.empty, .empty⟩ = .ok () ∧
      (∃ graph, edgeFirst.applied ⟨.empty, .empty⟩ = .ok graph ∧ graph.Consistent) ∧
      TransactionOverlay.validate ⟨edgeFirst.mutations.reverse⟩ ⟨.empty, .empty⟩ = .ok () := by
  have hok : edgeFirst.validate ⟨.empty, .empty⟩ = .ok () := by decide +kernel
  obtain ⟨hsound, horder⟩ :=
    TransactionOverlay.validation_sound_in_any_order ⟨.empty, .empty⟩ edgeFirst
  exact ⟨hok, hsound hok, (horder _ (List.reverse_perm _).symm).mp hok⟩

end DtgProxy.Transaction

import DtgProxy.Storage.ProviderReads

/-! # Fjall and Kuzu after the same batches

The same calls are made on an empty Fjall store and on an empty Kuzu store, each
under its own binding.  Every read at every fence then returns the same on both,
exactly when both have applied the same changes and no put is hidden behind a
tombstone that arrived before it with the same transaction time and version.
The changes are the same whenever no call delivers an index twice.
-/
namespace DtgProxy.Storage

open Kernel Lib Lib.Newest ElementKind
open ReplicaStore (changesFrom changesFrom_ordered lastMetadata map_mutation_changesFrom)

/-! ## Calls and reads -/

/-- The batch as it is sent to the store of another binding. -/
def CommittedShardBatch.rebind (binding : ReplicaBinding) (batch : CommittedShardBatch) :
    CommittedShardBatch :=
  { batch with binding := binding }

/-- The state after a list of calls; a call that fails has no effect. -/
def applyCalls {σ : Type}
    (apply : σ → List CommittedShardBatch → Except StorageError (List ApplyReceipt × σ))
    (calls : List (List CommittedShardBatch)) (s : σ) : σ :=
  calls.foldl (fun s call =>
    match apply s call with
    | .ok result => result.2
    | .error _ => s) s

def rebindCalls (binding : ReplicaBinding) (calls : List (List CommittedShardBatch)) :
    List (List CommittedShardBatch) :=
  calls.map fun call => call.map (CommittedShardBatch.rebind binding)

inductive ReadRequest where
  | getVertex (request : VertexRead)
  | getEdge (request : EdgeRead)
  | vertexHistory (request : VertexHistoryRead)
  | edgeHistory (request : EdgeHistoryRead)
  | expand (request : AdjacencyRead)
  | changes (request : ChangesRead)
  | scanVertices (request : VertexScan)
  | scanEdges (request : EdgeScan)

inductive ReadResult where
  | vertex (row : Option VertexVersion)
  | edge (row : Option EdgeVersion)
  | vertices (rows : List VertexVersion)
  | edges (rows : List EdgeVersion)
  | changes (page : ChangePage)
  | vertexPage (page : ScanPage VertexId VertexVersion)
  | edgePage (page : ScanPage EdgeId EdgeVersion)
deriving DecidableEq

def FjallStore.View.read (view : FjallStore.View) : ReadRequest → ReadResult
  | .getVertex request => .vertex (view.getVertex request)
  | .getEdge request => .edge (view.getEdge request)
  | .vertexHistory request => .vertices (view.vertexHistory request)
  | .edgeHistory request => .edges (view.edgeHistory request)
  | .expand request => .edges (view.expand request)
  | .changes request => .changes (view.changesPage request)
  | .scanVertices request => .vertexPage (view.scanVertices request)
  | .scanEdges request => .edgePage (view.scanEdges request)

def KuzuState.read (state : KuzuState) : ReadRequest → ReadResult
  | .getVertex request => .vertex (state.getVertex request)
  | .getEdge request => .edge (state.getEdge request)
  | .vertexHistory request => .vertices (state.vertexHistory request)
  | .edgeHistory request => .edges (state.edgeHistory request)
  | .expand request => .edges (state.expand request)
  | .changes request => .changes (state.changesPage request)
  | .scanVertices request => .vertexPage (state.scanVertices request)
  | .scanEdges request => .edgePage (state.scanEdges request)

def FjallStore.read (store : FjallStore) (fence : ReadFence) (request : ReadRequest) :
    Except StorageError ReadResult := do
  let view ← store.beginReadView fence
  .ok (view.read request)

def KuzuStore.read [Blake3] (store : KuzuStore) (fence : ReadFence) (request : ReadRequest) :
    Except StorageError ReadResult := do
  let view ← store.beginReadView fence
  .ok (view.read request)

section Agreement

variable [Blake3]
variable {fjall : FjallStore} {log log' : List StoredBatch}
variable {kuzu : KuzuStore}

/-- Every read at every fence on the own binding, and every metadata point read,
returns the same on both stores. -/
def ReadsAgree (fjall : FjallStore) (kuzu : KuzuStore) : Prop :=
  (∀ appliedIndex capabilityDigest request,
    fjall.read ⟨fjall.binding, appliedIndex, capabilityDigest⟩ request =
      kuzu.read ⟨kuzu.binding, appliedIndex, capabilityDigest⟩ request) ∧
  ∀ name, fjall.replicaMetadata name = .ok (kuzu.replicaMetadata name)

/-- The batches that the calls apply, when each call follows the rule. -/
def appliedStore
    (rule : ReplicaStore → List CommittedShardBatch →
      Except StorageError (List ApplyReceipt × ReplicaStore))
    (binding : ReplicaBinding) (calls : List (List CommittedShardBatch)) : ReplicaStore :=
  applyCalls rule (rebindCalls binding calls) ⟨binding, []⟩

/-! ## The log of each side -/

/-- Calls on stores with one log have one outcome, whatever the binding. -/
theorem applyBatches_rebind (first second : ReplicaBinding) (log : List StoredBatch)
    (batches : List CommittedShardBatch) :
    ((⟨first, log⟩ : ReplicaStore).applyBatches (batches.map (CommittedShardBatch.rebind first))).map
        (fun result => (result.1, (⟨second, result.2.log⟩ : ReplicaStore))) =
      (⟨second, log⟩ : ReplicaStore).applyBatches
        (batches.map (CommittedShardBatch.rebind second)) := by
  have hown : ∀ binding : ReplicaBinding, (batches.map (CommittedShardBatch.rebind binding)).find?
      (fun batch => decide (batch.binding ≠ binding)) = none := by
    intro binding
    rw [List.find?_eq_none]
    intro batch hbatch
    obtain ⟨origin, -, rfl⟩ := List.mem_map.mp hbatch
    simp [CommittedShardBatch.rebind]
  have hfold : ∀ binding : ReplicaBinding,
      (batches.map (CommittedShardBatch.rebind binding)).foldlM
          (ReplicaStore.stage ⟨binding, log⟩) ⟨[], []⟩ =
        batches.foldlM (ReplicaStore.stage ⟨first, log⟩) ⟨[], []⟩ := fun binding =>
    List.foldlM_map ..
  unfold ReplicaStore.applyBatches
  simp only [hown, hfold]
  cases batches.foldlM (ReplicaStore.stage ⟨first, log⟩) ⟨[], []⟩ <;> rfl

variable {result : List ApplyReceipt × ReplicaStore} {batches : List CommittedShardBatch}
  {store : ReplicaStore}

theorem binding_applyBatches (h : store.applyBatches batches = .ok result) :
    result.2.binding = store.binding := by
  unfold ReplicaStore.applyBatches at h
  split at h
  · cases h
  · obtain ⟨acc, -, hok⟩ := Result.bind_eq_ok.mp h
    cases hok
    rfl

theorem binding_applyInTurn (h : store.applyInTurn batches = .ok result) :
    result.2.binding = store.binding := by
  unfold ReplicaStore.applyInTurn at h
  split at h
  · cases h
  · obtain ⟨acc, -, hok⟩ := Result.bind_eq_ok.mp h
    cases hok
    rfl

/-- A Fjall store holds the log of the calls made on it. -/
theorem FjallStore.holds_applyCalls (calls : List (List CommittedShardBatch))
    (h : fjall.Holds log) :
    (applyCalls FjallStore.applyBatches calls fjall).Holds
        (applyCalls ReplicaStore.applyBatches calls ⟨fjall.binding, log⟩).log ∧
      (applyCalls FjallStore.applyBatches calls fjall).binding = fjall.binding := by
  refine And.imp_right And.left (List.foldl_rel (r := fun (other : FjallStore)
    (store : ReplicaStore) => other.Holds store.log ∧ other.binding = fjall.binding ∧
      store.binding = other.binding) ⟨h, rfl, rfl⟩ ?_)
  rintro call - other ⟨_, log⟩ ⟨hother, hown, rfl⟩
  rw [applyBatches_holds hother call]
  cases hcall : (⟨other.binding, log⟩ : ReplicaStore).applyBatches call with
  | error => exact ⟨hother, hown, rfl⟩
  | ok => exact ⟨⟨hother.owned, hother.idle, rfl⟩, hown, binding_applyBatches hcall⟩

/-- So does a Kuzu store, which takes the batches of a call in turn. -/
theorem KuzuStore.holds_applyCalls (calls : List (List CommittedShardBatch))
    (h : kuzu.Holds log) :
    (applyCalls KuzuStore.applyBatches calls kuzu).Holds
      (applyCalls ReplicaStore.applyInTurn calls ⟨kuzu.binding, log⟩).log := by
  refine (List.foldl_rel (r := fun (other : KuzuStore) (store : ReplicaStore) =>
    other.Holds store.log ∧ other.binding = store.binding) ⟨h, rfl⟩ ?_).1
  rintro call - other ⟨binding, log⟩ ⟨hother, rfl⟩
  rw [applyBatches_holds hother call]
  cases hcall : (⟨other.binding, log⟩ : ReplicaStore).applyInTurn call with
  | error => exact ⟨hother, rfl⟩
  | ok => exact ⟨rfl, (binding_applyInTurn hcall).symm⟩

/-- The two rules apply the same batches when no call delivers an index twice. -/
theorem appliedStore_eq {calls : List (List CommittedShardBatch)}
    (hnodup : ∀ call ∈ calls, (call.map (·.raftIndex)).Nodup) (first second : ReplicaBinding) :
    (appliedStore ReplicaStore.applyBatches first calls).log =
      (appliedStore ReplicaStore.applyInTurn second calls).log := by
  unfold appliedStore applyCalls rebindCalls
  rw [List.foldl_map, List.foldl_map]
  refine (List.foldl_rel (a := ⟨first, []⟩) (b := ⟨second, []⟩) (r := fun left right : ReplicaStore =>
    left.log = right.log ∧ left.binding = first ∧ right.binding = second) ⟨rfl, rfl, rfl⟩ ?_).1
  rintro call hcall ⟨first, log⟩ ⟨second, _⟩ ⟨rfl, rfl, rfl⟩
  have hrebound : ((call.map (CommittedShardBatch.rebind second)).map (·.raftIndex)).Nodup := by
    rw [List.map_map]
    exact hnodup call hcall
  rw [ReplicaStore.applyInTurn_eq hrebound, ← applyBatches_rebind first second log call]
  cases happly : (⟨first, log⟩ : ReplicaStore).applyBatches
      (call.map (CommittedShardBatch.rebind first)) with
  | error => exact ⟨rfl, rfl, rfl⟩
  | ok => exact ⟨rfl, binding_applyBatches happly, rfl⟩

/-! ## Reads of one log -/

theorem FjallStore.load_of_holds (h : fjall.Holds log) :
    fjall.load = ⟨(FjallTables.keyOrder (changesFrom 1 log)).map (·.2),
      changesFrom 1 log⟩ := by
  have hordered := changesFrom_ordered 1 log
  unfold FjallStore.load
  rw [h.tables, FjallTables.ofLog_eq]
  simp only [FjallTables.withReplay, FjallTables.toList_temporalIndex hordered, List.map_map]
  congr 1
  exact List.map_id _

/-- What reads see of a Kuzu state with the changes. -/
def KuzuState.ofChanges (changes : List ChangeRecord) : KuzuState :=
  ⟨0, changes.map (·.mutation), ∅, changes⟩

theorem KuzuState.read_ofLog (log : List StoredBatch) (request : ReadRequest) :
    (KuzuState.ofLog log).read request =
      (KuzuState.ofChanges (changesFrom 1 log)).read request := by
  rw [KuzuState.ofLog, ← map_mutation_changesFrom 1 log]
  cases request <;> rfl

/-- What a fence decides before a read: the capabilities, then the index. -/
def throughFence (own fence : Digest32 × ℕ) (result : ReadResult) : Except StorageError ReadResult :=
  if fence.1 ≠ own.1 then .error .capabilityDrift
  else if fence.2 ≠ own.2 then .error (.readFenceUnavailable fence.2 own.2)
  else .ok result

variable {appliedIndex : ℕ} {digest own : Digest32} {request : ReadRequest}

theorem FjallStore.verifyFence_of_holds (h : fjall.Holds log) (fence : ReadFence) :
    fjall.verifyFence fence =
      if fence.binding ≠ fjall.binding then .error (.staleBinding fjall.binding fence.binding)
      else if fence.capabilityDigest ≠ fjall.binding.capabilityDigest then .error .capabilityDrift
      else if fence.appliedIndex ≠ log.length then
        .error (.readFenceUnavailable fence.appliedIndex log.length)
      else .ok () := by
  unfold FjallStore.verifyFence
  rw [FjallStore.verifyBinding, if_neg (not_not.mpr h.owned), FjallStore.ensureNoRestoreInProgress,
    h.idle, h.tables, FjallTables.appliedIndex_ofLog]
  split_ifs <;> rfl

theorem FjallStore.read_of_holds (h : fjall.Holds log) :
    fjall.read ⟨fjall.binding, appliedIndex, digest⟩ request =
      throughFence (fjall.binding.capabilityDigest, log.length) (digest, appliedIndex)
        (fjall.load.read request) := by
  unfold FjallStore.read FjallStore.beginReadView throughFence
  rw [FjallStore.verifyFence_of_holds h, if_neg (not_not.mpr rfl)]
  split_ifs <;> rfl

/-- The embedded capabilities have the digest. -/
def HasEmbeddedCapabilities (digest : Digest32) : Prop :=
  ∃ capabilities, CapabilityManifest.fromNames embeddedCapabilities = .ok capabilities ∧
    digest = capabilities.digest

theorem KuzuStore.read_of_holds (h : kuzu.Holds log) (hown : HasEmbeddedCapabilities own) :
    kuzu.read ⟨kuzu.binding, appliedIndex, digest⟩ request =
      throughFence (own, log.length) (digest, appliedIndex)
        ((KuzuState.ofChanges (changesFrom 1 log)).read request) := by
  obtain ⟨capabilities, hcapabilities, rfl⟩ := hown
  have hstate : kuzu.state = KuzuState.ofLog log := h
  have happlied : (KuzuState.ofLog log).appliedIndex = log.length := rfl
  unfold KuzuStore.read KuzuStore.beginReadView KuzuStore.verifyFence throughFence
  rw [← KuzuState.read_ofLog, if_neg (not_not.mpr rfl), hcapabilities, hstate, happlied]
  by_cases hcap : digest = capabilities.digest
  · by_cases hindex : log.length = appliedIndex
    · simp [hcap, hindex, bind, Except.bind]
    · simp [hcap, hindex, Ne.symm hindex, bind, Except.bind]
  · simp [hcap, bind, Except.bind]

theorem capabilityDigest_of_matchesEmbedded {provider : ProviderKind}
    (h : matchesEmbedded provider binding = true) :
    HasEmbeddedCapabilities binding.capabilityDigest := by
  unfold matchesEmbedded at h
  split at h
  · rename_i capabilities backend hcapabilities hbackend
    simp only [Bool.and_eq_true, decide_eq_true_eq] at h
    exact ⟨capabilities, hcapabilities, h.1.2⟩
  · cases h

omit [Blake3] in
theorem KuzuStore.replicaMetadata_eq (kuzu : KuzuStore) (name : String) :
    kuzu.replicaMetadata name = lastMetadata name kuzu.state.history := by
  unfold KuzuStore.replicaMetadata
  induction kuzu.state.history with
  | nil => rfl
  | cons mutation history ih =>
    rw [List.reverse_cons, List.findSome?_append, ih, ReplicaStore.lastMetadata_cons]
    congr 1
    cases mutation with
    | putReplicaMetadata =>
      dsimp only
      split_ifs with hname <;> simp [hname]
    | _ => rfl

/-- Metadata point reads agree on the same changes. -/
theorem replicaMetadata_of_holds (hfjall : fjall.Holds log) (hkuzu : kuzu.Holds log')
    (hchanges : changesFrom 1 log = changesFrom 1 log') (name : String) :
    fjall.replicaMetadata name = .ok (kuzu.replicaMetadata name) := by
  have hstate : kuzu.state = KuzuState.ofLog log' := hkuzu
  have hlookup : fjall.tables.replicaMeta[name]? = kuzu.replicaMetadata name := by
    rw [hfjall.tables, FjallTables.ofLog_eq]
    change (((changesFrom 1 log).foldl FjallTables.stageMutation
      FjallTables.empty).replicaMeta)[name]? = _
    rw [FjallTables.lookup_replicaMeta, KuzuStore.replicaMetadata_eq, hstate, KuzuState.ofLog,
      ← map_mutation_changesFrom 1 log', hchanges]
    simp [FjallTables.empty]
  unfold FjallStore.replicaMetadata
  rw [if_neg (not_not.mpr hfjall.owned), hlookup]
  cases hfound : kuzu.replicaMetadata name with
  | none => rfl
  | some metadata =>
    have hname : metadata.name = name := by
      rw [KuzuStore.replicaMetadata_eq] at hfound
      exact (ReplicaStore.lastMetadata_name hfound).1
    simp [hname]

omit [Blake3] in
/-- Views of the same changes answer every request alike exactly when no put is hidden. -/
theorem view_read_eq_iff {changes : List ChangeRecord} (hordered : InOrder changes) :
    (∀ request, (⟨(FjallTables.keyOrder changes).map (·.2), changes⟩ : FjallStore.View).read request =
      (KuzuState.ofChanges changes).read request) ↔
    (∀ request, ¬ vertices.PutHidden changes request) ∧
      ∀ request, ¬ edges.PutHidden changes request := by
  constructor
  · intro h
    refine ⟨fun request => ?_, fun request => ?_⟩
    · exact (visible_eq_iff verticesKeyed hordered).mp
        (ReadResult.vertex.inj (h (.getVertex request)))
    · exact (visible_eq_iff edgesKeyed hordered).mp
        (ReadResult.edge.inj (h (.getEdge request)))
  · rintro ⟨hvertices, hedges⟩ request
    have hvertex := fun request =>
      (visible_eq_iff verticesKeyed hordered).mpr (hvertices request)
    have hedge := fun request =>
      (visible_eq_iff edgesKeyed hordered).mpr (hedges request)
    cases request with
    | getVertex request => exact congrArg _ (hvertex request)
    | getEdge request => exact congrArg _ (hedge request)
    | vertexHistory => exact congrArg _ (history_eq verticesKeyed hordered)
    | edgeHistory => exact congrArg _ (history_eq edgesKeyed hordered)
    | expand request =>
      rw [FjallStore.View.read, KuzuState.read, KuzuState.expand, sortBy_expandRows,
        FjallStore.View.expand, expandRows_eq hordered request fun id => hedge ⟨id, _, _⟩]
      rfl
    | changes request =>
      have hsorted : sortBy ChangeRecord.cursor (changes.filter
          (fun change => request.includes change.cursor)) = _ :=
        sortBy_eq_self ((hordered.filter _).imp le_of_lt)
      simp only [FjallStore.View.read, KuzuState.read, FjallStore.View.changesPage,
        KuzuState.changesPage, KuzuState.ofChanges, hsorted]
    | scanVertices request =>
      rw [FjallStore.View.read, FjallStore.View.scanVertices,
        scanRows_eq verticesKeyed hordered request fun id => hvertex ⟨id, _, _⟩]
      exact congrArg (fun rows => ReadResult.vertexPage (vertices.page rows request.limit))
        (sortBy_scanRows _ request).symm
    | scanEdges request =>
      rw [FjallStore.View.read, FjallStore.View.scanEdges,
        scanRows_eq edgesKeyed hordered request fun id => hedge ⟨id, _, _⟩]
      exact congrArg (fun rows => ReadResult.edgePage (edges.page rows request.limit))
        (sortBy_scanRows _ request).symm

/-- A request for every change of both lists. -/
def readAll (first second : List ChangeRecord) : ChangesRead :=
  ⟨none, ((first ++ second).map (·.cursor.raftIndex)).sum, (first ++ second).length + 1⟩

omit [Blake3] in
theorem take_filter_readAll {changes first second : List ChangeRecord}
    (h : changes = first ∨ changes = second) :
    (changes.filter fun change => (readAll first second).includes change.cursor).take
      (readAll first second).limit = changes := by
  have hlength : changes.length ≤ (first ++ second).length + 1 := by
    rw [List.length_append]
    rcases h with rfl | rfl <;> omega
  have hincludes : ∀ change ∈ changes, (readAll first second).includes change.cursor := by
    intro change hchange
    have hmem : change ∈ first ++ second := by
      rcases h with rfl | rfl
      · exact List.mem_append_left _ hchange
      · exact List.mem_append_right _ hchange
    exact decide_eq_true (List.le_sum_of_mem (List.mem_map_of_mem hmem))
  rw [List.filter_eq_self.mpr hincludes]
  exact List.take_of_length_le hlength

omit [Blake3] in
/-- Views that answer every request alike have the same changes. -/
theorem changes_eq_of_read {history : List LogicalMutation} {first second : List ChangeRecord}
    (hordered : InOrder second)
    (h : ∀ request, (⟨history, first⟩ : FjallStore.View).read request =
      (KuzuState.ofChanges second).read request) : first = second := by
  have hrows := congrArg ChangePage.rows (ReadResult.changes.inj (h (.changes (readAll first second))))
  have hsorted : sortBy ChangeRecord.cursor (second.filter
      (fun change => (readAll first second).includes change.cursor)) = _ :=
    sortBy_eq_self ((hordered.filter _).imp le_of_lt)
  simp only [FjallStore.View.changesPage, KuzuState.changesPage, KuzuState.ofChanges, hsorted] at hrows
  rwa [take_filter_readAll (Or.inl rfl), take_filter_readAll (Or.inr rfl)] at hrows

/-- Stores agree exactly when they hold the same changes and no put is hidden. -/
theorem readsAgree_iff_of_holds (hfjall : fjall.Holds log) (hkuzu : kuzu.Holds log')
    (hdigest : HasEmbeddedCapabilities fjall.binding.capabilityDigest) :
    ReadsAgree fjall kuzu ↔
      (log.length = log'.length ∧
        changesFrom 1 log = changesFrom 1 log') ∧
      (∀ request, ¬ vertices.PutHidden (changesFrom 1 log) request) ∧
        ∀ request, ¬ edges.PutHidden (changesFrom 1 log) request := by
  have hload := FjallStore.load_of_holds hfjall
  rw [← view_read_eq_iff (changesFrom_ordered 1 log), ← hload]
  constructor
  · rintro ⟨hread, -⟩
    have hfence := hread log.length fjall.binding.capabilityDigest
    simp only [FjallStore.read_of_holds hfjall, KuzuStore.read_of_holds hkuzu hdigest] at hfence
    have hlength : log.length = log'.length := by
      by_contra hne
      simpa [throughFence, hne] using hfence (.changes (readAll [] []))
    have hview : ∀ request, fjall.load.read request =
        (KuzuState.ofChanges (changesFrom 1 log')).read request := by
      simpa [throughFence, ← hlength] using hfence
    have hchanges := changes_eq_of_read (changesFrom_ordered 1 log') (hload ▸ hview)
    exact ⟨⟨hlength, hchanges⟩, hchanges ▸ hview⟩
  · rintro ⟨⟨hlength, hchanges⟩, hview⟩
    refine ⟨fun appliedIndex digest request => ?_, replicaMetadata_of_holds hfjall hkuzu hchanges⟩
    rw [FjallStore.read_of_holds hfjall, KuzuStore.read_of_holds hkuzu hdigest, hview request,
      hchanges, hlength]

/-- After the same calls, Fjall and Kuzu answer alike exactly when both have applied
the same changes and no put is hidden behind a tombstone that arrived before it. -/
theorem readsAgree_applyCalls_iff {fjallBinding kuzuBinding : ReplicaBinding} {fjall : FjallStore}
    {kuzu : KuzuStore} (hfjall : FjallStore.openNew fjallBinding = .ok fjall)
    (hkuzu : KuzuStore.openNew kuzuBinding = .ok kuzu) (calls : List (List CommittedShardBatch)) :
    let byFjall := appliedStore ReplicaStore.applyBatches fjallBinding calls
    let byKuzu := appliedStore ReplicaStore.applyInTurn kuzuBinding calls
    (ReadsAgree (applyCalls FjallStore.applyBatches (rebindCalls fjallBinding calls) fjall)
        (applyCalls KuzuStore.applyBatches (rebindCalls kuzuBinding calls) kuzu) ↔
      (byFjall.appliedIndex = byKuzu.appliedIndex ∧ byFjall.changes = byKuzu.changes) ∧
        (∀ request, ¬ vertices.PutHidden byFjall.changes request) ∧
          ∀ request, ¬ edges.PutHidden byFjall.changes request) ∧
      ((∀ call ∈ calls, (call.map (·.raftIndex)).Nodup) → byFjall.log = byKuzu.log) := by
  have hdigest : HasEmbeddedCapabilities fjallBinding.capabilityDigest := by
    unfold FjallStore.openNew at hfjall
    split_ifs at hfjall with hmatches
    exact capabilityDigest_of_matchesEmbedded hmatches
  obtain ⟨hempty, rfl⟩ := FjallStore.holds_openNew hfjall
  obtain ⟨hempty', rfl⟩ := KuzuStore.holds_openNew hkuzu
  obtain ⟨hholds, hbinding⟩ :=
    FjallStore.holds_applyCalls (rebindCalls fjall.binding calls) hempty
  have hholds' := KuzuStore.holds_applyCalls (rebindCalls kuzu.binding calls) hempty'
  refine ⟨readsAgree_iff_of_holds hholds hholds' ?_, fun h => appliedStore_eq h _ _⟩
  rwa [hbinding]

end Agreement

/-! ## A tombstone and a later put of one time and version -/

def sampleBinding (provider : ProviderKind) : ReplicaBinding :=
  letI := foldHash
  { clusterId := 1
    graphId := 7
    shardId := 11
    placementEpoch := 13
    replicaId := 17
    backendGeneration := 1
    backendClassDigest :=
      match BackendClass.withDurability provider 1 1 .durableCommit embeddedCapabilities with
      | .ok backend => backend.digest
      | .error _ => Digest32.zero
    providerKind := provider
    contractVersion := 1
    layoutVersion := 1
    capabilityDigest :=
      match CapabilityManifest.fromNames embeddedCapabilities with
      | .ok capabilities => capabilities.digest
      | .error _ => Digest32.zero
    namespaceId := "replica"
    endpointProfileRef := "local"
    credentialRef := "local"
    role := .active }

def sampleVertexId : VertexId := 5

def sampleVertex : VertexVersion := .plain sampleVertexId .decade 20

def sampleTombstone : VertexTombstone := ⟨sampleVertexId, 1, 20⟩

def sampleBatch (batches : ℕ) (mutation : LogicalMutation) : CommittedShardBatch :=
  ⟨sampleBinding .fjall, 1, batches + 1, 9, [mutation], Nat.one_ne_zero, Nat.succ_ne_zero _, by simp⟩

/-- The tombstone is applied at index one and the put at index two. -/
def tombstoneFirst : List (List CommittedShardBatch) :=
  [[sampleBatch 0 (.deleteVertex sampleTombstone)],
    [sampleBatch 1 (.putVertex sampleVertex)]]

def sampleRead : VertexRead := ⟨sampleVertexId, 0, 20⟩

def emptyFjall : FjallStore :=
  ⟨sampleBinding .fjall, sampleBinding .fjall, none, none, none, FjallTables.empty⟩

def emptyKuzu : KuzuStore := ⟨sampleBinding .kuzu, KuzuState.empty⟩

theorem matchesEmbedded_sampleBinding (provider : ProviderKind)
    (h : provider = .fjall ∨ provider = .kuzu) :
    @matchesEmbedded foldHash provider (sampleBinding provider) = true := by
  rcases h with rfl | rfl <;> decide +kernel

theorem openNew_emptyFjall : @FjallStore.openNew foldHash (sampleBinding .fjall) = .ok emptyFjall :=
  if_pos (matchesEmbedded_sampleBinding .fjall (Or.inl rfl))

theorem openNew_emptyKuzu : @KuzuStore.openNew foldHash (sampleBinding .kuzu) = .ok emptyKuzu :=
  if_pos (matchesEmbedded_sampleBinding .kuzu (Or.inr rfl))

def deliveredTwice : List (List CommittedShardBatch) :=
  [[sampleBatch 0 (.putVertex sampleVertex), sampleBatch 0 (.putVertex sampleVertex)]]

/-- Fjall returns the put, Kuzu hides it behind the tombstone.  Of a batch delivered
twice in one call Fjall applies nothing, Kuzu the first delivery. -/
theorem tombstoneFirst_reads_differ :
    letI := foldHash
    let fjall := applyCalls FjallStore.applyBatches
      (rebindCalls (sampleBinding .fjall) tombstoneFirst) emptyFjall
    let kuzu := applyCalls KuzuStore.applyBatches
      (rebindCalls (sampleBinding .kuzu) tombstoneFirst) emptyKuzu
    FjallStore.openNew (sampleBinding .fjall) = .ok emptyFjall ∧
      KuzuStore.openNew (sampleBinding .kuzu) = .ok emptyKuzu ∧
      fjall.read ⟨sampleBinding .fjall, 2, (sampleBinding .fjall).capabilityDigest⟩
        (.getVertex sampleRead) = .ok (.vertex (some sampleVertex)) ∧
      kuzu.read ⟨sampleBinding .kuzu, 2, (sampleBinding .kuzu).capabilityDigest⟩
        (.getVertex sampleRead) = .ok (.vertex none) ∧
      (applyCalls FjallStore.applyBatches (rebindCalls (sampleBinding .fjall) deliveredTwice)
        emptyFjall).tables.appliedIndex = 0 ∧
      (applyCalls KuzuStore.applyBatches (rebindCalls (sampleBinding .kuzu) deliveredTwice)
        emptyKuzu).state.appliedIndex = 1 := by
  refine ⟨openNew_emptyFjall, openNew_emptyKuzu, ?_, ?_, ?_, ?_⟩
  · decide +kernel
  · decide +kernel
  · decide +kernel
  · decide +kernel

/-- The same two mutations in the other order. -/
def putFirst : List (List CommittedShardBatch) :=
  [[sampleBatch 0 (.putVertex sampleVertex)],
    [sampleBatch 1 (.deleteVertex sampleTombstone)]]

theorem changes_putFirst :
    letI := foldHash
    (appliedStore ReplicaStore.applyBatches (sampleBinding .fjall) putFirst).changes =
      [⟨⟨1, 0⟩, .putVertex sampleVertex⟩, ⟨⟨2, 0⟩, .deleteVertex sampleTombstone⟩] := by
  decide +kernel

/-- When the put arrives first, both stores agree on every read. -/
theorem readsAgree_putFirst :
    letI := foldHash
    ReadsAgree
      (applyCalls FjallStore.applyBatches (rebindCalls (sampleBinding .fjall) putFirst) emptyFjall)
      (applyCalls KuzuStore.applyBatches (rebindCalls (sampleBinding .kuzu) putFirst)
        emptyKuzu) := by
  let _ := foldHash
  obtain ⟨hagree, hsame⟩ :=
    readsAgree_applyCalls_iff openNew_emptyFjall openNew_emptyKuzu putFirst
  have hlog := hsame (by decide)
  refine hagree.mpr ⟨⟨congrArg List.length hlog, congrArg (changesFrom 1) hlog⟩, ?_⟩
  rw [changes_putFirst]
  constructor
  · rintro request ⟨deletion, hdeletion, e, he, hrow, hbefore, put, hput, f, hf, hrank, hfrow⟩
    have hlt := (hbefore put hput f hf).2 hrank hfrow
    simp only [List.mem_cons, List.not_mem_nil, or_false] at hdeletion hput
    rcases hdeletion with rfl | rfl
    · exact absurd (event_none he hrow).1 (by simp [vertices])
    · rcases hput with rfl | rfl
      · exact absurd hlt (by decide)
      · exact lt_irrefl _ hlt
  · rintro request ⟨deletion, hdeletion, e, he, hrow, -⟩
    have htomb := (event_none he hrow).2
    simp only [List.mem_cons, List.not_mem_nil, or_false] at hdeletion
    rcases hdeletion with rfl | rfl <;> simp [edges] at htomb

end DtgProxy.Storage

import DtgProxy.Storage.FjallLog

/-! # The Kuzu store

Kuzu keeps one state record: every mutation in the order of arrival, the replay
identities, and the change feed.  Its read view works on that record, so point
reads visit the mutations in the order of arrival.
-/
namespace DtgProxy.Storage

open Kernel Lib Lib.Newest ReplicaStore

@[ext] structure KuzuState where
  appliedIndex : ℕ
  history : List LogicalMutation
  replay : OrderedMap ℕ ReplayIdentity
  changes : List ChangeRecord

def KuzuState.empty : KuzuState := ⟨0, [], ∅, []⟩

@[ext] structure KuzuStore where
  binding : ReplicaBinding
  state : KuzuState

namespace KuzuStore

def openNew [Blake3] (binding : ReplicaBinding) : Except StorageError KuzuStore :=
  if matchesEmbedded .kuzu binding then .ok ⟨binding, KuzuState.empty⟩
  else .error (.invalidBinding "binding does not match the native Kuzu backend class")

/-- The capability digest is that of the names the provider declares, which an
opened store's binding has. -/
def verifyFence [Blake3] (store : KuzuStore) (fence : ReadFence) :
    Except StorageError KuzuState :=
  if fence.binding ≠ store.binding then .error (.staleBinding store.binding fence.binding)
  else if (match CapabilityManifest.fromNames embeddedCapabilities with
      | .ok capabilities => decide (fence.capabilityDigest ≠ capabilities.digest)
      | .error _ => true) then .error .capabilityDrift
  else if store.state.appliedIndex ≠ fence.appliedIndex then
    .error (.readFenceUnavailable fence.appliedIndex store.state.appliedIndex)
  else .ok store.state

section Apply

variable [Blake3]

/-- One batch of an apply, on the working copy of the state. -/
def stageBatch (acc : List ApplyReceipt × KuzuState) (batch : CommittedShardBatch) :
    Except StorageError (List ApplyReceipt × KuzuState) :=
  let next := acc.2
  if batch.raftIndex ≤ next.appliedIndex then
    match next.replay[batch.raftIndex]? with
    | none => .error (.replayMismatch batch.raftIndex)
    | some replay =>
      if replay.term ≠ batch.raftTerm ∨ replay.commandId ≠ batch.commandId ∨
          replay.mutationDigest ≠ batch.mutationDigest then
        .error (.replayMismatch batch.raftIndex)
      else .ok (acc.1 ++ [⟨batch.raftIndex, batch.mutationDigest, true⟩], next)
  else if batch.raftIndex ≠ next.appliedIndex + 1 then
    .error (.nonMonotonicIndex next.appliedIndex batch.raftIndex)
  else
    .ok (acc.1 ++ [⟨batch.raftIndex, batch.mutationDigest, false⟩],
      { appliedIndex := batch.raftIndex
        history := next.history ++ batch.mutations
        replay := next.replay.insert batch.raftIndex
          ⟨batch.raftTerm, batch.commandId, batch.mutationDigest⟩
        changes := next.changes ++ batch.mutations.zipIdx.map fun (mutation, ordinal) =>
          ⟨⟨batch.raftIndex, ordinal⟩, mutation⟩ })

/-- `apply_batches_sync`. -/
def applyBatches (store : KuzuStore) (batches : List CommittedShardBatch) :
    Except StorageError (List ApplyReceipt × KuzuStore) :=
  if batches = [] then .ok ([], store)
  else
    match batches.find? (fun batch => decide (batch.binding ≠ store.binding)) with
    | some batch => .error (.staleBinding store.binding batch.binding)
    | none => do
      let (receipts, next) ← batches.foldlM stageBatch ([], store.state)
      .ok (receipts, { store with state := next })

end Apply

/-- The last metadata put under the name. -/
def replicaMetadata (store : KuzuStore) (name : String) : Option ReplicaMetadata :=
  store.state.history.reverse.findSome? fun mutation =>
    match mutation with
    | .putReplicaMetadata metadata => if metadata.name = name then some metadata else none
    | _ => none

def beginReadView [Blake3] (store : KuzuStore) (fence : ReadFence) :
    Except StorageError KuzuState :=
  store.verifyFence fence

end KuzuStore

namespace KuzuState

def getVertex (state : KuzuState) (request : VertexRead) : Option VertexVersion :=
  vertices.visible state.history request

def getEdge (state : KuzuState) (request : EdgeRead) : Option EdgeVersion :=
  edges.visible state.history request

def vertexHistory (state : KuzuState) (request : VertexHistoryRead) : List VertexVersion :=
  vertices.history state.history request

def edgeHistory (state : KuzuState) (request : EdgeHistoryRead) : List EdgeVersion :=
  edges.history state.history request

def expand (state : KuzuState) (request : AdjacencyRead) : List EdgeVersion :=
  (sortBy EdgeVersion.id (expandRows state.history request)).take request.limit

def changesPage (state : KuzuState) (request : ChangesRead) : ChangePage :=
  let selected := sortBy ChangeRecord.cursor
    (state.changes.filter (fun change => request.includes change.cursor))
  let rows := selected.take request.limit
  ⟨rows, if request.limit < selected.length then rows.getLast?.map (·.cursor) else none⟩

def scanVertices (state : KuzuState) (request : VertexScan) : ScanPage VertexId VertexVersion :=
  vertices.page (sortBy VertexVersion.id (vertices.scanRows state.history request)) request.limit

def scanEdges (state : KuzuState) (request : EdgeScan) : ScanPage EdgeId EdgeVersion :=
  edges.page (sortBy EdgeVersion.id (edges.scanRows state.history request)) request.limit

end KuzuState

/-! ## Batches taken in turn

Fjall looks a redelivered batch up among the batches stored before the call;
Kuzu also finds those that came earlier in the call.
-/

namespace ReplicaStore

variable [Blake3]

/-- `stage` on a store that has the pending batches. -/
def stageInTurn (store : ReplicaStore) (acc : Staging) (batch : CommittedShardBatch) :
    Except StorageError Staging :=
  (ReplicaStore.stage ⟨store.binding, store.log ++ acc.pending⟩ ⟨acc.receipts, []⟩ batch).map
    fun next => ⟨next.receipts, acc.pending ++ next.pending⟩

def applyInTurn (store : ReplicaStore) (batches : List CommittedShardBatch) :
    Except StorageError (List ApplyReceipt × ReplicaStore) :=
  match batches.find? (fun batch => decide (batch.binding ≠ store.binding)) with
  | some batch => .error (.staleBinding store.binding batch.binding)
  | none => do
    let acc ← batches.foldlM store.stageInTurn ⟨[], []⟩
    .ok (acc.receipts, { store with log := store.log ++ acc.pending })

variable {store : ReplicaStore}

/-- The two rules differ on a second delivery within the call only. -/
theorem stageInTurn_eq {acc : Staging} {batch : CommittedShardBatch}
    (h : batch.raftIndex ≤ store.appliedIndex ∨
      store.appliedIndex + acc.pending.length < batch.raftIndex) :
    store.stageInTurn acc batch = store.stage acc batch := by
  have happlied : (⟨store.binding, store.log ++ acc.pending⟩ : ReplicaStore).appliedIndex =
      store.appliedIndex + acc.pending.length := by
    simp [appliedIndex]
  unfold stageInTurn stage
  dsimp only
  rw [happlied, List.length_nil, Nat.add_zero]
  split_ifs with hle hnext
  · have hlookup : (⟨store.binding, store.log ++ acc.pending⟩ : ReplicaStore).batchAt
        batch.raftIndex = store.batchAt batch.raftIndex := by
      have hold : batch.raftIndex ≤ store.appliedIndex := by omega
      unfold appliedIndex at hold
      unfold batchAt
      split_ifs with hzero
      · rfl
      · exact List.getElem?_append_left (by omega)
    rw [hlookup]
    cases store.batchAt batch.raftIndex with
    | none => rfl
    | some stored =>
      dsimp only
      split_ifs with hreplay
      · simp [Except.map]
      · rfl
  · rfl
  · rfl

variable {batches : List CommittedShardBatch}

theorem foldlM_stageInTurn {acc : Staging} (hnodup : (batches.map (·.raftIndex)).Nodup)
    (hlater : ∀ batch ∈ batches, batch.raftIndex ≤ store.appliedIndex ∨
      store.appliedIndex + acc.pending.length < batch.raftIndex) :
    batches.foldlM store.stageInTurn acc = batches.foldlM store.stage acc := by
  induction batches generalizing acc with
  | nil => rfl
  | cons batch batches ih =>
    rw [List.map_cons, List.nodup_cons] at hnodup
    obtain ⟨hbatch, hrest⟩ := List.forall_mem_cons.mp hlater
    rw [List.foldlM_cons, List.foldlM_cons, stageInTurn_eq hbatch]
    cases hstage : store.stage acc batch with
    | error => rfl
    | ok next =>
      refine ih hnodup.2 ?_
      -- A redelivery leaves the pending batches, a new batch is the last of them.
      unfold stage at hstage
      dsimp only at hstage
      split_ifs at hstage with hle hnext
      · have hpending : next.pending = acc.pending := by
          split at hstage
          · cases hstage
          · split_ifs at hstage
            cases hstage
            rfl
        rw [hpending]
        exact hrest
      · cases hstage
        intro other hother
        have hne : other.raftIndex ≠ batch.raftIndex := fun heq =>
          hnodup.1 (heq ▸ List.mem_map_of_mem hother)
        have := hrest other hother
        simp only [List.length_append, List.length_singleton]
        omega

/-- Without a second delivery within the call the rules agree. -/
theorem applyInTurn_eq (h : (batches.map (·.raftIndex)).Nodup) :
    store.applyInTurn batches = store.applyBatches batches := by
  unfold applyInTurn applyBatches
  rewrite [foldlM_stageInTurn h fun batch _ => le_or_gt batch.raftIndex store.appliedIndex]
  rfl

end ReplicaStore

/-! ## The state holds the log -/

namespace KuzuState

variable [Blake3]

def ofLog (log : List StoredBatch) : KuzuState :=
  ⟨log.length, log.flatMap (·.mutations), (FjallTables.ofLog log).identity,
    ReplicaStore.changesFrom 1 log⟩

theorem ofLog_concat (log : List StoredBatch) (batch : StoredBatch) :
    ofLog (log ++ [batch]) =
      ⟨log.length + 1, (ofLog log).history ++ batch.mutations,
        (ofLog log).replay.insert (log.length + 1) batch.replayIdentity,
        (ofLog log).changes ++ batchChanges (log.length + 1) batch⟩ := by
  unfold ofLog
  rw [FjallTables.ofLog_concat, changesFrom_append, Nat.add_comm 1 log.length]
  simp [FjallTables.push, FjallTables.writeBatch, changesFrom]

end KuzuState

namespace KuzuStore

variable [Blake3] {store : ReplicaStore}

/-- One batch, on a log that has all the batches before it. -/
theorem stageBatch_ofLog (store : ReplicaStore) (receipts : List ApplyReceipt)
    (batch : CommittedShardBatch) :
    stageBatch (receipts, KuzuState.ofLog store.log) batch =
      (store.stage ⟨receipts, []⟩ batch).map fun next =>
        (next.receipts, KuzuState.ofLog (store.log ++ next.pending)) := by
  have happlied : (KuzuState.ofLog store.log).appliedIndex = store.appliedIndex := rfl
  unfold stageBatch stage
  simp only [happlied, List.length_nil, Nat.add_zero]
  split_ifs with hle hnext
  · have hlookup : (KuzuState.ofLog store.log).replay[batch.raftIndex]? =
        (store.batchAt batch.raftIndex).map StoredBatch.replayIdentity :=
      FjallTables.lookup_identity ..
    rw [hlookup]
    cases hbatch : store.batchAt batch.raftIndex with
    | none => rfl
    | some stored =>
      simp only [Option.map_some, StoredBatch.replayIdentity]
      by_cases hreplay : stored.term = batch.raftTerm ∧ stored.commandId = batch.commandId ∧
          digestMutations stored.mutations = batch.mutationDigest
      · rw [if_pos hreplay, if_neg (by simpa using hreplay)]
        simp [Except.map]
      · rw [if_neg hreplay, if_pos (by
          by_contra hcon
          simp only [ne_eq, not_or, not_not] at hcon
          exact hreplay hcon)]
        rfl
  · rfl
  · have hindex : batch.raftIndex = store.log.length + 1 := not_not.mp hnext
    simp only [Except.map, List.nil_append]
    rw [KuzuState.ofLog_concat, ← hindex]
    rfl

open KuzuState

theorem foldlM_stageBatch (store : ReplicaStore) (batches : List CommittedShardBatch)
    (log : ReplicaStore.Staging) :
    batches.foldlM stageBatch (log.receipts, ofLog (store.log ++ log.pending)) =
      (batches.foldlM store.stageInTurn log).map fun log =>
        (log.receipts, ofLog (store.log ++ log.pending)) := by
  induction batches generalizing log with
  | nil => rfl
  | cons batch batches ih =>
    have hstage := stageBatch_ofLog ⟨store.binding, store.log ++ log.pending⟩ log.receipts batch
    rw [List.foldlM_cons, List.foldlM_cons, hstage, stageInTurn]
    cases ReplicaStore.stage ⟨store.binding, store.log ++ log.pending⟩ ⟨log.receipts, []⟩ batch with
    | error => rfl
    | ok next =>
      simp only [Except.map, List.append_assoc]
      exact ih ⟨next.receipts, log.pending ++ next.pending⟩

/-- The store holds the log. -/
def Holds (kuzu : KuzuStore) (log : List StoredBatch) : Prop := kuzu.state = KuzuState.ofLog log

theorem holds_openNew {binding : ReplicaBinding} {kuzu : KuzuStore}
    (h : openNew binding = .ok kuzu) : kuzu.Holds [] ∧ kuzu.binding = binding := by
  unfold openNew at h
  split_ifs at h
  cases h
  exact ⟨rfl, rfl⟩

theorem applyBatches_holds {kuzu : KuzuStore} {log : List StoredBatch} (h : kuzu.Holds log)
    (batches : List CommittedShardBatch) :
    kuzu.applyBatches batches =
      ((⟨kuzu.binding, log⟩ : ReplicaStore).applyInTurn batches).map fun result =>
        (result.1, { kuzu with state := ofLog result.2.log }) := by
  have hstate : kuzu.state = ofLog log := h
  unfold applyBatches ReplicaStore.applyInTurn
  split_ifs with hempty
  · subst hempty
    have hself : kuzu = { kuzu with state := ofLog log } := by rw [← hstate]
    simpa [pure, Except.pure, bind, Except.bind, Except.map] using hself
  · simp only
    cases batches.find? (fun batch => decide (batch.binding ≠ kuzu.binding)) with
    | some => rfl
    | none =>
      have hfold := foldlM_stageBatch ⟨kuzu.binding, log⟩ batches ⟨[], []⟩
      simp only [List.append_nil] at hfold
      simp only [hstate, hfold]
      cases batches.foldlM (ReplicaStore.stageInTurn ⟨kuzu.binding, log⟩) ⟨[], []⟩ with
      | error => rfl
      | ok => rfl

end KuzuStore

end DtgProxy.Storage

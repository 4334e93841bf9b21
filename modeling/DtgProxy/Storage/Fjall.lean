import DtgProxy.Storage.BackendClass
import DtgProxy.Storage.TemporalRead

/-! # The Fjall store

Fjall keeps a namespace of ordered keyspaces.  Every graph mutation is stored
under a history key made of its element, time, version, a tombstone flag and its
place in the log, every mutation under its place in the log, and transactions and
metadata under their names.  The keys are fixed-width big-endian words, so they
are visited in the order of their fields.  The keyspaces of current rows and of
adjacency are written but never read by a read view and are left out.
-/
namespace DtgProxy.Storage

open Kernel Lib Lib.Newest

/-- What a provider remembers of an applied batch to recognise its redelivery. -/
@[ext] structure ReplayIdentity where
  term : ℕ
  commandId : CommandId
  mutationDigest : Digest32
deriving DecidableEq, Repr

def StoredBatch.replayIdentity [Blake3] (batch : StoredBatch) : ReplayIdentity :=
  ⟨batch.term, batch.commandId, digestMutations batch.mutations⟩

/-- What a store keeps of a committed batch. -/
def CommittedShardBatch.stored (batch : CommittedShardBatch) : StoredBatch :=
  ⟨batch.raftTerm, batch.commandId, batch.mutations⟩

@[ext] structure ReadFence where
  binding : ReplicaBinding
  appliedIndex : ℕ
  capabilityDigest : Digest32
deriving DecidableEq

/-- The names both embedded providers declare. -/
def embeddedCapabilities : List String :=
  ["adjacency", "immutable-read-view", "logical-snapshot", "point"]

/-- The binding names the provider with contract and layout version one and the
embedded capabilities. -/
def matchesEmbedded [Blake3] (provider : ProviderKind) (binding : ReplicaBinding) : Bool :=
  match CapabilityManifest.fromNames embeddedCapabilities,
      BackendClass.withDurability provider 1 1 .durableCommit embeddedCapabilities with
  | .ok capabilities, .ok backend =>
    decide (binding.providerKind = provider) && binding.contractVersion == 1 &&
      binding.layoutVersion == 1 && decide (binding.capabilityDigest = capabilities.digest) &&
      decide (binding.backendClassDigest = backend.digest)
  | _, _ => false

/-! ## Keys -/

/-- The key of a graph mutation in the history keyspace. -/
@[ext] structure HistoryKey where
  element : UInt8
  id : ℕ
  transactionTime : ℕ
  version : ℕ
  tombstone : Bool
  cursor : ChangeCursor
deriving DecidableEq

namespace HistoryKey

def fields (key : HistoryKey) : ℕ ×ₗ ℕ ×ₗ ℕ ×ₗ ℕ ×ₗ Bool ×ₗ ChangeCursor :=
  toLex (key.element.toNat, toLex (key.id, toLex (key.transactionTime, toLex (key.version,
    toLex (key.tombstone, key.cursor)))))

theorem fields_injective : Function.Injective fields := by
  rintro ⟨a, b, c, d, e, f⟩ ⟨a', b', c', d', e', f'⟩ h
  have h' : (a.toNat, b, c, d, e, f) = (a'.toNat, b', c', d', e', f') := h
  simp only [Prod.mk.injEq, UInt8.toNat_inj] at h'
  obtain ⟨rfl, rfl, rfl, rfl, rfl, rfl⟩ := h'
  rfl

instance : LinearOrder HistoryKey := LinearOrder.lift' fields fields_injective

instance : Std.TransCmp (compare : HistoryKey → HistoryKey → Ordering) := inferInstance

/-- Keys of one element, time and version are ordered by the flag and the place. -/
theorem le_iff_of_same {element : UInt8} {id time version : ℕ} {t t' : Bool} {c c' : ChangeCursor} :
    (⟨element, id, time, version, t, c⟩ : HistoryKey) ≤ ⟨element, id, time, version, t', c'⟩ ↔
      t < t' ∨ (t = t' ∧ c ≤ c') := by
  change toLex (element.toNat, toLex (id, toLex (time, toLex (version, toLex (t, c))))) ≤
    toLex (element.toNat, toLex (id, toLex (time, toLex (version, toLex (t', c'))))) ↔ _
  simp only [Prod.Lex.toLex_le_toLex, lt_irrefl, false_or, true_and]

/-- Keys of one element are ordered by time and version first. -/
theorem lt_iff_of_same_element {element : UInt8} {id time time' version version' : ℕ}
    {c c' : ChangeCursor} :
    (⟨element, id, time, version, false, c⟩ : HistoryKey) <
        ⟨element, id, time', version', false, c'⟩ ↔
      toLex (toLex (time, version), c) < toLex (toLex (time', version'), c') := by
  change toLex (element.toNat, toLex (id, toLex (time, toLex (version, toLex (false, c))))) <
    toLex (element.toNat, toLex (id, toLex (time', toLex (version', toLex (false, c'))))) ↔ _
  simp only [Prod.Lex.toLex_lt_toLex, lt_irrefl, false_or, true_and, Prod.mk.injEq,
    EmbeddingLike.apply_eq_iff_eq]
  grind

end HistoryKey

/-- The key of a mutation, if it is a graph mutation: `history_key` with the
occurrence appended. -/
def historyKey : LogicalMutation → ChangeCursor → Option HistoryKey
  | .putVertex vertex, cursor =>
    some ⟨118, vertex.id.get, vertex.transactionTime.get, vertex.version.toNat, false, cursor⟩
  | .deleteVertex tombstone, cursor =>
    some ⟨118, tombstone.id.get, tombstone.transactionTime.get, tombstone.version.toNat, true,
      cursor⟩
  | .putEdge edge, cursor =>
    some ⟨101, edge.id.get, edge.transactionTime.get, edge.version.toNat, false, cursor⟩
  | .deleteEdge tombstone, cursor =>
    some ⟨101, tombstone.id.get, tombstone.transactionTime.get, tombstone.version.toNat, true,
      cursor⟩
  | .putTransaction _, _ | .putReplicaMetadata _, _ => none

theorem historyKey_cursor {mutation : LogicalMutation} {cursor : ChangeCursor} {key : HistoryKey}
    (h : historyKey mutation cursor = some key) : key.cursor = cursor := by
  cases mutation <;> cases h <;> rfl

/-! ## Keyspaces -/

/-- The keyspaces of a namespace that reads and snapshots use.  Values are kept
decoded; the keys of metadata are the names without their common start. -/
@[ext] structure FjallTables where
  appliedIndex : ℕ
  identity : OrderedMap ℕ ReplayIdentity
  history : OrderedMap HistoryKey LogicalMutation
  temporalIndex : OrderedMap ChangeCursor LogicalMutation
  transaction : OrderedMap TransactionId TransactionRecord
  replicaMeta : OrderedMap String ReplicaMetadata

namespace FjallTables

def empty : FjallTables := ⟨0, ∅, ∅, ∅, ∅, ∅⟩

/-- Writes one mutation at its place in the log: `stage_mutation`. -/
def stageMutation (tables : FjallTables) (change : ChangeRecord) : FjallTables :=
  { tables with
    history := match historyKey change.mutation change.cursor with
      | some key => tables.history.insert key change.mutation
      | none => tables.history
    temporalIndex := tables.temporalIndex.insert change.cursor change.mutation
    transaction := match change.mutation with
      | .putTransaction transaction => tables.transaction.insert transaction.id transaction
      | _ => tables.transaction
    replicaMeta := match change.mutation with
      | .putReplicaMetadata metadata => tables.replicaMeta.insert metadata.name metadata
      | _ => tables.replicaMeta }

def writeBatch (tables : FjallTables) (index : ℕ) (mutations : List LogicalMutation)
    (identity : ReplayIdentity) : FjallTables :=
  let staged := (mutations.zipIdx.map fun (mutation, ordinal) =>
    (⟨⟨index, ordinal⟩, mutation⟩ : ChangeRecord)).foldl stageMutation tables
  { staged with identity := staged.identity.insert index identity }

end FjallTables

/-- A store: the binding of its handle, the owner its namespace records, the
markers of snapshot installation, and the keyspaces. -/
@[ext] structure FjallStore where
  binding : ReplicaBinding
  owner : ReplicaBinding
  restoreInProgress : Option ℕ
  installMarker : Option (List UInt8)
  activation : Option (List UInt8)
  tables : FjallTables

namespace FjallStore

def openNew [Blake3] (binding : ReplicaBinding) : Except StorageError FjallStore :=
  if matchesEmbedded .fjall binding then
    .ok ⟨binding, binding, none, none, none, FjallTables.empty⟩
  else
    .error (.invalidBinding
      "binding does not match the supported Fjall backend class and capability floor")

def verifyBinding (store : FjallStore) (binding : ReplicaBinding) : Except StorageError Unit :=
  if store.owner ≠ store.binding then
    .error (.namespaceOwnerMismatch store.owner store.binding)
  else if binding ≠ store.binding then .error (.staleBinding store.binding binding)
  else .ok ()

def ensureNoRestoreInProgress (store : FjallStore) : Except StorageError Unit :=
  match store.restoreInProgress with
  | some _ => .error (.corruptSnapshot "Fjall snapshot restore is incomplete")
  | none => .ok ()

def verifyFence (store : FjallStore) (fence : ReadFence) : Except StorageError Unit := do
  store.verifyBinding fence.binding
  store.ensureNoRestoreInProgress
  if fence.capabilityDigest ≠ store.binding.capabilityDigest then .error .capabilityDrift
  if fence.appliedIndex ≠ store.tables.appliedIndex then
    .error (.readFenceUnavailable fence.appliedIndex store.tables.appliedIndex)

section Apply

variable [Blake3]

/-- The index reached, the receipts and the pending batches of an apply. -/
structure Pending where
  applied : ℕ
  receipts : List ApplyReceipt
  batches : List CommittedShardBatch

def stageBatch (store : FjallStore) (acc : Pending) (batch : CommittedShardBatch) :
    Except StorageError Pending :=
  if batch.raftIndex ≤ acc.applied then
    match store.tables.identity[batch.raftIndex]? with
    | none => .error (.replayMismatch batch.raftIndex)
    | some replay =>
      if replay.term = batch.raftTerm ∧ replay.commandId = batch.commandId ∧
          replay.mutationDigest = batch.mutationDigest then
        .ok { acc with
          receipts := acc.receipts ++ [⟨batch.raftIndex, batch.mutationDigest, true⟩] }
      else .error (.replayMismatch batch.raftIndex)
  else if batch.raftIndex ≠ acc.applied + 1 then
    .error (.nonMonotonicIndex acc.applied batch.raftIndex)
  else
    .ok ⟨batch.raftIndex, acc.receipts ++ [⟨batch.raftIndex, batch.mutationDigest, false⟩],
      acc.batches ++ [batch]⟩

/-- The keyspaces after one atomic write of the pending batches. -/
def commitPending (tables : FjallTables) (acc : Pending) : FjallTables :=
  if acc.batches = [] then tables
  else
    { acc.batches.foldl (fun tables batch => tables.writeBatch batch.raftIndex batch.mutations
        ⟨batch.raftTerm, batch.commandId, batch.mutationDigest⟩) tables with
      appliedIndex := acc.applied }

/-- `apply_batches_sync`. -/
def applyBatches (store : FjallStore) (batches : List CommittedShardBatch) :
    Except StorageError (List ApplyReceipt × FjallStore) :=
  if batches = [] then .ok ([], store)
  else do
    batches.foldlM (fun _ batch => store.verifyBinding batch.binding) ()
    store.ensureNoRestoreInProgress
    let acc ← batches.foldlM store.stageBatch ⟨store.tables.appliedIndex, [], []⟩
    .ok (acc.receipts, { store with tables := commitPending store.tables acc })

end Apply

/-- What a read view loads: the history in key order and the changes. -/
structure View where
  history : List LogicalMutation
  changes : List ChangeRecord

def load (store : FjallStore) : View :=
  ⟨store.tables.history.toList.map (·.2),
    store.tables.temporalIndex.toList.map fun entry => ⟨entry.1, entry.2⟩⟩

def beginReadView (store : FjallStore) (fence : ReadFence) : Except StorageError View := do
  store.verifyFence fence
  .ok store.load

def replicaMetadata (store : FjallStore) (name : String) :
    Except StorageError (Option ReplicaMetadata) :=
  if store.owner ≠ store.binding then .error (.namespaceOwnerMismatch store.owner store.binding)
  else
    match store.tables.replicaMeta[name]? with
    | none => .ok none
    | some metadata =>
      if metadata.name = name then .ok (some metadata)
      else .error (.internal "stored replica metadata point value is malformed")

namespace View

def getVertex (view : View) (request : VertexRead) : Option VertexVersion :=
  vertices.visible view.history request

def getEdge (view : View) (request : EdgeRead) : Option EdgeVersion :=
  edges.visible view.history request

def vertexHistory (view : View) (request : VertexHistoryRead) : List VertexVersion :=
  vertices.history view.history request

def edgeHistory (view : View) (request : EdgeHistoryRead) : List EdgeVersion :=
  edges.history view.history request

def expand (view : View) (request : AdjacencyRead) : List EdgeVersion :=
  (expandRows view.history request).take request.limit

def changesPage (view : View) (request : ChangesRead) : ChangePage :=
  let selected := view.changes.filter (fun change => request.includes change.cursor)
  let rows := selected.take request.limit
  ⟨rows, if request.limit < selected.length then rows.getLast?.map (·.cursor) else none⟩

def scanVertices (view : View) (request : VertexScan) : ScanPage VertexId VertexVersion :=
  vertices.page (vertices.scanRows view.history request) request.limit

def scanEdges (view : View) (request : EdgeScan) : ScanPage EdgeId EdgeVersion :=
  edges.page (edges.scanRows view.history request) request.limit

end View

end FjallStore

end DtgProxy.Storage

import DtgProxy.Lib.Result
import DtgProxy.Storage.Mutation

/-! # The replica state store

A store holds the batches applied to it, one per Raft index starting at one.
Applying a batch either appends it at the next index, recognises a redelivery
of an index it already holds, or fails without effect.  Metadata point reads
return the last value put under a name.
-/
namespace DtgProxy.Storage

open Kernel Lib

inductive ProviderKind where
  | fjall
  | postgreSql
  | kuzu
  | remote (name : String)
deriving DecidableEq, Repr

inductive BindingRole where
  | candidate
  | active
  | retiring
deriving DecidableEq, Repr

/-- The identity a replica's store is bound to. -/
@[ext] structure ReplicaBinding where
  clusterId : ClusterId
  graphId : GraphId
  shardId : ShardId
  placementEpoch : PlacementEpoch
  replicaId : ReplicaId
  backendGeneration : BackendGeneration
  backendClassDigest : Digest32
  providerKind : ProviderKind
  contractVersion : UInt32
  layoutVersion : UInt32
  capabilityDigest : Digest32
  namespaceId : String
  endpointProfileRef : String
  credentialRef : String
  role : BindingRole
deriving DecidableEq, Repr

/-- The storage errors the modelled operations return. -/
inductive StorageError where
  | invalidBinding (message : String)
  | invalidCapability (message : String)
  | invalidMutation (message : String)
  | invalidBatch (message : String)
  | staleBinding (expected actual : ReplicaBinding)
  | namespaceOwnerMismatch (expected actual : ReplicaBinding)
  | nonMonotonicIndex (applied proposed : ℕ)
  | replayMismatch (raftIndex : ℕ)
  | readFenceUnavailable (requested applied : ℕ)
  | capabilityDrift
  | corruptSnapshot (message : String)
  | snapshotIdentityMismatch
  | snapshotNotExhausted
  | invalidConsensus (message : String)
  | internal (message : String)
deriving DecidableEq, Repr

def StorageError.message : StorageError → String
  | .invalidBinding message => "DTG-STORAGE-BINDING: " ++ message
  | .invalidCapability message => "DTG-STORAGE-CAPABILITY: " ++ message
  | .invalidMutation message => "DTG-STORAGE-MUTATION: " ++ message
  | .invalidBatch message => "DTG-STORAGE-BATCH: " ++ message
  | .staleBinding _ _ => "stale replica binding"
  | .namespaceOwnerMismatch _ _ => "namespace owner does not match requested binding"
  | .nonMonotonicIndex applied proposed =>
    "Raft index must advance monotonically: applied " ++ toString applied ++ ", proposed " ++
      toString proposed
  | .replayMismatch raftIndex =>
    "replay identity mismatch at Raft index " ++ toString raftIndex
  | .readFenceUnavailable requested applied =>
    "read fence " ++ toString requested ++ " is unavailable at applied index " ++ toString applied
  | .capabilityDrift => "capability digest changed"
  | .corruptSnapshot message => "DTG-STORAGE-SNAPSHOT-CORRUPT: " ++ message
  | .snapshotIdentityMismatch => "snapshot logical identity does not match target"
  | .snapshotNotExhausted => "snapshot reader still contains unread chunks"
  | .invalidConsensus message => "DTG-STORAGE-CONSENSUS: " ++ message
  | .internal message => "DTG-STORAGE-INTERNAL: " ++ message

/-- A committed batch.  Its digest is the digest of its mutations. -/
@[ext] structure CommittedShardBatch where
  binding : ReplicaBinding
  raftTerm : ℕ
  raftIndex : ℕ
  commandId : CommandId
  mutations : List LogicalMutation
  term_ne_zero : raftTerm ≠ 0
  index_ne_zero : raftIndex ≠ 0
  nonempty : mutations ≠ []

instance : DecidableEq CommittedShardBatch :=
  fun _ _ => decidable_of_iff _ CommittedShardBatch.ext_iff.symm

def CommittedShardBatch.new (binding : ReplicaBinding) (raftTerm raftIndex : ℕ)
    (commandId : CommandId) (mutations : List LogicalMutation) :
    Except StorageError CommittedShardBatch :=
  if h : raftTerm = 0 ∨ raftIndex = 0 then
    .error (.invalidBatch "Raft term and index must be nonzero")
  else if h' : mutations = [] then
    .error (.invalidBatch "committed batch must contain at least one mutation")
  else
    .ok ⟨binding, raftTerm, raftIndex, commandId, mutations, (not_or.mp h).1, (not_or.mp h).2, h'⟩

def CommittedShardBatch.mutationDigest [Blake3] (batch : CommittedShardBatch) : Digest32 :=
  digestMutations batch.mutations

theorem CommittedShardBatch.new_ok {binding : ReplicaBinding} {term index : ℕ} {id : CommandId}
    {mutations : List LogicalMutation} {batch : CommittedShardBatch}
    (h : CommittedShardBatch.new binding term index id mutations = .ok batch) :
    batch.binding = binding ∧ batch.raftTerm = term ∧ batch.raftIndex = index ∧
      batch.commandId = id ∧ batch.mutations = mutations := by
  unfold CommittedShardBatch.new at h
  split_ifs at h
  cases h
  exact ⟨rfl, rfl, rfl, rfl, rfl⟩

theorem CommittedShardBatch.new_isOk {term index : ℕ} {mutations : List LogicalMutation}
    (hterm : term ≠ 0) (hindex : index ≠ 0) (hmutations : mutations ≠ [])
    (binding : ReplicaBinding) (id : CommandId) :
    CommittedShardBatch.new binding term index id mutations =
      .ok ⟨binding, term, index, id, mutations, hterm, hindex, hmutations⟩ := by
  rw [CommittedShardBatch.new, dif_neg (not_or.mpr ⟨hterm, hindex⟩), dif_neg hmutations]

@[ext] structure ApplyReceipt where
  raftIndex : ℕ
  mutationDigest : Digest32
  replayed : Bool
deriving DecidableEq, Repr

/-- What a store keeps of an applied batch: its replay identity and its mutations. -/
@[ext] structure StoredBatch where
  term : ℕ
  commandId : CommandId
  mutations : List LogicalMutation
deriving DecidableEq

/-- A store: its binding and the batches at indexes `1, 2, …`. -/
@[ext] structure ReplicaStore where
  binding : ReplicaBinding
  log : List StoredBatch
deriving DecidableEq

namespace ReplicaStore

def appliedIndex (store : ReplicaStore) : ℕ := store.log.length

def push (store : ReplicaStore) (batch : StoredBatch) : ReplicaStore :=
  { store with log := store.log ++ [batch] }

variable (store : ReplicaStore)

@[simp] theorem appliedIndex_push (batch : StoredBatch) :
    (store.push batch).appliedIndex = store.appliedIndex + 1 := by
  simp [push, appliedIndex]

def batchAt (store : ReplicaStore) (index : ℕ) : Option StoredBatch :=
  if index = 0 then none else store.log[index - 1]?

theorem mem_log_of_batchAt {store : ReplicaStore} {index : ℕ} {batch : StoredBatch}
    (h : store.batchAt index = some batch) : batch ∈ store.log := by
  unfold batchAt at h
  split_ifs at h
  exact List.mem_of_getElem? h

section Apply

variable [Blake3]

/-- The receipts and the pending batches of a batched apply. -/
structure Staging where
  receipts : List ApplyReceipt
  pending : List StoredBatch

/-- Stages one batch: a replay of a stored index, or the next index. -/
def stage (store : ReplicaStore) (acc : Staging) (batch : CommittedShardBatch) :
    Except StorageError Staging :=
  let applied := store.appliedIndex + acc.pending.length
  if batch.raftIndex ≤ applied then
    match store.batchAt batch.raftIndex with
    | none => .error (.replayMismatch batch.raftIndex)
    | some stored =>
      if stored.term = batch.raftTerm ∧ stored.commandId = batch.commandId ∧
          digestMutations stored.mutations = batch.mutationDigest then
        .ok { acc with
          receipts := acc.receipts ++ [⟨batch.raftIndex, batch.mutationDigest, true⟩] }
      else .error (.replayMismatch batch.raftIndex)
  else if batch.raftIndex ≠ applied + 1 then
    .error (.nonMonotonicIndex applied batch.raftIndex)
  else
    .ok ⟨acc.receipts ++ [⟨batch.raftIndex, batch.mutationDigest, false⟩],
      acc.pending ++ [⟨batch.raftTerm, batch.commandId, batch.mutations⟩]⟩

/-- Applies batches in one atomic write. -/
def applyBatches (store : ReplicaStore) (batches : List CommittedShardBatch) :
    Except StorageError (List ApplyReceipt × ReplicaStore) :=
  match batches.find? (fun batch => decide (batch.binding ≠ store.binding)) with
  | some batch => .error (.staleBinding store.binding batch.binding)
  | none => do
    let acc ← batches.foldlM store.stage ⟨[], []⟩
    .ok (acc.receipts, { store with log := store.log ++ acc.pending })

def apply (store : ReplicaStore) (batch : CommittedShardBatch) :
    Except StorageError (ApplyReceipt × ReplicaStore) := do
  let (receipts, store') ← store.applyBatches [batch]
  match receipts.getLast? with
  | some receipt => .ok (receipt, store')
  | none => .error (.internal "single apply did not return a receipt")

variable (store : ReplicaStore)

theorem apply_eq (batch : CommittedShardBatch) :
    store.apply batch =
      if batch.binding ≠ store.binding then .error (.staleBinding store.binding batch.binding)
      else if batch.raftIndex ≤ store.appliedIndex then
        match store.batchAt batch.raftIndex with
        | none => .error (.replayMismatch batch.raftIndex)
        | some stored =>
          if stored.term = batch.raftTerm ∧ stored.commandId = batch.commandId ∧
              digestMutations stored.mutations = batch.mutationDigest then
            .ok (⟨batch.raftIndex, batch.mutationDigest, true⟩, store)
          else .error (.replayMismatch batch.raftIndex)
      else if batch.raftIndex ≠ store.appliedIndex + 1 then
        .error (.nonMonotonicIndex store.appliedIndex batch.raftIndex)
      else
        .ok (⟨batch.raftIndex, batch.mutationDigest, false⟩,
          store.push ⟨batch.raftTerm, batch.commandId, batch.mutations⟩) := by
  by_cases hbinding : batch.binding = store.binding
  · simp only [apply, applyBatches, hbinding, ne_eq, not_true_eq_false, decide_false,
      List.find?_cons_of_neg, List.find?_nil, List.foldlM_cons, List.foldlM_nil, stage,
      List.length_nil, Nat.add_zero, if_false, Bool.false_eq_true, not_false_eq_true]
    split_ifs with hle hnext
    · cases hb : store.batchAt batch.raftIndex with
      | none => rfl
      | some =>
        simp only
        split_ifs <;> simp [bind, Except.bind, pure, Except.pure]
    · rfl
    · simp [bind, Except.bind]
  · simp [apply, applyBatches, hbinding, bind, Except.bind]

/-- Batches at the next indexes are all appended. -/
theorem foldlM_stage (batches : List CommittedShardBatch) (acc : Staging)
    (hindex : ∀ i batch, batches[i]? = some batch →
      batch.raftIndex = store.appliedIndex + acc.pending.length + 1 + i) :
    batches.foldlM store.stage acc =
      .ok ⟨acc.receipts ++ batches.map (fun batch => ⟨batch.raftIndex, batch.mutationDigest, false⟩),
        acc.pending ++
          batches.map (fun batch => ⟨batch.raftTerm, batch.commandId, batch.mutations⟩)⟩ := by
  induction batches generalizing acc with
  | nil => simp [pure, Except.pure]
  | cons batch batches ih =>
    have hfirst := hindex 0 batch rfl
    have hstage : store.stage acc batch =
        .ok ⟨acc.receipts ++ [⟨batch.raftIndex, batch.mutationDigest, false⟩],
          acc.pending ++ [⟨batch.raftTerm, batch.commandId, batch.mutations⟩]⟩ := by
      unfold stage
      rw [if_neg (by omega), if_neg (by omega)]
    rw [List.foldlM_cons, hstage]
    change batches.foldlM store.stage _ = _
    rw [ih]
    · simp
    · intro i other hother
      have hnext := hindex (i + 1) other hother
      rw [List.length_append, List.length_singleton]
      omega

theorem applyBatches_next (batches : List CommittedShardBatch)
    (hbinding : ∀ batch ∈ batches, batch.binding = store.binding)
    (hindex : ∀ i batch, batches[i]? = some batch → batch.raftIndex = store.appliedIndex + 1 + i) :
    store.applyBatches batches =
      .ok (batches.map (fun batch => ⟨batch.raftIndex, batch.mutationDigest, false⟩),
        { store with log := store.log ++
          batches.map (fun batch => ⟨batch.raftTerm, batch.commandId, batch.mutations⟩) }) := by
  have hfind : batches.find? (fun batch => decide (batch.binding ≠ store.binding)) = none := by
    rw [List.find?_eq_none]
    intro batch hmem
    simpa using hbinding batch hmem
  unfold applyBatches
  rw [hfind]
  simp only [foldlM_stage store batches ⟨[], []⟩ hindex]
  rfl

end Apply

theorem batchAt_push_of_le {store : ReplicaStore} {index : ℕ} (h : index ≤ store.appliedIndex)
    (batch : StoredBatch) : (store.push batch).batchAt index = store.batchAt index := by
  unfold batchAt push
  split_ifs with hzero
  · rfl
  · exact List.getElem?_append_left (by unfold appliedIndex at h; omega)

@[simp] theorem batchAt_push_self (batch : StoredBatch) :
    (store.push batch).batchAt (store.appliedIndex + 1) = some batch := by
  simp [batchAt, push, appliedIndex]

/-! ## Metadata point reads -/

/-- The last metadata put under a name. -/
def lastMetadata (name : String) (mutations : List LogicalMutation) : Option ReplicaMetadata :=
  mutations.foldl (fun found mutation =>
    match mutation with
    | .putReplicaMetadata metadata => if metadata.name = name then some metadata else found
    | _ => found) none

variable (name : String)

private theorem foldl_lastMetadata (found : Option ReplicaMetadata)
    (mutations : List LogicalMutation) :
    mutations.foldl (fun found mutation =>
      match mutation with
      | .putReplicaMetadata metadata => if metadata.name = name then some metadata else found
      | _ => found) found = (lastMetadata name mutations).or found := by
  induction mutations generalizing found with
  | nil => rfl
  | cons mutation mutations ih =>
    simp only [lastMetadata, List.foldl_cons]
    rw [ih, ih]
    cases mutation with
    | putReplicaMetadata =>
      dsimp only
      split_ifs <;> simp
    | _ => simp

theorem lastMetadata_append (first rest : List LogicalMutation) :
    lastMetadata name (first ++ rest) = (lastMetadata name rest).or (lastMetadata name first) := by
  rw [lastMetadata, List.foldl_append, foldl_lastMetadata]
  rfl

theorem lastMetadata_cons (mutation : LogicalMutation)
    (rest : List LogicalMutation) :
    lastMetadata name (mutation :: rest) =
      (lastMetadata name rest).or
        (match mutation with
        | .putReplicaMetadata metadata => if metadata.name = name then some metadata else none
        | _ => none) := by
  rw [lastMetadata, List.foldl_cons, foldl_lastMetadata]

@[simp] theorem lastMetadata_nil : lastMetadata name [] = none := rfl

/-- A point read returns a metadata record under its own name. -/
theorem lastMetadata_name {name : String} {mutations : List LogicalMutation}
    {metadata : ReplicaMetadata} (h : lastMetadata name mutations = some metadata) :
    metadata.name = name ∧ .putReplicaMetadata metadata ∈ mutations := by
  induction mutations with
  | nil => cases h
  | cons mutation mutations ih =>
    rw [lastMetadata_cons] at h
    cases hrest : lastMetadata name mutations with
    | some =>
      rw [hrest, Option.some_or] at h
      obtain ⟨hname, hmem⟩ := ih (hrest.trans h)
      exact ⟨hname, List.mem_cons_of_mem _ hmem⟩
    | none =>
      rw [hrest, Option.none_or] at h
      cases mutation with
      | putReplicaMetadata =>
        simp only at h
        split_ifs at h with hname
        cases h
        exact ⟨hname, List.mem_cons_self⟩
      | _ => cases h

theorem lastMetadata_eq_none {name : String} {mutations : List LogicalMutation}
    (h : ∀ metadata, .putReplicaMetadata metadata ∈ mutations → metadata.name ≠ name) :
    lastMetadata name mutations = none := by
  cases hlast : lastMetadata name mutations with
  | none => rfl
  | some metadata =>
    obtain ⟨hname, hmem⟩ := lastMetadata_name hlast
    exact absurd hname (h metadata hmem)

theorem not_mem_of_lastMetadata_eq_none {name : String} {mutations : List LogicalMutation}
    (h : lastMetadata name mutations = none) {metadata : ReplicaMetadata}
    (hname : metadata.name = name) : .putReplicaMetadata metadata ∉ mutations := by
  induction mutations with
  | nil => exact List.not_mem_nil
  | cons mutation mutations ih =>
    rw [lastMetadata_cons, Option.or_eq_none_iff] at h
    rintro (_ | ⟨_, hmem⟩)
    · simp only [hname, if_true] at h
      exact nomatch h.2
    · exact ih h.1 hmem

/-- All mutations of the store, in the order they were applied. -/
def mutations (store : ReplicaStore) : List LogicalMutation := store.log.flatMap (·.mutations)

def replicaMetadata (store : ReplicaStore) (name : String) : Option ReplicaMetadata :=
  lastMetadata name store.mutations

theorem mutations_push (batch : StoredBatch) :
    (store.push batch).mutations = store.mutations ++ batch.mutations := by
  simp [mutations, push]

theorem replicaMetadata_push (batch : StoredBatch) (name : String) :
    (store.push batch).replicaMetadata name =
      (lastMetadata name batch.mutations).or (store.replicaMetadata name) := by
  rw [replicaMetadata, mutations_push, lastMetadata_append]
  rfl

end ReplicaStore

end DtgProxy.Storage

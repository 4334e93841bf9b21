import DtgProxy.Shard.Acceptance

/-! # Sound machines

What the records of a shard and its memory say about each other: every prepared
transaction has its state record and is listed in the index, every record can be
read back, and a staged store belongs to the same shard.  A store whose records are
those of a sound machine restores exactly its prepared transactions.
-/
namespace DtgProxy.Shard

open Kernel Lib Storage

section Machine

variable [Blake3]

/-- The store holds the state record of a transaction. -/
def HoldsState (store : ReplicaStore) (id : TransactionId) (state : DurableTransactionState) :
    Prop :=
  ∃ metadata, store.replicaMetadata (ReservedKey.transactionState id).name = some metadata ∧
    transactionStateMetadata state.intent state.terminal = .ok metadata ∧
    state.intent.transactionId = id

/-- The store lists the prepared transactions. -/
def ListsActive (store : ReplicaStore) (active : OrderedMap TransactionId ParticipantIntent) :
    Prop :=
  store.replicaMetadata ReservedKey.activeIntents.name =
      some (ReservedKey.activeIntents.record (activeIndexBytes active)) ∨
    store.replicaMetadata ReservedKey.activeIntents.name = none ∧ active = ∅

variable {id : TransactionId} {state : DurableTransactionState} {intent : ParticipantIntent}

namespace ShardStateMachine

structure Sound (machine : ShardStateMachine) : Prop extends machine.Aligned where
  room : machine.activeIntents.size ≤ maxTransactionIntentItems
  keyed : ∀ (id : TransactionId) (intent : ParticipantIntent),
    machine.activeIntents[id]? = some intent →
      intent.shardId = machine.binding.shardId ∧
        intent.snapshotAppliedIndex.toNat ≤ machine.appliedIndex ∧
        HoldsState machine.stateStore id ⟨intent, none⟩
  listed : ListsActive machine.stateStore machine.activeIntents
  states : ∀ id metadata, machine.record (.transactionState id) = some metadata →
    ∃ state, HoldsState machine.stateStore id state ∧
      (state.terminal = none → machine.activeIntents[id]? = some state.intent)
  receipts : ∀ id metadata, machine.record (.singleShardTransaction id) = some metadata →
    ∃ command, metadata = singleShardTransactionMetadata command
  decisions : ∀ id metadata, machine.record (.homeDecision id) = some metadata →
    ∃ command : RecordHomeDecision, command.decision.id = id ∧
      homeDecisionMetadata command = .ok metadata
  batches : ∀ batch ∈ machine.stateStore.log,
    batch.mutations ≠ [] ∧ batch.mutations.length ≤ u64Max
  staged : ∀ (generation : BackendGeneration) (target : ReplicaStore),
    machine.migrationStateStores[generation]? = some target →
      target.binding.shardId = machine.binding.shardId

def empty (binding : ReplicaBinding) : ShardStateMachine :=
  ⟨binding, ⟨binding, []⟩, 0, none, ∅, ∅⟩

theorem empty_sound (binding : ReplicaBinding) : (empty binding).Sound where
  applied := rfl
  bound := rfl
  room := by simp [empty]
  keyed := by simp [empty]
  listed := .inr ⟨rfl, rfl⟩
  states := by
    intro id metadata h
    cases h
  receipts := by
    intro id metadata h
    cases h
  decisions := by
    intro id metadata h
    cases h
  batches := by
    intro batch h
    cases h
  staged := by simp [empty]

variable {machine : ShardStateMachine}

theorem durableTransactionState_of_holds (h : HoldsState machine.stateStore id state) :
    machine.durableTransactionState id = .ok (some state) := by
  obtain ⟨metadata, hrecord, hmetadata, -⟩ := h
  unfold durableTransactionState
  rw [show machine.stateStore.replicaMetadata
      (transactionMetadataName transactionStateMetadataBase id) = some metadata from hrecord]
  simp only [decodeTransactionStateMetadata_of_eq_ok hmetadata]
  rfl

/-- On a sound machine every state record can be read. -/
theorem Sound.durableTransactionState_eq (hm : machine.Sound) (id : TransactionId) :
    machine.record (.transactionState id) = none ∧
        machine.durableTransactionState id = .ok none ∨
      ∃ state, HoldsState machine.stateStore id state ∧
        machine.durableTransactionState id = .ok (some state) := by
  cases hrecord : machine.record (.transactionState id) with
  | none =>
    left
    refine ⟨rfl, ?_⟩
    unfold durableTransactionState
    rw [show machine.stateStore.replicaMetadata
      (transactionMetadataName transactionStateMetadataBase id) = none from hrecord]
  | some metadata =>
    obtain ⟨state, hstate, -⟩ := hm.states id metadata hrecord
    exact .inr ⟨state, hstate, durableTransactionState_of_holds hstate⟩

theorem Sound.holds_of_eq (hm : machine.Sound)
    (h : machine.durableTransactionState id = .ok (some state)) :
    HoldsState machine.stateStore id state := by
  rcases hm.durableTransactionState_eq id with ⟨-, hnone⟩ | ⟨held, hheld, hsome⟩
  · cases h.symm.trans hnone
  · cases h.symm.trans hsome
    exact hheld

/-- A prepared transaction is kept under its own identifier. -/
theorem Sound.key (hm : machine.Sound) (h : machine.activeIntents[id]? = some intent) :
    intent.transactionId = id :=
  (hm.keyed id intent h).2.2.choose_spec.2.2

end ShardStateMachine

variable {binding : ReplicaBinding} {store : ReplicaStore}

theorem rebuildIntent_eq {index : ℕ} (hshard : intent.shardId = binding.shardId)
    (hsnapshot : intent.snapshotAppliedIndex.toNat ≤ index)
    (hstate : HoldsState store id ⟨intent, none⟩)
    (active : OrderedMap TransactionId ParticipantIntent) :
    rebuildIntent binding store index active (id, intent.digest) =
      .ok (active.insert id intent) := by
  obtain ⟨metadata, hrecord, hmetadata, hid⟩ := hstate
  unfold rebuildIntent
  rw [show store.replicaMetadata (transactionMetadataName transactionStateMetadataBase id) =
    some metadata from hrecord]
  simp only [decodeTransactionStateMetadata_of_eq_ok hmetadata, bind, Except.bind]
  exact if_neg (by simpa [hshard, hsnapshot] using hid)

theorem rebuildActiveIntents_eq {index : ℕ} {active : OrderedMap TransactionId ParticipantIntent}
    (hroom : active.size ≤ maxTransactionIntentItems) (hlisted : ListsActive store active)
    (hkeyed : ∀ (id : TransactionId) (intent : ParticipantIntent), active[id]? = some intent →
      intent.shardId = binding.shardId ∧ intent.snapshotAppliedIndex.toNat ≤ index ∧
        HoldsState store id ⟨intent, none⟩) :
    rebuildActiveIntents binding store index = .ok active := by
  unfold rebuildActiveIntents
  rcases hlisted with hlisted | ⟨hlisted, rfl⟩
  · rw [show store.replicaMetadata activeTransactionIntentsMetadataName = some _ from hlisted]
    simp only [decodeActiveIntentsMetadata_of_eq_ok (activeIntentsMetadata_eq_ok hroom), bind,
      Except.bind]
    rw [Std.ExtTreeMap.toList_map, List.foldlM_map]
    have hfold : active.toList.foldlM (fun found entry =>
        rebuildIntent binding store index found (entry.1, entry.2.digest)) ∅ =
        .ok (active.toList.foldl (fun found entry => found.insert entry.1 entry.2) ∅) := by
      apply Result.foldlM_eq_ok_foldl
      intro found entry hentry
      obtain ⟨hshard, hsnapshot, hstate⟩ := hkeyed entry.1 entry.2
        (Std.ExtTreeMap.mem_toList_iff_getElem?_eq_some.mp hentry)
      exact rebuildIntent_eq hshard hsnapshot hstate found
    rw [hfold, OrderedMap.foldl_insert_toList]
  · rw [show store.replicaMetadata activeTransactionIntentsMetadataName = none from hlisted]

end Machine

end DtgProxy.Shard

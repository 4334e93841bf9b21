import DtgProxy.Transaction.Overlay

/-! # Participants of a commit

The caller of a commit names the shards a transaction writes on and what it
writes on each.  The coordinator takes the staged mutations away one by one, so
the lists it accepts hold every staged mutation once, wherever equal ones are.
-/
namespace DtgProxy.Transaction

open Kernel Lib DtgProxy.Storage

/-! ## Taking a list away from another -/

section Matching

variable {α : Type} [DecidableEq α]
variable {unmatched : List α}

variable {items : List α}

end Matching

/-! ## The coordinator's check -/

def isGraphMutation : LogicalMutation → Bool
  | .putTransaction _ | .putReplicaMetadata _ => false
  | _ => true

/-- A participant writes something, and only the graph. -/
structure ParticipantWrite where
  shardId : ShardId
  mutations : List LogicalMutation
  nonempty : mutations ≠ []
  graph : ∀ mutation ∈ mutations, isGraphMutation mutation = true

def ParticipantWrite.new (shardId : ShardId) (mutations : List LogicalMutation) :
    Except TxnError ParticipantWrite :=
  if h : mutations ≠ [] ∧ ∀ mutation ∈ mutations, isGraphMutation mutation = true then
    .ok ⟨shardId, mutations, h.1, h.2⟩
  else .error .invalidMutation

structure ShardSnapshotFence where
  placementEpoch : PlacementEpoch
  backendGeneration : BackendGeneration
  appliedIndex : UInt64
  closedTime : TransactionTime

/-- What the check reads of a transaction: its snapshot's shards and its overlay. -/
structure TransactionContext where
  shards : OrderedMap ShardId ShardSnapshotFence
  overlay : TransactionOverlay

def stampMutation (commitTime : TransactionTime) :
    LogicalMutation → Except TxnError LogicalMutation
  | .putVertex vertex => .ok (.putVertex { vertex with transactionTime := commitTime })
  | .deleteVertex vertex => .ok (.deleteVertex { vertex with transactionTime := commitTime })
  | .putEdge edge => .ok (.putEdge { edge with transactionTime := commitTime })
  | .deleteEdge edge => .ok (.deleteEdge { edge with transactionTime := commitTime })
  | .putTransaction _ | .putReplicaMetadata _ => .error .invalidMutation

def sampleContext : TransactionContext :=
  ⟨(∅ : OrderedMap ShardId ShardSnapshotFence).insert 1 ⟨1, 1, 0, 0⟩ |>.insert 2 ⟨1, 1, 0, 0⟩,
    ⟨[.deleteVertex ⟨5, 1, 10⟩, .deleteVertex ⟨6, 1, 10⟩, .deleteVertex ⟨5, 1, 10⟩]⟩⟩

end DtgProxy.Transaction

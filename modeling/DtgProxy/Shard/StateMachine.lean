import DtgProxy.Shard.History
import DtgProxy.Shard.Metadata

/-! # The shard state machine

Applies committed commands to a replica's store.  A command is validated against
the binding and the in-memory state, checked against prepared and committed
transactions, and written as one batch with the metadata that records it.  A
command that must not be applied leaves a durable rejection in its place.
-/
namespace DtgProxy.Shard

open Kernel Lib Storage

inductive ApplyRejection where
  | invalidCommand
  | stalePlacementEpoch
  | staleBackendGeneration
  | writeConflict
  | closedTimestampFenced
  | homeDecisionConflict
deriving DecidableEq, Repr

def ApplyRejection.code : ApplyRejection → String
  | .invalidCommand => "DTG-SHARD-REJECTED-COMMAND"
  | .stalePlacementEpoch => "DTG-SHARD-REJECTED-STALE-EPOCH"
  | .staleBackendGeneration => "DTG-SHARD-REJECTED-STALE-GENERATION"
  | .writeConflict => "DTG-SHARD-REJECTED-WRITE-CONFLICT"
  | .closedTimestampFenced => "DTG-SHARD-REJECTED-CLOSED-TIME"
  | .homeDecisionConflict => "DTG-SHARD-REJECTED-HOME-DECISION"

/-- The errors that turn into a durable rejection of the command. -/
def committedRejection : ShardError → Option ApplyRejection
  | .invalidCommand message =>
    if message = "closed timestamp is fenced by a pending prepared intent" then
      some .closedTimestampFenced
    else some .invalidCommand
  | .stalePlacementEpoch _ _ => some .stalePlacementEpoch
  | .staleBackendGeneration _ _ => some .staleBackendGeneration
  | .writeConflict => some .writeConflict
  | .homeDecisionConflict => some .homeDecisionConflict
  | _ => none

@[ext] structure ApplyOutcome where
  digest : Digest32
  appliedIndex : ℕ
  replayed : Bool
  rejection : Option ApplyRejection
  activeBinding : ReplicaBinding
deriving DecidableEq

/-- What an accepted command does to the set of prepared transactions. -/
inductive IntentTransition where
  | none
  | prepare (intent : ParticipantIntent)
  | finalize (transactionId : TransactionId) (intent : ParticipantIntent)
  | replay

/-- The in-memory state of a replica. -/
@[ext] structure ShardStateMachine where
  binding : ReplicaBinding
  stateStore : ReplicaStore
  appliedIndex : ℕ
  closedTimestamp : Option TransactionTime
  activeIntents : OrderedMap TransactionId ParticipantIntent
  migrationStateStores : OrderedMap BackendGeneration ReplicaStore

def ofStorage {α : Type} : Except StorageError α → Except ShardError α
  | .ok value => .ok value
  | .error error => .error (.storage error)

section Machine

variable [Blake3]

/-! ## Opening a machine -/

def loadClosedTimestamp (store : ReplicaStore) : Except ShardError (Option TransactionTime) :=
  match store.replicaMetadata closedTimestampMetadataName with
  | none => .ok none
  | some metadata =>
    match metadata.value with
    | .integer value =>
      match TransactionTime.new value.toUInt64.toNat with
      | some time => .ok (some time)
      | none =>
        .error (.storage (.internal "closed timestamp metadata is outside the valid range"))
    | _ => .error (.storage (.internal "closed timestamp metadata has an invalid value"))

def rebuildIntent (binding : ReplicaBinding) (store : ReplicaStore) (appliedIndex : ℕ)
    (active : OrderedMap TransactionId ParticipantIntent) (entry : TransactionId × Digest32) :
    Except ShardError (OrderedMap TransactionId ParticipantIntent) :=
  match store.replicaMetadata (transactionMetadataName transactionStateMetadataBase entry.1) with
  | none =>
    .error (corruptIntentHistory "active transaction index references missing durable state")
  | some metadata => do
    let state ← decodeTransactionStateMetadata metadata
    if state.terminal.isSome ∨ state.intent.transactionId ≠ entry.1 ∨
        state.intent.shardId ≠ binding.shardId ∨
        appliedIndex < state.intent.snapshotAppliedIndex.toNat ∨
        state.intent.digest ≠ entry.2 then
      .error (corruptIntentHistory
        "active transaction index contradicts its durable Prepared state")
    else .ok (active.insert entry.1 state.intent)

def rebuildActiveIntents (binding : ReplicaBinding) (store : ReplicaStore) (appliedIndex : ℕ) :
    Except ShardError (OrderedMap TransactionId ParticipantIntent) :=
  match store.replicaMetadata activeTransactionIntentsMetadataName with
  | none => .ok ∅
  | some metadata => do
    let indexed ← decodeActiveIntentsMetadata metadata
    indexed.toList.foldlM (rebuildIntent binding store appliedIndex) ∅

namespace ShardStateMachine

def new (binding : ReplicaBinding) (store : ReplicaStore) : Except ShardError ShardStateMachine :=
  if store.binding ≠ binding then .error .bindingMismatch
  else do
    let activeIntents ← rebuildActiveIntents binding store store.appliedIndex
    let closedTimestamp ← loadClosedTimestamp store
    .ok ⟨binding, store, store.appliedIndex, closedTimestamp, activeIntents, ∅⟩

/-- Stages a store for a later cutover.  The store is kept even when the call
reports that its generation was already staged. -/
def stageMigrationStateStore (machine : ShardStateMachine) (store : ReplicaStore) :
    Except ShardError Unit × ShardStateMachine :=
  if store.binding.role ≠ .active ∨ store.binding.clusterId ≠ machine.binding.clusterId ∨
      store.binding.graphId ≠ machine.binding.graphId ∨
      store.binding.shardId ≠ machine.binding.shardId ∨
      store.binding.replicaId ≠ machine.binding.replicaId ∨
      store.binding.backendGeneration ≤ machine.binding.backendGeneration ∨
      store.appliedIndex ≠ machine.appliedIndex then
    (.error .bindingMismatch, machine)
  else
    let staged := { machine with
      migrationStateStores :=
        machine.migrationStateStores.insert store.binding.backendGeneration store }
    if machine.migrationStateStores.contains store.binding.backendGeneration then
      (.error (.invalidLifecycle "migration state store generation is already staged"), staged)
    else (.ok (), staged)

/-! ## Validation -/

/-- The command takes this machine to another store. -/
def cutsOver (machine : ShardStateMachine) : ShardCommand → Bool
  | .migration command =>
    command.cutsOverFrom machine.binding.placementEpoch machine.binding.backendGeneration
  | _ => false

end ShardStateMachine

def ShardCommand.intent : ShardCommand → Option ParticipantIntent
  | .prewriteIntent command => some command.intent
  | .finalizeParticipant command => command.intent
  | _ => none

/-- The snapshot a transaction command was built on. -/
def ShardCommand.snapshotAppliedIndex : ShardCommand → Option UInt64
  | .commitSingleShardTransaction command => some command.snapshotAppliedIndex
  | .prewriteIntent command => some command.intent.snapshotAppliedIndex
  | .finalizeParticipant command => command.intent.map (·.snapshotAppliedIndex)
  | _ => none

namespace ShardStateMachine

/-- The checks of a closed timestamp: it does not move backwards and no prepared
transaction may still commit at or below it. -/
def validateClosedTimestamp (machine : ShardStateMachine) (proposed : TransactionTime) :
    Except ShardError Unit :=
  if ∃ current ∈ machine.closedTimestamp, proposed < current then
    .error (invalid "closed timestamp cannot move backwards")
  else if OrderedMap.anyValue machine.activeIntents fun intent =>
      intent.mutations.any fun mutation =>
        (graphMutationTime mutation).any fun pending => decide (pending ≤ proposed) then
    .error (invalid "closed timestamp is fenced by a pending prepared intent")
  else .ok ()

def validateCommand (machine : ShardStateMachine) (command : ShardCommand) :
    Except ShardError Unit :=
  if machine.cutsOver command = false ∧
      command.header.placementEpoch ≠ machine.binding.placementEpoch then
    .error (.stalePlacementEpoch machine.binding.placementEpoch.get
      command.header.placementEpoch.get)
  else if machine.cutsOver command = false ∧
      command.header.backendGeneration ≠ machine.binding.backendGeneration then
    .error (.staleBackendGeneration machine.binding.backendGeneration.get
      command.header.backendGeneration.get)
  else if ∃ intent ∈ command.intent, intent.shardId ≠ machine.binding.shardId then
    .error (invalid "transaction intent belongs to a different Shard")
  else if ∃ snapshot ∈ command.snapshotAppliedIndex, machine.appliedIndex < snapshot.toNat then
    .error (invalid "transaction snapshot applied index is ahead of the Shard state machine")
  else
    match command with
    | .advanceClosedTimestamp command => machine.validateClosedTimestamp command.closedTimestamp
    | _ => .ok ()

/-- A change that a transaction started at `startTime` must not overwrite. -/
def visitConflict (startTime : TransactionTime) (candidate : List LogicalMutation)
    (change : ChangeRecord) : Except ShardError Unit :=
  if (graphMutationTime change.mutation).any (fun time => decide (startTime < time)) &&
      mutationsConflict candidate [change.mutation] then
    .error .writeConflict
  else .ok ()

def validateWriteConflicts (machine : ShardStateMachine) (transactionId : TransactionId)
    (startTime : TransactionTime) (snapshotAppliedIndex : UInt64)
    (candidate : List LogicalMutation) : Except ShardError Unit :=
  if OrderedMap.anyValue machine.activeIntents fun intent =>
      decide (intent.transactionId ≠ transactionId) &&
        mutationsConflict candidate intent.mutations then
    .error .writeConflict
  else
    forEachChange machine.binding machine.stateStore machine.appliedIndex
      (some ⟨snapshotAppliedIndex.toNat, u64Max⟩) (visitConflict startTime candidate)

def singleShardTransactionIsDurable (machine : ShardStateMachine)
    (command : CommitSingleShardTransaction) : Except ShardError Bool :=
  let expected := singleShardTransactionMetadata command
  match machine.stateStore.replicaMetadata expected.name with
  | none => .ok false
  | some metadata => do
    let _ ← decodeSingleShardTransactionMetadata metadata
    if metadata = expected then .ok true
    else
      .error (corruptIntentHistory
        "single-Shard transaction command has contradictory durable receipts")

def durableTransactionState (machine : ShardStateMachine) (transactionId : TransactionId) :
    Except ShardError (Option DurableTransactionState) :=
  match machine.stateStore.replicaMetadata
      (transactionMetadataName transactionStateMetadataBase transactionId) with
  | none => .ok none
  | some metadata => do
    let state ← decodeTransactionStateMetadata metadata
    .ok (some state)

def homeDecisionIsDurable (machine : ShardStateMachine) (command : RecordHomeDecision) :
    Except ShardError Bool := do
  let expected ← homeDecisionMetadata command
  match machine.stateStore.replicaMetadata expected.name with
  | none => .ok false
  | some metadata =>
    if metadata = expected then .ok true
    else do
      let _ ← decodeHomeDecisionMetadata metadata
      .error .homeDecisionConflict

/-! ## Acceptance of transaction commands -/

def acceptSingleShardTransaction (machine : ShardStateMachine)
    (command : CommitSingleShardTransaction) : Except ShardError IntentTransition := do
  if ← machine.singleShardTransactionIsDurable command then .ok .replay
  else do
    machine.validateWriteConflicts command.transactionId command.startTime
      command.snapshotAppliedIndex command.mutations
    .ok .none

def acceptPrewrite (machine : ShardStateMachine) (intent : ParticipantIntent) :
    Except ShardError IntentTransition :=
  match machine.activeIntents[intent.transactionId]? with
  | some existing =>
    if existing = intent then .ok .replay
    else
      .error (corruptIntentHistory "one transaction has contradictory active participant intents")
  | none =>
    if machine.activeIntents.size = maxTransactionIntentItems then
      .error (invalid "active transaction intent count exceeds the supported bound")
    else do
      if (← machine.durableTransactionState intent.transactionId).isSome then
        .error (corruptIntentHistory "new prewrite contradicts existing durable transaction state")
      else do
        machine.validateWriteConflicts intent.transactionId intent.startTime
          intent.snapshotAppliedIndex intent.mutations
        .ok (.prepare intent)

def acceptFinalize (machine : ShardStateMachine) (command : FinalizeParticipant) :
    Except ShardError IntentTransition :=
  match machine.activeIntents[command.terminal.id]? with
  | some active =>
    if active.digest ≠ command.terminal.recordDigest ∨
        ∃ intent ∈ command.intent, intent ≠ active then
      .error (corruptIntentHistory
        "participant finalization contradicts the active durable intent")
    else do
      validateIntentTerminal active command.terminal
      .ok (.finalize command.terminal.id active)
  | none => do
    match ← machine.durableTransactionState command.terminal.id with
    | none =>
      .error (corruptIntentHistory "participant finalization has no durable Prepared intent")
    | some state =>
      if state.matchesFinalize command then .ok .replay
      else
        .error (corruptIntentHistory
          "participant finalization contradicts durable terminal state")

def validateTransactionAcceptance (machine : ShardStateMachine) :
    ShardCommand → Except ShardError IntentTransition
  | .commitSingleShardTransaction command => machine.acceptSingleShardTransaction command
  | .commitSingleShard _ => .ok .none
  | .prewriteIntent command => machine.acceptPrewrite command.intent
  | .finalizeParticipant command => machine.acceptFinalize command
  | .recordHomeDecision command => do
    if ← machine.homeDecisionIsDurable command then .ok .replay else .ok .none
  | .advanceClosedTimestamp _ | .installSnapshot _ | .migration _ => .ok .none

/-! ## Writing batches -/

/-- Hands one batch to a store, which may fail to write it: `fault` is then its
answer, and nothing is written. -/
def writeBatch (binding : ReplicaBinding) (store : ReplicaStore) (term index : ℕ)
    (commandId : CommandId) (mutations : List LogicalMutation)
    (fault : Option StorageError := none) : Except ShardError (ApplyReceipt × ReplicaStore) := do
  let batch ← ofStorage (CommittedShardBatch.new binding term index commandId mutations)
  match fault with
  | some error => .error (.storage error)
  | none => ofStorage (store.apply batch)

/-- Writes a batch that changes nothing else in memory. -/
def applyRecord (machine : ShardStateMachine) (term index : ℕ) (commandId : CommandId)
    (metadata : ReplicaMetadata) (rejection : Option ApplyRejection)
    (fault : Option StorageError := none) : Except ShardError ApplyOutcome × ShardStateMachine :=
  match writeBatch machine.binding machine.stateStore term index commandId
      [.putReplicaMetadata metadata] fault with
  | .error error => (.error error, machine)
  | .ok (receipt, store) =>
    (.ok ⟨receipt.mutationDigest, receipt.raftIndex, receipt.replayed, rejection, machine.binding⟩,
      { machine with
        stateStore := store
        appliedIndex := max machine.appliedIndex receipt.raftIndex })

def noopMetadata (index : ℕ) : ReplicaMetadata :=
  ReservedKey.raftNoop.record (BigEndian.encode 8 index)

/-- The identifier of a no-op: the term over the index. -/
def noopCommandId (term index : ℕ) : Option CommandId := Identifier.new (2 ^ 64 * term + index)

def applyRaftNoop (machine : ShardStateMachine) (term index : ℕ) :
    Except ShardError ApplyOutcome × ShardStateMachine :=
  match noopCommandId term index with
  | none => (.error (.storage (.invalidBatch "command identifier must be nonzero")), machine)
  | some commandId => machine.applyRecord term index commandId (noopMetadata index) none

def rejectionMetadata (commandId : CommandId) (rejection : ApplyRejection) : ReplicaMetadata where
  name := ReservedKey.raftRejection.name
  value := .map [("command_id", .bytes commandId.toBytes), ("reason", .string rejection.code)]
  named := ReservedKey.name_ne_empty _
  wellFormed := by
    rw [Value.WellFormed]
    exact ⟨by simp [Value.EntriesWellFormed, Value.WellFormed],
      by simp only [List.map_cons, List.map_nil]; decide⟩

def applyRejected (machine : ShardStateMachine) (term index : ℕ) (commandId : CommandId)
    (rejection : ApplyRejection) (fault : Option StorageError := none) :
    Except ShardError ApplyOutcome × ShardStateMachine :=
  machine.applyRecord term index commandId (rejectionMetadata commandId rejection)
    (some rejection) fault

/-- An error either becomes a durable rejection or is returned. -/
def reject (machine : ShardStateMachine) (term index : ℕ) (command : ShardCommand)
    (error : ShardError) (fault : Option StorageError := none) :
    Except ShardError ApplyOutcome × ShardStateMachine :=
  match committedRejection error with
  | some rejection => machine.applyRejected term index command.header.commandId rejection fault
  | none => (.error error, machine)

def nextActiveIntents (machine : ShardStateMachine) :
    IntentTransition → OrderedMap TransactionId ParticipantIntent
  | .prepare intent => machine.activeIntents.insert intent.transactionId intent
  | .finalize transactionId _ => machine.activeIntents.erase transactionId
  | .none | .replay => machine.activeIntents

/-- The state record and the index a two-phase command leaves. -/
def intentRecords (intent : ParticipantIntent) (terminal : Option TransactionRecord)
    (active : OrderedMap TransactionId ParticipantIntent) :
    Except ShardError (List LogicalMutation) := do
  let state ← transactionStateMetadata intent terminal
  let index ← activeIntentsMetadata active
  .ok [.putReplicaMetadata state, .putReplicaMetadata index]

/-- The metadata the machine adds to a command's own mutations. -/
def recordsOf (machine : ShardStateMachine) (command : ShardCommand)
    (transition : IntentTransition) : Except ShardError (List LogicalMutation) :=
  match command, transition with
  | .recordHomeDecision command, _ => do
    let metadata ← homeDecisionMetadata command
    .ok [.putReplicaMetadata metadata]
  | .commitSingleShardTransaction command, _ =>
    .ok [.putReplicaMetadata (singleShardTransactionMetadata command)]
  | .prewriteIntent _, .prepare intent =>
    intentRecords intent none (machine.nextActiveIntents transition)
  | .prewriteIntent command, .replay =>
    intentRecords command.intent none (machine.nextActiveIntents transition)
  | .finalizeParticipant command, .finalize _ intent =>
    intentRecords intent (some command.terminal) (machine.nextActiveIntents transition)
  | .finalizeParticipant command, .replay => do
    match ← machine.durableTransactionState command.terminal.id with
    | none =>
      .error (corruptIntentHistory
        "participant finalization replay lost its durable transaction state")
    | some state => intentRecords state.intent state.terminal (machine.nextActiveIntents transition)
  | _, _ => .ok []

/-- A command that was accepted before, now at a new index. -/
def logicalReplay (machine : ShardStateMachine) (index : ℕ) : IntentTransition → Bool
  | .replay => decide (machine.appliedIndex < index)
  | _ => false

def nextClosedTimestamp (machine : ShardStateMachine) : ShardCommand → Option TransactionTime
  | .advanceClosedTimestamp command => some command.closedTimestamp
  | _ => machine.closedTimestamp

def applyAccepted (machine : ShardStateMachine) (term index : ℕ) (command : ShardCommand)
    (transition : IntentTransition) (fault : Option StorageError := none) :
    Except ShardError ApplyOutcome × ShardStateMachine :=
  let logicalReplay := machine.logicalReplay index transition
  match machine.recordsOf command transition with
  | .error error => (.error error, machine)
  | .ok records =>
    match writeBatch machine.binding machine.stateStore term index command.header.commandId
        ((if logicalReplay then [] else command.mutations) ++ records) fault with
    | .error error => (.error error, machine)
    | .ok (receipt, store) =>
      (.ok ⟨receipt.mutationDigest, receipt.raftIndex, receipt.replayed || logicalReplay, none,
          machine.binding⟩,
        { machine with
          stateStore := store
          appliedIndex := max machine.appliedIndex receipt.raftIndex
          closedTimestamp := machine.nextClosedTimestamp command
          activeIntents :=
            if receipt.replayed then machine.activeIntents
            else machine.nextActiveIntents transition })

end ShardStateMachine

end Machine

end DtgProxy.Shard

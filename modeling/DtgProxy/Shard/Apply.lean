import DtgProxy.Shard.StateMachine

/-! # Applying committed entries

An entry of the Raft log is applied as it is delivered: as a fresh command, as a
cutover to a staged store, or as a redelivery of an index the store already
holds.  Entries that are all independent one-phase transactions may be written
in one atomic batch.
-/
namespace DtgProxy.Shard

open Kernel Lib Storage

section Machine

variable [Blake3]

namespace ShardStateMachine

/-- The staged store a cutover names, if it is the one the command was verified for. -/
def cutoverTarget (machine : ShardStateMachine) (command : MigrationCommand) :
    Except ShardError (BackendGeneration × ReplicaStore) :=
  match command.online with
  | none => .error (invalid "migration cutover lacks a target")
  | some context =>
    match machine.migrationStateStores[context.targetGeneration]? with
    | none =>
      .error (.invalidLifecycle "migration cutover target state store is not staged")
    | some target =>
      if target.binding.placementEpoch ≠ command.header.placementEpoch ∨
          target.binding.backendGeneration ≠ context.targetGeneration ∨
          target.binding.backendClassDigest ≠ context.targetBackendClassDigest ∨
          context.verifiedIndex.toNat ≠ machine.appliedIndex then
        .error .bindingMismatch
      else .ok (context.targetGeneration, target)

/-- Moves the machine to a staged store.  The staged store keeps the cutover
batch when its prepared transactions cannot be restored. -/
def applyMigrationCutover (machine : ShardStateMachine) (term index : ℕ)
    (command : MigrationCommand) (fault : Option StorageError := none) :
    Except ShardError ApplyOutcome × ShardStateMachine :=
  match machine.cutoverTarget command with
  | .error error => (.error error, machine)
  | .ok (generation, target) =>
    match writeBatch target.binding target term index command.header.commandId
        (ShardCommand.migration command).mutations fault with
    | .error error => (.error error, machine)
    | .ok (receipt, target') =>
      match rebuildActiveIntents target.binding target' receipt.raftIndex with
      | .error error =>
        (.error error,
          { machine with
            migrationStateStores := machine.migrationStateStores.insert generation target' })
      | .ok activeIntents =>
        (.ok ⟨receipt.mutationDigest, receipt.raftIndex, receipt.replayed, none, target.binding⟩,
          { machine with
            binding := target.binding
            stateStore := target'
            appliedIndex := receipt.raftIndex
            activeIntents := activeIntents
            migrationStateStores := machine.migrationStateStores.erase generation })

end ShardStateMachine

/-! ## Redelivery of two-phase commands -/

/-- The stored metadata is the one the command leaves. -/
def historicalRecordsMatch (state : DurableTransactionState)
    (active : OrderedMap TransactionId Digest32) : ShardCommand → Bool
  | .prewriteIntent command =>
    decide (state.intent = command.intent) && state.terminal.isNone &&
      decide (active[command.intent.transactionId]? = some command.intent.digest)
  | .finalizeParticipant command =>
    state.matchesFinalize command && !active.contains command.terminal.id
  | _ => false

/-- Compares a stored batch with the command redelivered at its index. -/
def validateHistoricalTransactionBatch (command : ShardCommand)
    (historical : List LogicalMutation) : Except ShardError Unit :=
  if historical.length ≠ command.mutations.length + 2 ∨
      historical.take command.mutations.length ≠ command.mutations then
    .error (corruptIntentHistory "old-index transaction batch contradicts the replayed command")
  else
    match historical.drop command.mutations.length with
    | [.putReplicaMetadata stateMetadata, .putReplicaMetadata activeMetadata] => do
      let state ← decodeTransactionStateMetadata stateMetadata
      let active ← decodeActiveIntentsMetadata activeMetadata
      if historicalRecordsMatch state active command then .ok ()
      else
        .error (corruptIntentHistory
          "old-index transaction metadata contradicts the replayed command")
    | .putReplicaMetadata _ :: _ =>
      .error (corruptIntentHistory "old-index transaction batch lacks the active transaction index")
    | _ =>
      .error (corruptIntentHistory "old-index transaction batch lacks durable transaction state")

/-- A command that prepares or finishes a two-phase transaction. -/
def ShardCommand.isTwoPhase : ShardCommand → Bool
  | .prewriteIntent _ | .finalizeParticipant _ => true
  | _ => false

namespace ShardStateMachine

/-- Answers a redelivered two-phase command from the stored batch.  A batch that
turns out to be new would be an error after the write. -/
def replayOldTransactionCommand (machine : ShardStateMachine) (term index : ℕ)
    (command : ShardCommand) (fault : Option StorageError := none) :
    Except ShardError ApplyOutcome × ShardStateMachine :=
  let checked := do
    let mutations ← mutationsAtIndex machine.binding machine.stateStore machine.appliedIndex index
    validateHistoricalTransactionBatch command mutations
    writeBatch machine.binding machine.stateStore term index command.header.commandId mutations
      fault
  match checked with
  | .error error => (.error error, machine)
  | .ok (receipt, store) =>
    if receipt.replayed then
      (.ok ⟨receipt.mutationDigest, receipt.raftIndex, true, none, machine.binding⟩,
        { machine with stateStore := store })
    else
      (.error (corruptIntentHistory
          "old-index transaction replay unexpectedly applied a new batch"),
        { machine with stateStore := store })

/-- Applies a valid command that is not a cutover. -/
def applyValidated (machine : ShardStateMachine) (term index : ℕ) (command : ShardCommand)
    (fault : Option StorageError := none) : Except ShardError ApplyOutcome × ShardStateMachine :=
  if index < machine.appliedIndex ∧ command.isTwoPhase then
    machine.replayOldTransactionCommand term index command fault
  else
    match machine.validateTransactionAcceptance command with
    | .error error => machine.reject term index command error fault
    | .ok transition => machine.applyAccepted term index command transition fault

/-- Applies one entry.  It makes at most one write, and `fault` is the error of the
store if that write fails. -/
def applyCommitted (machine : ShardStateMachine) (term index : ℕ) (command : ShardCommand)
    (fault : Option StorageError := none) : Except ShardError ApplyOutcome × ShardStateMachine :=
  match machine.validateCommand command with
  | .error error => machine.reject term index command error fault
  | .ok () =>
    match command with
    | .migration migration =>
      if machine.cutsOver (.migration migration) then
        machine.applyMigrationCutover term index migration fault
      else machine.applyValidated term index (.migration migration) fault
    | command => machine.applyValidated term index command fault

/-! ## Several entries -/

/-- An entry of the Raft log: its term, its index and its command. -/
abbrev Entry := ℕ × ℕ × ShardCommand

/-- Applies entries one after the other up to the first error. -/
def applyEach (machine : ShardStateMachine) :
    List Entry → Except ShardError (List ApplyOutcome) × ShardStateMachine
  | [] => (.ok [], machine)
  | (term, index, command) :: rest =>
    match machine.applyCommitted term index command with
    | (.error error, machine') => (.error error, machine')
    | (.ok outcome, machine') =>
      match machine'.applyEach rest with
      | (.error error, machine'') => (.error error, machine'')
      | (.ok outcomes, machine'') => (.ok (outcome :: outcomes), machine'')

/-- The transaction would be applied and is not a replay. -/
def isFreshTransaction (machine : ShardStateMachine) (command : ShardCommand) : Bool :=
  match machine.validateCommand command with
  | .error _ => false
  | .ok () =>
    match machine.validateTransactionAcceptance command with
    | .ok .none => true
    | _ => false

/-- What an atomic batch has collected so far. -/
structure BatchScan where
  expectedIndex : ℕ
  priorMutations : List LogicalMutation
  transactionIds : OrderedMap TransactionId Unit
  batches : List CommittedShardBatch

/-- Collects the batches of independent one-phase transactions.  No result means
that the entries have to be applied one by one. -/
def collectTransactions (machine : ShardStateMachine) :
    BatchScan → List Entry → Except ShardError (Option (List CommittedShardBatch))
  | scan, [] => .ok (some scan.batches)
  | scan, (term, index, .commitSingleShardTransaction transaction) :: rest =>
    if index ≠ scan.expectedIndex ∨ term = 0 then .ok none
    else if scan.transactionIds.contains transaction.transactionId then .ok none
    else if machine.isFreshTransaction (.commitSingleShardTransaction transaction) = false then
      .ok none
    else if mutationsConflict scan.priorMutations transaction.mutations then .ok none
    else do
      let batch ← ofStorage (CommittedShardBatch.new machine.binding term index
        transaction.header.commandId
        (transaction.mutations ++
          [.putReplicaMetadata (singleShardTransactionMetadata transaction)]))
      machine.collectTransactions
        ⟨scan.expectedIndex + 1, scan.priorMutations ++ transaction.mutations,
          scan.transactionIds.insert transaction.transactionId (), scan.batches ++ [batch]⟩ rest
  | _, _ :: _ => .ok none

def applyCollected (machine : ShardStateMachine) (entries : List Entry)
    (batches : List CommittedShardBatch) :
    Except ShardError (List ApplyOutcome) × ShardStateMachine :=
  match machine.stateStore.applyBatches batches with
  | .error error => (.error (.storage error), machine)
  | .ok (receipts, store) =>
    if receipts.length ≠ entries.length ∨ receipts.any (·.replayed) then
      (.error (.invalidRaftState "atomic state-store batch returned inconsistent receipts"),
        { machine with stateStore := store })
    else
      (.ok (receipts.map fun receipt =>
          ⟨receipt.mutationDigest, receipt.raftIndex, false, none, machine.binding⟩),
        { machine with
          stateStore := store
          appliedIndex := (receipts.getLast?.map (·.raftIndex)).getD machine.appliedIndex })

/-- Applies entries, in one atomic batch where the store has one and they allow it. -/
def applyCommittedBatch (machine : ShardStateMachine) (supportsAtomicBatchApply : Bool)
    (entries : List Entry) : Except ShardError (List ApplyOutcome) × ShardStateMachine :=
  if entries.length < 2 ∨ supportsAtomicBatchApply = false then machine.applyEach entries
  else
    match machine.collectTransactions ⟨machine.appliedIndex + 1, [], ∅, []⟩ entries with
    | .error error => (.error error, machine)
    | .ok none => machine.applyEach entries
    | .ok (some batches) => machine.applyCollected entries batches

end ShardStateMachine

end Machine

end DtgProxy.Shard

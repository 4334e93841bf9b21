import DtgProxy.Shard.Intent
import DtgProxy.Shard.Migration

/-! # Shard commands

The commands a shard's Raft log carries.  A command carries the proof of the
validation its constructor runs, so the checks the source repeats before it
applies or encodes a command cannot fail here.
-/
namespace DtgProxy.Shard

open Kernel Lib Storage ByteCodec

def supportedShardCommandFormatVersion : ℕ := 3
def closedTimestampMetadataName : String := "dtg.closed_timestamp"

/-- Names the shard keeps for itself.  Both strings are compared from the front,
and the reserved text is ASCII, so characters and bytes agree. -/
def reservedName (name : String) : Bool := "dtg.".toList.isPrefixOf name.toList

/-! ## Commits on one shard -/

def validateSingleShardMutations (mutations : List LogicalMutation) : Except ShardError Unit :=
  if mutations.any fun mutation =>
      match mutation with
      | .putTransaction _ => true
      | .putReplicaMetadata metadata => reservedName metadata.name
      | _ => false then
    .error (invalid
      "generic single-Shard commits cannot write transactions or reserved dtg metadata")
  else .ok ()

/-- A commit outside any transaction.  The bound is that of a `Vec`. -/
@[ext] structure CommitSingleShard where
  header : CommandHeader
  mutations : List LogicalMutation
  nonempty : mutations ≠ []
  valid : validateSingleShardMutations mutations = .ok ()
  length_lt : mutations.length < 2 ^ 63

instance : DecidableEq CommitSingleShard :=
  fun _ _ => decidable_of_iff _ CommitSingleShard.ext_iff.symm

/-- `empty` is the message for an empty list, which differs between the
constructor and the decoder. -/
def CommitSingleShard.new (empty : String) (header : CommandHeader)
    (mutations : List LogicalMutation) : Except ShardError CommitSingleShard :=
  if hempty : mutations = [] then .error (invalid empty)
  else
    match hvalid : validateSingleShardMutations mutations with
    | .error error => .error error
    | .ok () =>
      if hlength : mutations.length < 2 ^ 63 then
        .ok ⟨header, mutations, hempty, hvalid, hlength⟩
      else .error (invalid "capacity overflow")

def validateCommitFollowsStart (startTime : TransactionTime) (mutations : List LogicalMutation)
    (message : String) : Except ShardError Unit :=
  if ∃ time ∈ mutations.head?.bind graphMutationTime, time ≤ startTime then
    .error (invalid message)
  else .ok ()

def validateTransactionCommit (startTime : TransactionTime) (mutations : List LogicalMutation) :
    Except ShardError Unit := do
  validateIntentMutations mutations
  validateCommitFollowsStart startTime mutations
    "single-Shard transaction commit time must follow its start time"

/-- A transaction that commits on one shard in one phase. -/
structure CommitSingleShardTransaction where
  header : CommandHeader
  transactionId : TransactionId
  startTime : TransactionTime
  snapshotAppliedIndex : UInt64
  requestDigest : Digest32
  mutations : List LogicalMutation
  valid : validateTransactionCommit startTime mutations = .ok ()
deriving DecidableEq

def CommitSingleShardTransaction.new (header : CommandHeader) (transactionId : TransactionId)
    (startTime : TransactionTime) (snapshotAppliedIndex : UInt64) (requestDigest : Digest32)
    (mutations : List LogicalMutation) : Except ShardError CommitSingleShardTransaction :=
  match hvalid : validateTransactionCommit startTime mutations with
  | .error error => .error error
  | .ok () =>
    .ok ⟨header, transactionId, startTime, snapshotAppliedIndex, requestDigest, mutations, hvalid⟩

namespace CommitSingleShardTransaction

theorem exists_time (command : CommitSingleShardTransaction) :
    ∃ time, command.startTime < time ∧ command.mutations.head?.bind graphMutationTime = some time ∧
      ∀ mutation ∈ command.mutations, graphMutationTime mutation = some time := by
  obtain ⟨_, hmutations, hfollows⟩ := Result.bind_eq_ok.mp command.valid
  obtain ⟨-, hne, time, htime⟩ := validateIntentMutations_eq_ok.mp hmutations
  obtain ⟨first, rest, hcons⟩ := List.exists_cons_of_ne_nil hne
  have hfirst : command.mutations.head?.bind graphMutationTime = some time := by
    rw [hcons]
    exact htime first (by simp [hcons])
  refine ⟨time, ?_, hfirst, htime⟩
  by_contra hle
  rw [validateCommitFollowsStart, if_pos] at hfollows
  · cases hfollows
  · exact ⟨time, hfirst, not_lt.mp hle⟩

/-- The transaction time of the first mutation, which all of them share. -/
def commitTime (command : CommitSingleShardTransaction) : TransactionTime :=
  (command.mutations.head?.bind graphMutationTime).get (by
    obtain ⟨time, -, htime, -⟩ := command.exists_time
    rw [htime]
    rfl)

theorem commitTime_spec (command : CommitSingleShardTransaction) :
    command.startTime < command.commitTime ∧
      ∀ mutation ∈ command.mutations, graphMutationTime mutation = some command.commitTime := by
  obtain ⟨time, hlt, hhead, htime⟩ := command.exists_time
  have heq : command.commitTime = time := by
    unfold commitTime
    simp only [hhead, Option.get_some]
  rw [heq]
  exact ⟨hlt, htime⟩

end CommitSingleShardTransaction

/-! ## Two-phase commands -/

@[ext] structure HomeDecisionParticipant where
  shardId : ShardId
  placementEpoch : PlacementEpoch
  backendGeneration : BackendGeneration
  snapshotAppliedIndex : UInt64
  intentDigest : Digest32
  digest_ne_zero : intentDigest ≠ Digest32.zero
deriving Repr

instance : DecidableEq HomeDecisionParticipant :=
  fun _ _ => decidable_of_iff _ HomeDecisionParticipant.ext_iff.symm

def HomeDecisionParticipant.new (shardId : ShardId) (placementEpoch : PlacementEpoch)
    (backendGeneration : BackendGeneration) (snapshotAppliedIndex : UInt64)
    (intentDigest : Digest32) : Except ShardError HomeDecisionParticipant :=
  if h : intentDigest = Digest32.zero then
    .error (invalid "home decision participant digest must be nonzero")
  else .ok ⟨shardId, placementEpoch, backendGeneration, snapshotAppliedIndex, intentDigest, h⟩

/-- The participants of a decided transaction, in shard order. -/
@[ext] structure HomeDecisionManifest where
  startTime : TransactionTime
  catalogVersion : UInt64
  participants : List HomeDecisionParticipant
  version_ne_zero : catalogVersion ≠ 0
  nonempty : participants ≠ []
  bounded : participants.length ≤ maxTransactionIntentItems
  ordered : (participants.map (·.shardId)).Pairwise (· < ·)
deriving DecidableEq

namespace HomeDecisionManifest

def ByShard (a b : HomeDecisionParticipant) : Prop := a.shardId ≤ b.shardId

instance : DecidableRel ByShard := fun a b => inferInstanceAs (Decidable (a.shardId ≤ b.shardId))

instance : Std.Total ByShard := ⟨fun a b => le_total a.shardId b.shardId⟩

instance : IsTrans HomeDecisionParticipant ByShard := ⟨fun _ _ _ hab hbc => le_trans hab hbc⟩

theorem insertionSort_ordered {participants : List HomeDecisionParticipant}
    (h : ((participants.insertionSort ByShard).map (·.shardId)).Nodup) :
    ((participants.insertionSort ByShard).map (·.shardId)).Pairwise (· < ·) := by
  rw [List.Nodup, List.pairwise_map] at h
  rw [List.pairwise_map]
  refine ((List.pairwise_insertionSort ByShard participants).and h).imp ?_
  rintro a b ⟨hle, hne⟩
  exact lt_of_le_of_ne hle hne

/-- Sorts by shard and refuses a repeated shard. -/
def new (startTime : TransactionTime) (catalogVersion : UInt64)
    (participants : List HomeDecisionParticipant) : Except ShardError HomeDecisionManifest :=
  if h : catalogVersion ≠ 0 ∧ participants.insertionSort ByShard ≠ [] ∧
      (participants.insertionSort ByShard).length ≤ maxTransactionIntentItems ∧
      ((participants.insertionSort ByShard).map (·.shardId)).Nodup then
    .ok ⟨startTime, catalogVersion, participants.insertionSort ByShard, h.1, h.2.1, h.2.2.1,
      insertionSort_ordered h.2.2.2⟩
  else .error (invalid "home decision manifest must contain unique durable participants")

/-- A manifest's own participants are already in order. -/
theorem new_participants (manifest : HomeDecisionManifest) :
    new manifest.startTime manifest.catalogVersion manifest.participants = .ok manifest := by
  have hordered := manifest.ordered
  rw [List.pairwise_map] at hordered
  have hsorted : manifest.participants.insertionSort ByShard = manifest.participants :=
    List.Pairwise.insertionSort_eq (hordered.imp fun h => le_of_lt h)
  unfold new
  rw [dif_pos]
  · exact congrArg Except.ok (HomeDecisionManifest.ext rfl rfl hsorted)
  · rw [hsorted]
    exact ⟨manifest.version_ne_zero, manifest.nonempty, manifest.bounded,
      manifest.ordered.imp ne_of_lt⟩

end HomeDecisionManifest

section Digests

variable [Blake3]

def validatePrewrite (prepared : TransactionRecord) (intent : ParticipantIntent) :
    Except ShardError Unit :=
  if prepared.state ≠ .prepared ∨ prepared.id ≠ intent.transactionId ∨
      prepared.transactionTime ≠ intent.startTime ∨ prepared.recordDigest ≠ intent.digest then
    .error (invalid "prewrite intent must bind one prepared record to its participant payload")
  else .ok ()

structure PrewriteIntent where
  header : CommandHeader
  prepared : TransactionRecord
  intent : ParticipantIntent
  valid : validatePrewrite prepared intent = .ok ()
deriving DecidableEq

def PrewriteIntent.new (header : CommandHeader) (prepared : TransactionRecord)
    (intent : ParticipantIntent) : Except ShardError PrewriteIntent :=
  match hvalid : validatePrewrite prepared intent with
  | .error error => .error error
  | .ok () => .ok ⟨header, prepared, intent, hvalid⟩

def PrewriteIntent.mutations (command : PrewriteIntent) : List LogicalMutation :=
  [.putTransaction command.prepared, .putReplicaMetadata command.intent.metadata]

/-- The digest that binds a decision to its participants.  A commit hashes the
intents it was taken over, an abort only the shards. -/
def HomeDecisionManifest.decisionDigest (manifest : HomeDecisionManifest)
    (transactionId : TransactionId) (state : TransactionState)
    (decisionTime : TransactionTime) : Except ShardError Digest32 :=
  match state with
  | .committed =>
    if manifest.startTime < decisionTime then
      .ok (Blake3.hash (utf8 "dtg-transaction-home-decision-v1" ++ transactionId.toBytes ++
        decisionTime.toBytes ++ manifest.participants.flatMap fun participant =>
          participant.shardId.toBytes ++ participant.intentDigest.bytes))
    else .error (invalid "home decision time does not match its terminal state")
  | .aborted =>
    if decisionTime = manifest.startTime then
      .ok (Blake3.hash (utf8 "dtg-transaction-home-abort-v1" ++ transactionId.toBytes ++
        manifest.startTime.toBytes ++ manifest.participants.flatMap fun participant =>
          participant.shardId.toBytes))
    else .error (invalid "home decision time does not match its terminal state")
  | .prepared => .error (invalid "home decision time does not match its terminal state")

def validateHomeDecision (decision : TransactionRecord) (manifest : HomeDecisionManifest) :
    Except ShardError Unit :=
  match decision.state with
  | .prepared => .error (invalid "home decision must match its durable participant manifest")
  | .committed | .aborted => do
    let digest ← manifest.decisionDigest decision.id decision.state decision.transactionTime
    if decision.recordDigest ≠ digest then
      .error (invalid "home decision must match its durable participant manifest")
    else .ok ()

structure RecordHomeDecision where
  header : CommandHeader
  decision : TransactionRecord
  manifest : HomeDecisionManifest
  valid : validateHomeDecision decision manifest = .ok ()
deriving DecidableEq

def RecordHomeDecision.new (header : CommandHeader) (decision : TransactionRecord)
    (manifest : HomeDecisionManifest) : Except ShardError RecordHomeDecision :=
  match hvalid : validateHomeDecision decision manifest with
  | .error error => .error error
  | .ok () => .ok ⟨header, decision, manifest, hvalid⟩

def validateFinalize (terminal : TransactionRecord) (intent : Option ParticipantIntent) :
    Except ShardError Unit :=
  match terminal.state with
  | .committed =>
    match intent with
    | none => .error (invalid "commit finalization requires participant intent")
    | some intent =>
      if terminal.id ≠ intent.transactionId ∨ terminal.recordDigest ≠ intent.digest ∨
          terminal.transactionTime ≤ intent.startTime ∨
          ∃ mutation ∈ intent.mutations,
            graphMutationTime mutation ≠ some terminal.transactionTime then
        .error (invalid "commit finalization does not match participant intent")
      else .ok ()
  | .aborted =>
    if intent.isNone then .ok ()
    else .error (invalid "abort finalization must not carry graph mutations")
  | .prepared =>
    .error (invalid "participant finalization requires a terminal transaction record")

structure FinalizeParticipant where
  header : CommandHeader
  terminal : TransactionRecord
  intent : Option ParticipantIntent
  valid : validateFinalize terminal intent = .ok ()
deriving DecidableEq

def FinalizeParticipant.new (header : CommandHeader) (terminal : TransactionRecord)
    (intent : Option ParticipantIntent) : Except ShardError FinalizeParticipant :=
  match hvalid : validateFinalize terminal intent with
  | .error error => .error error
  | .ok () => .ok ⟨header, terminal, intent, hvalid⟩

def FinalizeParticipant.mutations (command : FinalizeParticipant) : List LogicalMutation :=
  (match command.intent with
    | some intent => intent.mutations
    | none => []) ++ [.putTransaction command.terminal]

end Digests

/-! ## The remaining commands -/

structure AdvanceClosedTimestamp where
  header : CommandHeader
  closedTimestamp : TransactionTime
deriving DecidableEq, Repr

@[ext] structure InstallSnapshot where
  header : CommandHeader
  snapshotId : BitVec 128
  contentDigest : Digest32
  id_ne_zero : snapshotId ≠ 0
  digest_ne_zero : contentDigest ≠ Digest32.zero
deriving Repr

instance : DecidableEq InstallSnapshot := fun _ _ => decidable_of_iff _ InstallSnapshot.ext_iff.symm

def InstallSnapshot.new (header : CommandHeader) (snapshotId : BitVec 128)
    (contentDigest : Digest32) : Except ShardError InstallSnapshot :=
  if hid : snapshotId = 0 then .error (invalid "snapshot identity must be complete")
  else if hdigest : contentDigest = Digest32.zero then
    .error (invalid "snapshot identity must be complete")
  else .ok ⟨header, snapshotId, contentDigest, hid, hdigest⟩

def MigrationPhase.text : MigrationPhase → String
  | .prepare => "prepare"
  | .activate => "activate"
  | .grace => "grace"
  | .retire => "retire"
  | .complete => "complete"
  | .abort => "abort"
  | .rollback => "rollback"

def installedSnapshotMetadata (command : InstallSnapshot) : ReplicaMetadata where
  name := "dtg.installed_snapshot"
  value := .map [("content_digest", .bytes command.contentDigest.bytes),
    ("snapshot_id", .bytes (BigEndian.encode 16 command.snapshotId.toNat))]
  named := by decide
  wellFormed := by
    rw [Value.WellFormed]
    exact ⟨by simp [Value.EntriesWellFormed, Value.WellFormed],
      by simp only [List.map_cons, List.map_nil]; decide⟩

def migrationMetadata (command : MigrationCommand) : ReplicaMetadata :=
  match command.online with
  | none =>
    ⟨"dtg.migration_phase", .string command.phase.text, by decide, by simp [Value.WellFormed]⟩
  | some context =>
    ⟨"dtg.migration_phase",
      .map [("catalog_version", .bytes (BigEndian.encode 8 context.catalogVersion.toNat)),
        ("logical_digest", .bytes context.logicalDigest.bytes),
        ("migration_id", .bytes (BigEndian.encode 16 context.migrationId.toNat)),
        ("phase", .string command.phase.text),
        ("retained_generation", .bytes context.retainedGeneration.toBytes),
        ("source_epoch", .bytes context.sourceEpoch.toBytes),
        ("source_generation", .bytes context.sourceGeneration.toBytes),
        ("target_backend_class_digest", .bytes context.targetBackendClassDigest.bytes),
        ("target_generation", .bytes context.targetGeneration.toBytes),
        ("verified_index", .bytes (BigEndian.encode 8 context.verifiedIndex.toNat))],
      by decide, by
        rw [Value.WellFormed]
        exact ⟨by simp [Value.EntriesWellFormed, Value.WellFormed],
          by simp only [List.map_cons, List.map_nil]; decide⟩⟩

def closedTimestampMetadata (closedTimestamp : TransactionTime) : ReplicaMetadata :=
  ⟨closedTimestampMetadataName, .integer (Int64.ofNat closedTimestamp.get), by decide,
    by simp [Value.WellFormed]⟩

section Commands

variable [Blake3]

inductive ShardCommand where
  | commitSingleShard (command : CommitSingleShard)
  | commitSingleShardTransaction (command : CommitSingleShardTransaction)
  | prewriteIntent (command : PrewriteIntent)
  | recordHomeDecision (command : RecordHomeDecision)
  | finalizeParticipant (command : FinalizeParticipant)
  | advanceClosedTimestamp (command : AdvanceClosedTimestamp)
  | installSnapshot (command : InstallSnapshot)
  | migration (command : MigrationCommand)
deriving DecidableEq

namespace ShardCommand

def header : ShardCommand → CommandHeader
  | .commitSingleShard command => command.header
  | .commitSingleShardTransaction command => command.header
  | .prewriteIntent command => command.header
  | .recordHomeDecision command => command.header
  | .finalizeParticipant command => command.header
  | .advanceClosedTimestamp command => command.header
  | .installSnapshot command => command.header
  | .migration command => command.header

/-- The mutations the command asks for, without the metadata the state machine adds. -/
def mutations : ShardCommand → List LogicalMutation
  | .commitSingleShard command => command.mutations
  | .commitSingleShardTransaction command => command.mutations
  | .prewriteIntent command => command.mutations
  | .recordHomeDecision command => [.putTransaction command.decision]
  | .finalizeParticipant command => command.mutations
  | .advanceClosedTimestamp command =>
    [.putReplicaMetadata (closedTimestampMetadata command.closedTimestamp)]
  | .installSnapshot command => [.putReplicaMetadata (installedSnapshotMetadata command)]
  | .migration command => [.putReplicaMetadata (migrationMetadata command)]

end ShardCommand

end Commands

end DtgProxy.Shard

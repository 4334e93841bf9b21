import DtgProxy.Shard.Command

/-! # The encoding of commands

The version word, a tag, the header and the fields of the command.  The decoder
validates home decisions, snapshots and migrations as it reads them and the other
commands only after the last byte, so a message with trailing bytes is refused
as such.
-/
namespace DtgProxy.Shard

open Kernel Lib Storage ByteCodec

namespace Codec

/-- Continues with a checked value. -/
def lift {α : Type} : Except ShardError α → CodecM α
  | .ok value => pure value
  | .error error => fail error

def isFinished : CodecM Bool := fun (bytes, budget) => .ok (bytes.isEmpty, bytes, budget)

def putHeader (header : CommandHeader) : CodecM Unit := do
  putId header.commandId
  putId header.placementEpoch
  putId header.backendGeneration

def getHeader : CodecM CommandHeader := do
  let commandId ← getId .command (.storage (.invalidBatch "command identifier must be nonzero"))
  let placementEpoch ← getWord 8
  let backendGeneration ← getWord 8
  match Identifier.new placementEpoch with
  | none => fail (invalid "placement epoch must be nonzero")
  | some placementEpoch =>
    match Identifier.new backendGeneration with
    | none => fail (invalid "backend generation must be nonzero")
    | some backendGeneration => pure ⟨commandId, placementEpoch, backendGeneration⟩

def putWide (value : BitVec 128) : CodecM Unit := put (BigEndian.encode 16 value.toNat)

def getWide : CodecM (BitVec 128) := do
  let value ← getWord 16
  pure (BitVec.ofNat 128 value)

def putParticipant (participant : HomeDecisionParticipant) : CodecM Unit := do
  putId participant.shardId
  putId participant.placementEpoch
  putId participant.backendGeneration
  putU64 participant.snapshotAppliedIndex
  putBytes participant.intentDigest.bytes

def getParticipant : CodecM HomeDecisionParticipant := do
  let shardId ← getId .shard zeroIdentifier
  let placementEpoch ← getId .placementEpoch zeroIdentifier
  let backendGeneration ← getId .backendGeneration zeroIdentifier
  let snapshotAppliedIndex ← getU64
  let intentDigest ← getDigest
  lift (HomeDecisionParticipant.new shardId placementEpoch backendGeneration snapshotAppliedIndex
    intentDigest)

def migrationPhaseTag : MigrationPhase → UInt8
  | .prepare => 1
  | .activate => 2
  | .retire => 3
  | .grace => 4
  | .complete => 5
  | .abort => 6
  | .rollback => 7

def getMigrationPhase : CodecM MigrationPhase := do
  let tag ← getU8
  match tag.toNat with
  | 1 => pure .prepare
  | 2 => pure .activate
  | 3 => pure .retire
  | 4 => pure .grace
  | 5 => pure .complete
  | 6 => pure .abort
  | 7 => pure .rollback
  | _ => fail (invalid "unknown migration phase")

def putContext (context : OnlineMigrationContext) : CodecM Unit := do
  putU8 1
  putWide context.migrationId
  putId context.sourceEpoch
  putId context.sourceGeneration
  putId context.retainedGeneration
  putId context.targetGeneration
  putBytes context.targetBackendClassDigest.bytes
  putU64 context.catalogVersion
  putU64 context.verifiedIndex
  putBytes context.logicalDigest.bytes

def getMigration (header : CommandHeader) : CodecM MigrationCommand := do
  let phase ← getMigrationPhase
  if ← isFinished then pure (MigrationCommand.new header phase)
  else do
    let tag ← getU8
    if tag ≠ 1 then fail (invalid "unknown migration context presence tag")
    else do
      let migrationId ← getWide
      let sourceEpoch ← getWord 8
      let sourceGeneration ← getWord 8
      let retainedGeneration ← getWord 8
      let targetGeneration ← getWord 8
      let targetBackendClassDigest ← getDigest
      let catalogVersion ← getU64
      let verifiedIndex ← getU64
      let logicalDigest ← getDigest
      lift (MigrationCommand.decodeOnline header migrationId sourceEpoch sourceGeneration
        retainedGeneration targetGeneration targetBackendClassDigest catalogVersion verifiedIndex
        logicalDigest phase)

theorem writes_header (header : CommandHeader) : WritesWord (putHeader header) getHeader header := by
  refine (writes_id header.commandId _).bindWord ?_
  have hepoch : WritesWord (putId header.placementEpoch) (getWord 8) header.placementEpoch.get :=
    writes_put fun s => reads_word header.placementEpoch.inRange s
  have hgeneration :
      WritesWord (putId header.backendGeneration) (getWord 8) header.backendGeneration.get :=
    writes_put fun s => reads_word header.backendGeneration.inRange s
  refine hepoch.bindWord (hgeneration.then ?_)
  rw [Identifier.new_get, Identifier.new_get]

theorem writes_participant (participant : HomeDecisionParticipant) :
    WritesWord (putParticipant participant) getParticipant participant := by
  refine (writes_id participant.shardId _).bindWord ?_
  refine (writes_id participant.placementEpoch _).bindWord ?_
  refine (writes_id participant.backendGeneration _).bindWord ?_
  refine (writes_u64 participant.snapshotAppliedIndex).bindWord ?_
  refine (writes_digest participant.intentDigest).then ?_
  rw [HomeDecisionParticipant.new, dif_neg participant.digest_ne_zero]
  rfl

/-! ## Sizes -/

theorem exists_encode {e : CodecM Unit} {n : ℕ} (h : Emits maxCommandBytes e n)
    (hn : n ≤ maxCommandBytes) : ∃ bytes, Codec.encode e = .ok bytes := by
  obtain ⟨word, hword, hstep⟩ := h [] maxAllocationItems (by simpa using hn)
  refine ⟨word, ?_⟩
  rw [List.nil_append] at hstep
  rw [Codec.encode, hstep]
  exact if_neg (by omega)

theorem emits_bytes {value : List UInt8} (h : value.length < 2 ^ 32) :
    Emits maxCommandBytes (putBytes value) (4 + value.length) := by
  rw [putBytes, if_neg (not_le.mpr h)]
  refine Emits.checked (fun bytes hbytes => hbytes) (Emits.bind (emits_put ?_) (emits_put rfl))
  exact BigEndian.length_encode 4 _

theorem emits_id {kind : IdKind} (id : Identifier kind) :
    Emits maxCommandBytes (putId id) kind.bytes :=
  emits_put (Identifier.length_toBytes id)

theorem emits_word (width value : ℕ) :
    Emits maxCommandBytes (put (BigEndian.encode width value) : CodecM Unit) width :=
  emits_put (BigEndian.length_encode width value)

theorem emits_digest (digest : Digest32) :
    Emits maxCommandBytes (putBytes digest.bytes) 36 := by
  have hlength : digest.bytes.length < 2 ^ 32 := by
    rw [digest.length_bytes]
    decide
  have h := emits_bytes hlength
  rwa [digest.length_bytes] at h

theorem emits_participant (participant : HomeDecisionParticipant) :
    Emits maxCommandBytes (putParticipant participant) 68 :=
  (emits_id participant.shardId).bind ((emits_id participant.placementEpoch).bind
    ((emits_id participant.backendGeneration).bind ((emits_word 8 _).bind
      (emits_digest participant.intentDigest))))

end Codec

open Codec

section Commands

variable [Blake3]

namespace ShardCommand

def putFields : ShardCommand → CodecM Unit
  | .commitSingleShard command => do
    putU8 1
    putHeader command.header
    putMutations command.mutations
  | .commitSingleShardTransaction command => do
    putU8 8
    putHeader command.header
    putId command.transactionId
    putTime command.startTime
    putU64 command.snapshotAppliedIndex
    putBytes command.requestDigest.bytes
    putMutations command.mutations
  | .prewriteIntent command => do
    putU8 2
    putHeader command.header
    putTransaction command.prepared
    putBytes command.intent.encoded
  | .recordHomeDecision command => do
    putU8 3
    putHeader command.header
    putTransaction command.decision
    putTime command.manifest.startTime
    putU64 command.manifest.catalogVersion
    putU32 command.manifest.participants.length
    encodeAll putParticipant command.manifest.participants
  | .finalizeParticipant command => do
    putU8 4
    putHeader command.header
    putTransaction command.terminal
    match command.intent with
    | some intent => do
      putU8 1
      putBytes intent.encoded
    | none => putU8 0
  | .advanceClosedTimestamp command => do
    putU8 5
    putHeader command.header
    putTime command.closedTimestamp
  | .installSnapshot command => do
    putU8 6
    putHeader command.header
    putWide command.snapshotId
    putBytes command.contentDigest.bytes
  | .migration command => do
    putU8 7
    putHeader command.header
    putU8 (migrationPhaseTag command.phase)
    match command.online with
    | some context => putContext context
    | none => pure ()

def encodeCurrent (command : ShardCommand) : Except ShardError (List UInt8) :=
  Codec.encode do
    putU32 supportedShardCommandFormatVersion
    command.putFields

def getHomeDecision (header : CommandHeader) : CodecM RecordHomeDecision := do
  let decision ← getTransaction
  let startTime ← getTime
  let catalogVersion ← getU64
  let count ← getCollectionCount
  let participants ← decodeMany getParticipant count
  let manifest ← lift (HomeDecisionManifest.new startTime catalogVersion participants)
  lift (RecordHomeDecision.new header decision manifest)

/-- Reads the fields after the header.  The inner result is the validation that
waits until the message is known to end. -/
def getFields (tag : UInt8) (header : CommandHeader) :
    CodecM (Except ShardError ShardCommand) := do
  match tag.toNat with
  | 1 => do
    let mutations ← getMutations
    pure (.commitSingleShard <$>
      CommitSingleShard.new "mutation command must not be empty" header mutations)
  | 8 => do
    let transactionId ← getId .transaction zeroIdentifier
    let startTime ← getTime
    let snapshotAppliedIndex ← getU64
    let requestDigest ← getDigest
    let mutations ← getMutations
    if mutations = [] then pure (.error (invalid "mutation command must not be empty"))
    else
      pure (.commitSingleShardTransaction <$> CommitSingleShardTransaction.new header transactionId
        startTime snapshotAppliedIndex requestDigest mutations)
  | 2 => do
    let prepared ← getTransaction
    let bytes ← getBytes
    let intent ← lift (ParticipantIntent.decodeCurrent bytes)
    pure (.prewriteIntent <$> PrewriteIntent.new header prepared intent)
  | 3 => do
    let command ← getHomeDecision header
    pure (.ok (.recordHomeDecision command))
  | 4 => do
    let terminal ← getTransaction
    let present ← getU8
    match present.toNat with
    | 0 => pure (.finalizeParticipant <$> FinalizeParticipant.new header terminal none)
    | 1 => do
      let bytes ← getBytes
      let intent ← lift (ParticipantIntent.decodeCurrent bytes)
      pure (.finalizeParticipant <$> FinalizeParticipant.new header terminal (some intent))
    | _ => fail (invalid "unknown participant intent presence tag")
  | 5 => do
    let closedTimestamp ← getTime
    pure (.ok (.advanceClosedTimestamp ⟨header, closedTimestamp⟩))
  | 6 => do
    let snapshotId ← getWide
    let contentDigest ← getDigest
    let command ← lift (InstallSnapshot.new header snapshotId contentDigest)
    pure (.ok (.installSnapshot command))
  | 7 => do
    let command ← getMigration header
    pure (.ok (.migration command))
  | _ => fail (invalid "unknown command tag")

def getCommand : CodecM (Except ShardError ShardCommand) := do
  let version ← getU32
  if version ≠ supportedShardCommandFormatVersion then
    fail (.unsupportedCommandVersion version)
  else do
    let tag ← getU8
    let header ← getHeader
    getFields tag header

def decode (bytes : List UInt8) : Except ShardError ShardCommand := do
  let command ← Codec.decode getCommand bytes
  command

/-! ## Home decisions are read back -/

variable (command : RecordHomeDecision)

theorem RecordHomeDecision.new_self :
    RecordHomeDecision.new command.header command.decision command.manifest = .ok command := by
  unfold RecordHomeDecision.new
  split
  case h_1 error h =>
    rw [command.valid] at h
    cases h
  case h_2 => rfl

theorem writes_homeDecision :
    WritesFrom maxAllocationItems (do
      putTransaction command.decision
      putTime command.manifest.startTime
      putU64 command.manifest.catalogVersion
      putU32 command.manifest.participants.length
      encodeAll putParticipant command.manifest.participants)
      (getHomeDecision command.header) command := by
  have hlength := command.manifest.bounded
  have hcount : WritesWord (putU32 command.manifest.participants.length) getCount
      command.manifest.participants.length := by
    refine (writes_u32 (lt_of_le_of_lt hlength (by decide))).then (if_neg ?_)
    exact not_lt.mpr (le_trans hlength (by decide))
  refine (writes_transaction command.decision).bindFrom ?_
  refine (writes_time command.manifest.startTime).bindFrom ?_
  refine (writes_u64 command.manifest.catalogVersion).bindFrom ?_
  rw [getCollectionCount, bind_assoc]
  refine hcount.bindFrom ?_
  -- Only the decoder spends here; a manifest is far below the whole budget.
  rw [bind_assoc]
  refine WritesFrom.spending (if_pos (le_trans hlength (by decide))) ?_
  rw [pure_bind]
  refine ((writesWord_encodeAll _ fun participant _ =>
    writes_participant participant).from _).then ?_
  rw [HomeDecisionManifest.new_participants]
  change lift (RecordHomeDecision.new command.header command.decision command.manifest) = _
  rw [RecordHomeDecision.new_self]
  rfl

theorem writes_recordHomeDecision :
    WritesFrom maxAllocationItems (do
      putU32 supportedShardCommandFormatVersion
      (recordHomeDecision command).putFields) getCommand (.ok (.recordHomeDecision command)) := by
  refine (writes_u32 (by decide)).bindFrom ?_
  refine (writes_u8 3).bindFrom ((writes_header command.header).bindFrom ?_)
  exact (writes_homeDecision command).then rfl

theorem decode_encodeCurrent_recordHomeDecision {command : RecordHomeDecision}
    {bytes : List UInt8} (h : (recordHomeDecision command).encodeCurrent = .ok bytes) :
    decode bytes = .ok (.recordHomeDecision command) := by
  have hdecode : Codec.decode getCommand bytes = .ok (.ok (.recordHomeDecision command)) :=
    decode_encode (writes_recordHomeDecision command) h
  rw [decode, hdecode]
  rfl

/-- A home decision always fits into a message. -/
theorem exists_encodeCurrent_recordHomeDecision :
    ∃ bytes, (recordHomeDecision command).encodeCurrent = .ok bytes := by
  have htransaction : Emits maxCommandBytes (putTransaction command.decision) 61 :=
    (emits_id _).bind ((emits_put rfl).bind ((emits_word 8 _).bind ((emits_word 4 _).bind
      (emits_put command.decision.recordDigest.length_bytes))))
  have hheader : Emits maxCommandBytes (putHeader command.header) 32 :=
    (emits_id _).bind ((emits_id _).bind (emits_id _))
  have hbyte : Emits maxCommandBytes (putU8 3) 1 := emits_put rfl
  have hmessage : Emits maxCommandBytes (do
      putU32 supportedShardCommandFormatVersion
      (recordHomeDecision command).putFields)
      (4 + (1 + (32 + (61 + (8 + (8 + (4 + command.manifest.participants.length * 68))))))) :=
    (emits_word 4 _).bind (hbyte.bind (hheader.bind (htransaction.bind ((emits_word 8 _).bind
      ((emits_word 8 _).bind ((emits_word 4 _).bind (emits_encodeAll emits_participant _)))))))
  have hbounded := command.manifest.bounded
  refine exists_encode hmessage ?_
  simp only [maxTransactionIntentItems, maxCommandBytes] at hbounded ⊢
  omega

end ShardCommand

end Commands

end DtgProxy.Shard

import DtgProxy.Shard.Codec

/-! # Migration commands

A migration moves a shard to a store of the next backend generation.  The
commands of an online migration carry their full context; the phases before the
cutover are fenced by the source placement, the later ones by the target's.
-/
namespace DtgProxy.Shard

open Kernel Lib Storage

/-- The identity of a command and the placement it was issued under. -/
@[ext] structure CommandHeader where
  commandId : CommandId
  placementEpoch : PlacementEpoch
  backendGeneration : BackendGeneration
deriving DecidableEq, Repr

inductive MigrationPhase where
  | prepare
  | activate
  | grace
  | retire
  | complete
  | abort
  | rollback
deriving DecidableEq, Repr

structure OnlineMigrationContext where
  migrationId : BitVec 128
  sourceEpoch : PlacementEpoch
  sourceGeneration : BackendGeneration
  retainedGeneration : BackendGeneration
  targetGeneration : BackendGeneration
  targetBackendClassDigest : Digest32
  catalogVersion : UInt64
  verifiedIndex : UInt64
  logicalDigest : Digest32
deriving DecidableEq, Repr

def MigrationPhase.usesTargetFence : MigrationPhase → Bool
  | .prepare | .abort => false
  | _ => true

/-- The epoch and generation the commands of a consistent context carry. -/
def OnlineMigrationContext.fence (context : OnlineMigrationContext) (phase : MigrationPhase) :
    Except ShardError (PlacementEpoch × BackendGeneration) :=
  match Identifier.new (context.sourceEpoch.get + 1) with
  | none => .error (invalid "migration placement epoch overflow")
  | some nextEpoch =>
    match Identifier.new (context.sourceGeneration.get + 1) with
    | none => .error (invalid "migration backend generation overflow")
    | some expectedGeneration =>
      if context.migrationId = 0 ∨ context.targetGeneration ≠ expectedGeneration ∨
          context.targetBackendClassDigest = Digest32.zero ∨ context.verifiedIndex = 0 ∨
          context.logicalDigest = Digest32.zero ∨
          (phase = .rollback ∧ context.sourceGeneration ≤ context.retainedGeneration) ∨
          (phase ≠ .rollback ∧ context.retainedGeneration ≠ context.sourceGeneration) then
        .error (invalid "online migration context is inconsistent")
      else if phase.usesTargetFence then .ok (nextEpoch, context.targetGeneration)
      else .ok (context.sourceEpoch, context.sourceGeneration)

structure MigrationCommand where
  header : CommandHeader
  phase : MigrationPhase
  online : Option OnlineMigrationContext
  fenced : ∀ context ∈ online,
    context.fence phase = .ok (header.placementEpoch, header.backendGeneration)
deriving DecidableEq

namespace MigrationCommand

/-- A command without a context. -/
def new (header : CommandHeader) (phase : MigrationPhase) : MigrationCommand :=
  ⟨header, phase, none, by simp⟩

/-- A command of an online migration, over the words of its context. -/
def ofContext (commandId : CommandId) (migrationId : BitVec 128)
    (sourceEpoch sourceGeneration retainedGeneration targetGeneration : ℕ)
    (targetBackendClassDigest : Digest32) (catalogVersion verifiedIndex : UInt64)
    (logicalDigest : Digest32) (phase : MigrationPhase) : Except ShardError MigrationCommand :=
  match Identifier.new sourceEpoch with
  | none => .error (invalid "migration source epoch must be nonzero")
  | some sourceEpoch =>
    match Identifier.new sourceGeneration with
    | none => .error (invalid "migration source generation must be nonzero")
    | some sourceGeneration =>
      match Identifier.new retainedGeneration with
      | none => .error (invalid "migration retained generation must be nonzero")
      | some retainedGeneration =>
        match Identifier.new targetGeneration with
        | none => .error (invalid "migration target generation must be nonzero")
        | some targetGeneration =>
          let context : OnlineMigrationContext := ⟨migrationId, sourceEpoch, sourceGeneration,
            retainedGeneration, targetGeneration, targetBackendClassDigest, catalogVersion,
            verifiedIndex, logicalDigest⟩
          match h : context.fence phase with
          | .error error => .error error
          | .ok (epoch, generation) =>
            .ok ⟨⟨commandId, epoch, generation⟩, phase, some context, by
              intro found hfound
              cases hfound
              exact h⟩

/-- The command takes a shard at this epoch and generation to its target. -/
def cutsOverFrom (command : MigrationCommand) (epoch : PlacementEpoch)
    (generation : BackendGeneration) : Bool :=
  (command.phase = .activate || command.phase = .rollback) &&
    command.online.any fun context =>
      context.sourceEpoch = epoch && context.sourceGeneration = generation &&
        command.header.placementEpoch.get =
          (if epoch.get + 1 < 2 ^ 64 then epoch.get + 1 else 0) &&
        command.header.backendGeneration = context.targetGeneration

def decodeOnline (header : CommandHeader) (migrationId : BitVec 128)
    (sourceEpoch sourceGeneration retainedGeneration targetGeneration : ℕ)
    (targetBackendClassDigest : Digest32) (catalogVersion verifiedIndex : UInt64)
    (logicalDigest : Digest32) (phase : MigrationPhase) : Except ShardError MigrationCommand := do
  let command ← ofContext header.commandId migrationId sourceEpoch sourceGeneration
    retainedGeneration targetGeneration targetBackendClassDigest catalogVersion verifiedIndex
    logicalDigest phase
  if command.header ≠ header then
    .error (invalid "migration command header contradicts its context")
  else .ok command

end MigrationCommand

end DtgProxy.Shard

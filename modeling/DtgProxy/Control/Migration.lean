import DtgProxy.Control.Catalog

/-! # Generational backend migration

A migration moves one shard from a backend generation to the next.  Its record is
a state machine: target namespaces are claimed, a snapshot is copied, new writes
are mirrored and receipted by every voter, the next epoch and generation are
activated and published, and after a grace period with reverse mirroring the
source namespaces are cleaned up.  A rollback re-activates the retained source
storage as a further generation.  A refused call changes nothing.
-/
namespace DtgProxy.Control

open Kernel Lib Storage

@[ext] structure MigrationId where
  get : ℕ
  nonzero : get ≠ 0
  inRange : get < 2 ^ 128

instance : DecidableEq MigrationId := fun _ _ => decidable_of_iff _ MigrationId.ext_iff.symm

/-- The checked constructor.  A value beyond 128 bits cannot be passed in the
source. -/
def MigrationId.new (value : ℕ) : Except ControlError MigrationId :=
  if h : value ≠ 0 ∧ value < 2 ^ 128 then .ok ⟨value, h.1, h.2⟩
  else .error (.invalidMigration "migration identifier is zero")

inductive MigrationState where
  | allocating
  | backfilling (snapshotIndex : UInt64)
  | mirroring (snapshotIndex : UInt64)
  | prepared (verifiedIndex : UInt64) (digest : Digest32)
  | activating (nextEpoch : PlacementEpoch)
  | grace (activatedEpoch : PlacementEpoch) (activatedAt : UInt64)
  | completed
  | aborted
deriving DecidableEq

inductive MigrationReceiptKind where
  | verified
  | forwardMirrored
  | reverseMirrored
  | cleanup
deriving DecidableEq

instance : LinearOrder MigrationReceiptKind :=
  LinearOrder.lift' MigrationReceiptKind.ctorIdx (fun a b h => by cases a <;> cases b <;> trivial)

/-- What a receipt says about the migration it belongs to. -/
structure ReceiptContext where
  migrationId : MigrationId
  replicaId : ReplicaId
  catalogVersion : UInt64
  sourceGeneration : BackendGeneration
  targetGeneration : BackendGeneration
  targetBackendClassDigest : Digest32
deriving DecidableEq

structure MigrationReceipt extends ReceiptContext where
  kind : MigrationReceiptKind
  appliedIndex : UInt64
  logicalDigest : Digest32
  ownerIdentity : Option Digest32
  pinsReleased : Bool
deriving DecidableEq

namespace MigrationReceipt

def proof (kind : MigrationReceiptKind) (context : ReceiptContext) (appliedIndex : UInt64)
    (logicalDigest : Digest32) : Except ControlError MigrationReceipt :=
  if appliedIndex = 0 ∨ context.targetBackendClassDigest = Digest32.zero ∨
      logicalDigest = Digest32.zero then
    .error .invalidMigrationReceipt
  else .ok { context with
    kind := kind
    appliedIndex := appliedIndex
    logicalDigest := logicalDigest
    ownerIdentity := none
    pinsReleased := false }

def dualApply (kind : MigrationReceiptKind) (context : ReceiptContext) (leftAppliedIndex : UInt64)
    (leftDigest : Digest32) (rightAppliedIndex : UInt64) (rightDigest : Digest32) :
    Except ControlError MigrationReceipt :=
  if leftAppliedIndex ≠ rightAppliedIndex ∨ leftDigest ≠ rightDigest then
    .error .migrationDigestMismatch
  else proof kind context leftAppliedIndex leftDigest

def verified : ReceiptContext → UInt64 → Digest32 → Except ControlError MigrationReceipt :=
  proof .verified

def mirrored : ReceiptContext → UInt64 → Digest32 → UInt64 → Digest32 →
    Except ControlError MigrationReceipt :=
  dualApply .forwardMirrored

def reverseMirrored : ReceiptContext → UInt64 → Digest32 → UInt64 → Digest32 →
    Except ControlError MigrationReceipt :=
  dualApply .reverseMirrored

def cleanup (context : ReceiptContext) (appliedIndex : UInt64) (logicalDigest : Digest32)
    (ownerIdentity : Digest32) : MigrationReceipt :=
  { context with
    kind := .cleanup
    appliedIndex := appliedIndex
    logicalDigest := logicalDigest
    ownerIdentity := some ownerIdentity
    pinsReleased := true }

/-- The receipts a voter can hold: those the public constructors return. -/
inductive Reported : MigrationReceipt → Prop
  | verified {context : ReceiptContext} {index : UInt64} {digest : Digest32}
      {receipt : MigrationReceipt} (h : verified context index digest = .ok receipt) :
      Reported receipt
  | mirrored {context : ReceiptContext} {left right : UInt64} {leftDigest rightDigest : Digest32}
      {receipt : MigrationReceipt}
      (h : mirrored context left leftDigest right rightDigest = .ok receipt) : Reported receipt
  | reverseMirrored {context : ReceiptContext} {left right : UInt64}
      {leftDigest rightDigest : Digest32} {receipt : MigrationReceipt}
      (h : reverseMirrored context left leftDigest right rightDigest = .ok receipt) :
      Reported receipt

/-- Two mirrored sides at one index and digest are receipted. -/
theorem dualApply_self (kind : MigrationReceiptKind) (context : ReceiptContext) (index : UInt64)
    (digest : Digest32) :
    dualApply kind context index digest index digest = proof kind context index digest :=
  if_neg (by simp)

variable {receipt : MigrationReceipt}

theorem proof_eq_ok {kind : MigrationReceiptKind} {context : ReceiptContext} {index : UInt64}
    {digest : Digest32} (h : proof kind context index digest = .ok receipt) :
    receipt.appliedIndex ≠ 0 ∧ receipt.targetBackendClassDigest ≠ Digest32.zero ∧
      receipt.logicalDigest ≠ Digest32.zero := by
  unfold proof at h
  split_ifs at h with hzero
  cases h
  rwa [not_or, not_or] at hzero

/-- A reported receipt has a nonzero index, class digest and logical digest. -/
theorem Reported.ne_zero (h : receipt.Reported) :
    receipt.appliedIndex ≠ 0 ∧ receipt.targetBackendClassDigest ≠ Digest32.zero ∧
      receipt.logicalDigest ≠ Digest32.zero := by
  have hdual : ∀ {kind context left leftDigest right rightDigest},
      dualApply kind context left leftDigest right rightDigest = .ok receipt →
        receipt.appliedIndex ≠ 0 ∧ receipt.targetBackendClassDigest ≠ Digest32.zero ∧
          receipt.logicalDigest ≠ Digest32.zero := by
    intro kind context left leftDigest right rightDigest hok
    unfold dualApply at hok
    split_ifs at hok
    exact proof_eq_ok hok
  cases h with
  | verified h => exact proof_eq_ok h
  | mirrored h | reverseMirrored h => exact hdual h

end MigrationReceipt

inductive MigrationActionKind where
  | allocate
  | backfill
  | mirrorForward
  | prepare
  | commitCutover
  | publishActivation
  | mirrorReverse
  | cleanup
  | rollback
  | abort
deriving DecidableEq

structure MigrationAction where
  kind : MigrationActionKind
  migrationId : MigrationId
  graphId : GraphId
  shardId : ShardId
  sourceGeneration : BackendGeneration
  sourceBackendClass : Option BackendClass
  targetGeneration : BackendGeneration
  targetBackendClass : BackendClass
  catalogVersion : UInt64
  generation : BackendGeneration
  replicaId : Option ReplicaId
  snapshotIndex : Option UInt64
  nextEpoch : Option PlacementEpoch
  ownerIdentity : Option Digest32
  retainedOwnerIdentity : Option Digest32
deriving DecidableEq

abbrev ReceiptKey := MigrationReceiptKind ×ₗ ReplicaId

instance : Std.TransOrd ReceiptKey := inferInstance

def receiptKey (kind : MigrationReceiptKind) (replicaId : ReplicaId) : ReceiptKey :=
  toLex (kind, replicaId)

@[simp] theorem receiptKey_inj {kind kind' : MigrationReceiptKind} {replica replica' : ReplicaId} :
    receiptKey kind replica = receiptKey kind' replica' ↔ kind = kind' ∧ replica = replica' := by
  simp [receiptKey]

/-- The durable record of a migration.  The voters stand in their order, without
repetition. -/
@[ext] structure MigrationRecord where
  id : MigrationId
  graphId : GraphId
  shardId : ShardId
  catalogVersion : UInt64
  sourceEpoch : PlacementEpoch
  sourceGeneration : BackendGeneration
  sourceBackendClass : Option BackendClass
  targetGeneration : BackendGeneration
  targetBackendClass : BackendClass
  expectedVoters : List ReplicaId
  receipts : OrderedMap ReceiptKey MigrationReceipt
  sourceOwners : OrderedMap ReplicaId Digest32
  targetOwners : OrderedMap ReplicaId Digest32
  state : MigrationState
  activeEpoch : PlacementEpoch
  activeGeneration : BackendGeneration
  next_generation : targetGeneration.get = sourceGeneration.get + 1
  voters_ne_nil : expectedVoters ≠ []

/-- The successor of a `u64`, or zero when there is none. -/
def checkedSucc (value : ℕ) : ℕ := if value + 1 < 2 ^ 64 then value + 1 else 0

/-- No identifier is zero, so one that equals a checked successor is the successor. -/
theorem get_eq_succ {kind : IdKind} {id : Identifier kind} {value : ℕ}
    (h : id.get = checkedSucc value) : id.get = value + 1 := by
  unfold checkedSucc at h
  split_ifs at h
  · exact h
  · exact absurd h id.nonzero

namespace MigrationRecord

def newInner (id : MigrationId) (graphId : GraphId) (shardId : ShardId) (catalogVersion : UInt64)
    (sourceEpoch : PlacementEpoch) (sourceGeneration : BackendGeneration)
    (sourceBackendClass : Option BackendClass) (targetGeneration : BackendGeneration)
    (targetBackendClass : BackendClass) (expectedVoters : List ReplicaId) :
    Except ControlError MigrationRecord :=
  if sourceGeneration.get + 1 < 2 ^ 64 then
    let voters := expectedVoters.dedup.insertionSort (· ≤ ·)
    if h : targetGeneration.get = sourceGeneration.get + 1 ∧ voters ≠ [] ∧
        voters.length = expectedVoters.length then
      .ok {
        id := id
        graphId := graphId
        shardId := shardId
        catalogVersion := catalogVersion
        sourceEpoch := sourceEpoch
        sourceGeneration := sourceGeneration
        sourceBackendClass := sourceBackendClass
        targetGeneration := targetGeneration
        targetBackendClass := targetBackendClass
        expectedVoters := voters
        receipts := ∅
        sourceOwners := ∅
        targetOwners := ∅
        state := .allocating
        activeEpoch := sourceEpoch
        activeGeneration := sourceGeneration
        next_generation := h.1
        voters_ne_nil := h.2.1 }
    else .error (.invalidMigration "migration requires the next generation and unique voters")
  else .error (.invalidMigration "backend generation overflow")

def new (id : MigrationId) (graphId : GraphId) (shardId : ShardId) (catalogVersion : UInt64)
    (sourceEpoch : PlacementEpoch) (sourceGeneration targetGeneration : BackendGeneration)
    (targetBackendClass : BackendClass) (expectedVoters : List ReplicaId) :
    Except ControlError MigrationRecord :=
  newInner id graphId shardId catalogVersion sourceEpoch sourceGeneration none targetGeneration
    targetBackendClass expectedVoters

variable [Blake3]

def newDirection (id : MigrationId) (graphId : GraphId) (shardId : ShardId)
    (catalogVersion : UInt64) (sourceEpoch : PlacementEpoch) (sourceGeneration : BackendGeneration)
    (sourceBackendClass : BackendClass) (targetGeneration : BackendGeneration)
    (targetBackendClass : BackendClass) (expectedVoters : List ReplicaId) :
    Except ControlError MigrationRecord :=
  if sourceBackendClass.digest = targetBackendClass.digest then
    .error (.invalidMigration "source and target backend classes are identical")
  else
    newInner id graphId shardId catalogVersion sourceEpoch sourceGeneration
      (some sourceBackendClass) targetGeneration targetBackendClass expectedVoters

def accepts (record : MigrationRecord) (epoch : PlacementEpoch) (generation : BackendGeneration) :
    Bool :=
  decide (epoch = record.activeEpoch ∧ generation = record.activeGeneration)

def action (record : MigrationRecord) (kind : MigrationActionKind) (generation : BackendGeneration)
    (replicaId : Option ReplicaId) (snapshotIndex : Option UInt64)
    (nextEpoch : Option PlacementEpoch) (ownerIdentity retainedOwnerIdentity : Option Digest32) :
    MigrationAction where
  kind := kind
  migrationId := record.id
  graphId := record.graphId
  shardId := record.shardId
  sourceGeneration := record.sourceGeneration
  sourceBackendClass := record.sourceBackendClass
  targetGeneration := record.targetGeneration
  targetBackendClass := record.targetBackendClass
  catalogVersion := record.catalogVersion
  generation := generation
  replicaId := replicaId
  snapshotIndex := snapshotIndex
  nextEpoch := nextEpoch
  ownerIdentity := ownerIdentity
  retainedOwnerIdentity := retainedOwnerIdentity

def requireCatalog (record : MigrationRecord) (actual : UInt64) : Except ControlError Unit :=
  if actual = record.catalogVersion then .ok ()
  else .error (.staleCatalog record.catalogVersion actual)

/-- What the record expects a receipt of a replica to say. -/
def receiptContext (record : MigrationRecord) (replicaId : ReplicaId) : ReceiptContext where
  migrationId := record.id
  replicaId := replicaId
  catalogVersion := record.catalogVersion
  sourceGeneration := record.sourceGeneration
  targetGeneration := record.targetGeneration
  targetBackendClassDigest := record.targetBackendClass.digest

def validateReceipt (record : MigrationRecord) (receipt : MigrationReceipt) :
    Except ControlError Unit := do
  record.requireCatalog receipt.catalogVersion
  if receipt.migrationId ≠ record.id ∨ receipt.sourceGeneration ≠ record.sourceGeneration ∨
      receipt.targetGeneration ≠ record.targetGeneration ∨
      receipt.targetBackendClassDigest ≠ record.targetBackendClass.digest ∨
      receipt.replicaId ∉ record.expectedVoters then
    .error .invalidMigrationReceipt

def insertReceipt (record : MigrationRecord) (receipt : MigrationReceipt) :
    Except ControlError MigrationRecord := do
  record.validateReceipt receipt
  let key := receiptKey receipt.kind receipt.replicaId
  match record.receipts[key]? with
  | some existing =>
    if existing = receipt then .ok record else .error .migrationReceiptConflict
  | none => .ok { record with receipts := record.receipts.insert key receipt }

/-- One round of the loop of `equal_voter_proof`. -/
def proveVoter (record : MigrationRecord) (preferred fallback : MigrationReceiptKind)
    (proof : Option (UInt64 × Digest32)) (voter : ReplicaId) :
    Except ControlError (Option (UInt64 × Digest32)) :=
  match record.receipts[receiptKey preferred voter]? <|>
      record.receipts[receiptKey fallback voter]? with
  | none => .error .incompleteMigrationReceipts
  | some receipt =>
    match proof with
    | none => .ok (some (receipt.appliedIndex, receipt.logicalDigest))
    | some (index, digest) =>
      if index = receipt.appliedIndex ∧ digest = receipt.logicalDigest then .ok proof
      else .error .migrationDigestMismatch

def equalVoterProof (record : MigrationRecord) (preferred fallback : MigrationReceiptKind) :
    Except ControlError (UInt64 × Digest32) := do
  match ← record.expectedVoters.foldlM (record.proveVoter preferred fallback) none with
  | some proof => .ok proof
  | none => .error .incompleteMigrationReceipts

def claimTargetNamespace (record : MigrationRecord) (replicaId : ReplicaId)
    (sourceOwnerIdentity targetOwnerIdentity : Digest32)
    (observedTargetOwner : Option Digest32) :
    Except ControlError (MigrationRecord × MigrationAction) :=
  if record.state ≠ .allocating ∨ replicaId ∉ record.expectedVoters ∨
      sourceOwnerIdentity = Digest32.zero ∨ targetOwnerIdentity = Digest32.zero then
    .error .illegalMigrationTransition
  else if observedTargetOwner.any (· ≠ targetOwnerIdentity) then
    .error .migrationNamespaceCollision
  else if record.sourceOwners[replicaId]?.any (· ≠ sourceOwnerIdentity) ∨
      record.targetOwners[replicaId]?.any (· ≠ targetOwnerIdentity) then
    .error .migrationNamespaceCollision
  else
    .ok ({ record with
        sourceOwners := record.sourceOwners.insert replicaId sourceOwnerIdentity
        targetOwners := record.targetOwners.insert replicaId targetOwnerIdentity },
      record.action .allocate record.targetGeneration (some replicaId) none none
        (some targetOwnerIdentity) none)

def beginBackfill (record : MigrationRecord) (snapshotIndex : UInt64) :
    Except ControlError (MigrationRecord × MigrationAction) :=
  let action := record.action .backfill record.targetGeneration none (some snapshotIndex) none
    none none
  if snapshotIndex = 0 then .error .illegalMigrationTransition
  else match record.state with
    | .allocating => .ok ({ record with state := .backfilling snapshotIndex }, action)
    | .backfilling existing =>
      if existing = snapshotIndex then .ok (record, action)
      else .error .illegalMigrationTransition
    | _ => .error .illegalMigrationTransition

def beginMirroring (record : MigrationRecord) :
    Except ControlError (MigrationRecord × MigrationAction) :=
  match record.state with
  | .backfilling snapshotIndex | .mirroring snapshotIndex =>
    .ok ({ record with state := .mirroring snapshotIndex },
      record.action .mirrorForward record.targetGeneration none (some snapshotIndex) none none
        none)
  | _ => .error .illegalMigrationTransition

def recordReceipt (record : MigrationRecord) (receipt : MigrationReceipt) :
    Except ControlError MigrationRecord :=
  match record.state with
  | .mirroring snapshotIndex =>
    if ¬ (receipt.kind = .verified ∨ receipt.kind = .forwardMirrored) ∨
        receipt.appliedIndex < snapshotIndex then
      .error .invalidMigrationReceipt
    else record.insertReceipt receipt
  | _ => .error .illegalMigrationTransition

/-- The index and digest a record is prepared with. -/
def preparedProof (record : MigrationRecord) : Except ControlError (UInt64 × Digest32) :=
  match record.state with
  | .prepared verifiedIndex digest => .ok (verifiedIndex, digest)
  | .mirroring _ => record.equalVoterProof .forwardMirrored .forwardMirrored
  | _ => .error .illegalMigrationTransition

def prepare (record : MigrationRecord) :
    Except ControlError (MigrationRecord × MigrationAction) := do
  let (verifiedIndex, digest) ← record.preparedProof
  .ok ({ record with state := .prepared verifiedIndex digest },
    record.action .prepare record.targetGeneration none (some verifiedIndex) none none none)

def activate (record : MigrationRecord) (nextEpoch : PlacementEpoch) :
    Except ControlError (MigrationRecord × MigrationAction) :=
  let action := record.action .commitCutover record.targetGeneration none none (some nextEpoch)
    none none
  match record.state with
  | .prepared _ _ =>
    if nextEpoch.get = checkedSucc record.sourceEpoch.get then
      .ok ({ record with
        state := .activating nextEpoch
        activeEpoch := nextEpoch
        activeGeneration := record.targetGeneration }, action)
    else .error .illegalMigrationTransition
  | .activating existing =>
    if existing = nextEpoch ∧ record.activeGeneration = record.targetGeneration then
      .ok (record, action)
    else .error .illegalMigrationTransition
  | _ => .error .illegalMigrationTransition

def publishActivation (record : MigrationRecord) (activatedAt : UInt64) :
    Except ControlError (MigrationRecord × MigrationAction) :=
  let publish (epoch : PlacementEpoch) : MigrationRecord × MigrationAction :=
    ({ record with state := .grace epoch activatedAt },
      record.action .publishActivation record.activeGeneration none none (some epoch) none none)
  if activatedAt = 0 then .error (.invalidMigration "activation timestamp is zero")
  else match record.state with
    | .activating nextEpoch => .ok (publish nextEpoch)
    | .grace activatedEpoch existing =>
      if existing = activatedAt then .ok (publish activatedEpoch)
      else .error .illegalMigrationTransition
    | _ => .error .illegalMigrationTransition

def inGrace (record : MigrationRecord) : Bool :=
  match record.state with
  | .grace _ _ => true
  | _ => false

def recordReverseReceipt (record : MigrationRecord) (receipt : MigrationReceipt) :
    Except ControlError (MigrationRecord × MigrationAction) :=
  if !record.inGrace ∨ receipt.kind ≠ .reverseMirrored then .error .illegalMigrationTransition
  else do
    let record ← record.insertReceipt receipt
    .ok (record, record.action .mirrorReverse record.sourceGeneration (some receipt.replicaId)
      (some receipt.appliedIndex) none record.sourceOwners[receipt.replicaId]? none)

def abort (record : MigrationRecord) (expectedCatalogVersion : UInt64) :
    Except ControlError (MigrationRecord × MigrationAction) := do
  record.requireCatalog expectedCatalogVersion
  match record.state with
  | .allocating | .backfilling _ | .mirroring _ | .prepared _ _ | .aborted =>
    .ok ({ record with state := .aborted },
      record.action .abort record.sourceGeneration none none none none none)
  | _ => .error .illegalMigrationTransition

/-- The call that already led to the current state is repeated. -/
def isRollbackRetry (record : MigrationRecord) (nextEpoch : PlacementEpoch)
    (generation : BackendGeneration) : Bool :=
  decide (record.state = .activating nextEpoch ∧ record.activeEpoch = nextEpoch ∧
    record.activeGeneration = generation)

def rollback (record : MigrationRecord) (nextEpoch : PlacementEpoch)
    (generation : BackendGeneration) : Except ControlError (MigrationRecord × MigrationAction) :=
  if !record.isRollbackRetry nextEpoch generation ∧
      (!record.inGrace ∨ nextEpoch.get ≠ checkedSucc record.activeEpoch.get ∨
        generation.get ≠ checkedSucc record.activeGeneration.get) then
    .error .illegalMigrationTransition
  else
    .ok ({ record with
        state := .activating nextEpoch
        activeEpoch := nextEpoch
        activeGeneration := generation },
      record.action .rollback generation none none (some nextEpoch) none
        (record.sourceOwners.toList.head?.map Prod.snd))

def isCleaned (record : MigrationRecord) : Bool :=
  record.expectedVoters.all fun voter => record.receipts.contains (receiptKey .cleanup voter)

def cleanup (record : MigrationRecord) (replicaId : ReplicaId) (ownerIdentity : Digest32)
    (pinsReleased : Bool) : Except ControlError (MigrationRecord × MigrationAction) :=
  if ¬ (record.inGrace ∨ record.state = .completed) ∨ !pinsReleased ∨
      record.sourceOwners[replicaId]? ≠ some ownerIdentity then
    .error .migrationCleanupFenced
  else match record.equalVoterProof .reverseMirrored .reverseMirrored with
    | .error _ => .error .migrationCleanupFenced
    | .ok (appliedIndex, digest) => do
      let receipt := MigrationReceipt.cleanup (record.receiptContext replicaId) appliedIndex digest
        ownerIdentity
      let record ← record.insertReceipt receipt
      .ok ({ record with state := if record.isCleaned then .completed else record.state },
        record.action .cleanup record.sourceGeneration (some replicaId) (some appliedIndex) none
          (some ownerIdentity) none)

/-- The calls of a record.  A receipt is one a voter could build. -/
inductive Call where
  | claimTargetNamespace (replicaId : ReplicaId)
      (sourceOwnerIdentity targetOwnerIdentity : Digest32) (observedTargetOwner : Option Digest32)
  | beginBackfill (snapshotIndex : UInt64)
  | beginMirroring
  | recordReceipt (receipt : MigrationReceipt) (reported : receipt.Reported)
  | prepare
  | activate (nextEpoch : PlacementEpoch)
  | publishActivation (activatedAt : UInt64)
  | recordReverseReceipt (receipt : MigrationReceipt) (reported : receipt.Reported)
  | abort (expectedCatalogVersion : UInt64)
  | rollback (nextEpoch : PlacementEpoch) (generation : BackendGeneration)
  | cleanup (replicaId : ReplicaId) (ownerIdentity : Digest32) (pinsReleased : Bool)

/-- The record after a call and the action it issues, if it issues one. -/
def call (record : MigrationRecord) :
    Call → Except ControlError (MigrationRecord × Option MigrationAction)
  | .claimTargetNamespace replicaId source target observed =>
    (record.claimTargetNamespace replicaId source target observed).map fun r => (r.1, some r.2)
  | .beginBackfill index => (record.beginBackfill index).map fun r => (r.1, some r.2)
  | .beginMirroring => record.beginMirroring.map fun r => (r.1, some r.2)
  | .recordReceipt receipt _ => (record.recordReceipt receipt).map fun r => (r, none)
  | .prepare => record.prepare.map fun r => (r.1, some r.2)
  | .activate epoch => (record.activate epoch).map fun r => (r.1, some r.2)
  | .publishActivation activatedAt =>
    (record.publishActivation activatedAt).map fun r => (r.1, some r.2)
  | .recordReverseReceipt receipt _ =>
    (record.recordReverseReceipt receipt).map fun r => (r.1, some r.2)
  | .abort version => (record.abort version).map fun r => (r.1, some r.2)
  | .rollback epoch generation => (record.rollback epoch generation).map fun r => (r.1, some r.2)
  | .cleanup replicaId owner pinsReleased =>
    (record.cleanup replicaId owner pinsReleased).map fun r => (r.1, some r.2)

/-- A call of any outcome: a refused one leaves the record as it is. -/
def step (record : MigrationRecord) (c : Call) : MigrationRecord × Option MigrationAction :=
  match record.call c with
  | .ok result => result
  | .error _ => (record, none)

/-- The record after a sequence of calls. -/
def after (record : MigrationRecord) (calls : List Call) : MigrationRecord :=
  calls.foldl (fun record c => (record.step c).1) record

end MigrationRecord

end DtgProxy.Control

import DtgProxy.Storage.BackendClass

/-! # The placement catalog

The catalog maps each shard to its placement, records which backend class every
generation of the shard ever had, and keeps retention pins that forbid dropping
a generation.  A command names the version it expects; an accepted command
advances the version by one and a refused one changes nothing.
-/
namespace DtgProxy.Control

open Kernel Lib Storage

/-- The control errors the modelled operations return. -/
inductive ControlError where
  | plaintextCredential
  | bindingBackendClassMismatch
  | invalidPlacement (reason : String)
  | mixedBackendClass
  | staleCatalog (expected actual : UInt64)
  | catalogRevisionRegression (current received : UInt64)
  | catalogRevisionConflict (revision : UInt64)
  | catalogEpochRegression (graphId : GraphId) (shardId : ShardId)
      (current received : PlacementEpoch)
  | invalidAction (reason : String)
  | unknownAction
  | staleActionLease
  | lineageConflict
  | retentionPinned
  | unknownGeneration
  | versionOverflow
  | invalidMigration (reason : String)
  | illegalMigrationTransition
  | invalidMigrationReceipt
  | incompleteMigrationReceipts
  | migrationReceiptConflict
  | migrationDigestMismatch
  | migrationNamespaceCollision
  | migrationCleanupFenced
deriving DecidableEq, Repr

def ControlError.message : ControlError → String
  | .plaintextCredential => "catalog credentials must be external references"
  | .bindingBackendClassMismatch => "replica binding does not match its backend class"
  | .invalidPlacement reason => "invalid shard placement: " ++ reason
  | .mixedBackendClass => "one shard generation cannot mix backend classes"
  | .staleCatalog expected actual =>
    "stale catalog command: expected version " ++ toString expected ++ ", actual version " ++
      toString actual
  | .catalogRevisionRegression current received =>
    "catalog revision regressed from " ++ toString current ++ " to " ++ toString received
  | .catalogRevisionConflict revision =>
    "catalog revision " ++ toString revision ++ " has conflicting snapshot contents"
  | .catalogEpochRegression graphId shardId current received =>
    "catalog placement epoch regressed for graph " ++ toString graphId.get ++ " shard " ++
      toString shardId.get ++ " from " ++ toString current.get ++ " to " ++ toString received.get
  | .invalidAction reason => "invalid control action: " ++ reason
  | .unknownAction => "control action does not exist"
  | .staleActionLease => "control action lease is stale"
  | .lineageConflict => "a backend generation cannot be reassigned to a different backend class"
  | .retentionPinned => "retention pins prevent removing the backend generation"
  | .unknownGeneration => "retention pin references an unknown backend generation"
  | .versionOverflow => "catalog version overflow"
  | .invalidMigration reason => "invalid migration: " ++ reason
  | .illegalMigrationTransition => "illegal migration state transition"
  | .invalidMigrationReceipt => "migration receipt does not match the migration"
  | .incompleteMigrationReceipts => "not all migration voters have acknowledged"
  | .migrationReceiptConflict => "migration receipt conflicts with a durable receipt"
  | .migrationDigestMismatch => "migration voters disagree on index or logical digest"
  | .migrationNamespaceCollision => "migration target namespace belongs to another owner"
  | .migrationCleanupFenced =>
    "migration cleanup requires exact owner identity and released retention pins"

/-- A credential is named as `scheme://target`, never written out. -/
def isExternalReference (value : String) : Bool :=
  match Text.splitOnce [':', '/', '/'] value.toList with
  | none => false
  | some (scheme, target) =>
    !scheme.isEmpty && !target.isEmpty &&
      scheme.all (fun c => Text.isLowerAscii c || Text.isDigitAscii c || c == '+' || c == '-' ||
        c == '.') &&
      !target.any Text.isWhitespace

/-- A retention pin: a bounded text without whitespace. -/
@[ext] structure RetentionPin where
  text : String
  valid : isBoundedName text = true
deriving DecidableEq

def RetentionPin.new (value : String) : Except ControlError RetentionPin :=
  if h : isBoundedName value = true then .ok ⟨value, h⟩
  else .error (.invalidPlacement "invalid retention pin")

theorem RetentionPin.new_text (pin : RetentionPin) : new pin.text = .ok pin :=
  dif_pos pin.valid

abbrev ShardKey := GraphId ×ₗ ShardId
abbrev GenerationKey := GraphId ×ₗ ShardId ×ₗ BackendGeneration

instance : Std.TransOrd ShardKey := inferInstance
instance : Std.TransOrd GenerationKey := inferInstance

/-- A generation a shard had, with the class it was created under. -/
structure LineageEntry where
  generation : BackendGeneration
  backendClassDigest : Digest32
deriving DecidableEq

variable [Blake3]

namespace ReplicaBindingRecord

def check (binding : BuiltBinding) (backendClass : BackendClass) : Except ControlError Unit :=
  if !isExternalReference binding.binding.credentialRef then .error .plaintextCredential
  else if binding.binding.backendClassDigest ≠ backendClass.digest ∨
      binding.binding.providerKind ≠ backendClass.providerKind ∨
      binding.binding.contractVersion ≠ backendClass.contractVersion ∨
      binding.binding.layoutVersion ≠ backendClass.layoutVersion ∨
      binding.binding.capabilityDigest ≠ backendClass.requiredCapabilities.digest then
    .error .bindingBackendClassMismatch
  else .ok ()

end ReplicaBindingRecord

/-- A binding together with the class it realises. -/
@[ext] structure ReplicaBindingRecord where
  binding : BuiltBinding
  backendClass : BackendClass
  checked : ReplicaBindingRecord.check binding backendClass = .ok ()
deriving DecidableEq

namespace ReplicaBindingRecord

def new (binding : BuiltBinding) (backendClass : BackendClass) :
    Except ControlError ReplicaBindingRecord :=
  match h : check binding backendClass with
  | .ok () => .ok ⟨binding, backendClass, h⟩
  | .error e => .error e

theorem new_eq (record : ReplicaBindingRecord) :
    new record.binding record.backendClass = .ok record := by
  unfold new
  split
  · rfl
  · rename_i h
    rw [record.checked] at h
    cases h

def generation (record : ReplicaBindingRecord) : BackendGeneration :=
  record.binding.binding.backendGeneration

end ReplicaBindingRecord

@[ext] structure ShardPlacement where
  graphId : GraphId
  shardId : ShardId
  placementEpoch : PlacementEpoch
  activeGeneration : BackendGeneration
  backendClass : BackendClass
  replicas : List ReplicaBindingRecord
deriving DecidableEq

namespace ShardPlacement

/-- What validation has seen of the replicas before the current one. -/
structure Seen where
  classes : OrderedMap BackendGeneration Digest32
  replicas : List (BackendGeneration × ReplicaId)

def validateReplica (placement : ShardPlacement) (seen : Seen) (record : ReplicaBindingRecord) :
    Except ControlError Seen :=
  let binding := record.binding.binding
  if binding.graphId ≠ placement.graphId ∨ binding.shardId ≠ placement.shardId ∨
      binding.placementEpoch ≠ placement.placementEpoch then
    .error (.invalidPlacement "binding identity does not match placement identity")
  else if (record.generation, binding.replicaId) ∈ seen.replicas then
    .error (.invalidPlacement "duplicate replica binding")
  else if seen.classes[record.generation]?.any (· ≠ record.backendClass.digest) then
    .error .mixedBackendClass
  else if record.generation = placement.activeGeneration ∧ binding.role = .retiring then
    .error (.invalidPlacement "active-generation replicas cannot be retiring")
  else if record.generation ≠ placement.activeGeneration ∧ binding.role ≠ .retiring then
    .error (.invalidPlacement "non-active generations must be retiring")
  else .ok ⟨seen.classes.insert record.generation record.backendClass.digest,
    (record.generation, binding.replicaId) :: seen.replicas⟩

def validate (placement : ShardPlacement) : Except ControlError Unit :=
  if placement.replicas.isEmpty then
    .error (.invalidPlacement "at least one replica binding is required")
  else do
    let seen ← placement.replicas.foldlM placement.validateReplica ⟨∅, []⟩
    match seen.classes[placement.activeGeneration]? with
    | some digest =>
      if digest = placement.backendClass.digest then .ok () else .error .mixedBackendClass
    | none => .error (.invalidPlacement "active generation has no replica binding")

def generationClasses (placement : ShardPlacement) : OrderedMap BackendGeneration Digest32 :=
  placement.replicas.foldl
    (fun classes record => classes.insert record.generation record.backendClass.digest)
    ((∅ : OrderedMap BackendGeneration Digest32).insert placement.activeGeneration
      placement.backendClass.digest)

def key (placement : ShardPlacement) : ShardKey := toLex (placement.graphId, placement.shardId)

end ShardPlacement

inductive CatalogCommand where
  | putPlacement (expectedVersion : UInt64) (placement : ShardPlacement)
  | pinRetention (expectedVersion : UInt64) (graphId : GraphId) (shardId : ShardId)
      (generation : BackendGeneration) (pin : RetentionPin)
  | unpinRetention (expectedVersion : UInt64) (graphId : GraphId) (shardId : ShardId)
      (generation : BackendGeneration) (pin : RetentionPin)
deriving DecidableEq

def CatalogCommand.expectedVersion : CatalogCommand → UInt64
  | .putPlacement version _ => version
  | .pinRetention version _ _ _ _ => version
  | .unpinRetention version _ _ _ _ => version

@[ext] structure CatalogState where
  version : UInt64
  placements : OrderedMap ShardKey ShardPlacement
  lineage : OrderedMap ShardKey (List LineageEntry)
  retentionPins : OrderedMap GenerationKey (Finset RetentionPin)

namespace CatalogState

def new : CatalogState := ⟨0, ∅, ∅, ∅⟩

def lineageOf (catalog : CatalogState) (graphId : GraphId) (shardId : ShardId) :
    List LineageEntry :=
  catalog.lineage[(toLex (graphId, shardId) : ShardKey)]?.getD []

def generationKey (graphId : GraphId) (shardId : ShardId) (generation : BackendGeneration) :
    GenerationKey :=
  toLex (graphId, toLex (shardId, generation))

def pinsOf (catalog : CatalogState) (key : GenerationKey) : Finset RetentionPin :=
  catalog.retentionPins[key]?.getD ∅

def isGenerationPinned (catalog : CatalogState) (graphId : GraphId) (shardId : ShardId)
    (generation : BackendGeneration) : Bool :=
  decide (catalog.pinsOf (generationKey graphId shardId generation) ≠ ∅)

def hasGeneration (catalog : CatalogState) (graphId : GraphId) (shardId : ShardId)
    (generation : BackendGeneration) : Bool :=
  (catalog.lineageOf graphId shardId).any (fun entry => entry.generation = generation)

/-- Adds a generation to a lineage unless it is there under another class. -/
def extendLineage (lineage : List LineageEntry) (entry : BackendGeneration × Digest32) :
    Except ControlError (List LineageEntry) :=
  match lineage.find? (fun known => known.generation = entry.1) with
  | some known =>
    if known.backendClassDigest ≠ entry.2 then .error .lineageConflict else .ok lineage
  | none => .ok (lineage ++ [⟨entry.1, entry.2⟩])

def putPlacement (catalog : CatalogState) (placement : ShardPlacement) :
    Except ControlError CatalogState := do
  placement.validate
  let classes := placement.generationClasses
  if (catalog.placements[placement.key]?.any fun previous =>
      previous.generationClasses.keys.any fun generation =>
        !classes.contains generation &&
          catalog.isGenerationPinned placement.graphId placement.shardId generation) then
    .error .retentionPinned
  let lineage ← classes.toList.foldlM extendLineage
    (catalog.lineageOf placement.graphId placement.shardId)
  .ok { catalog with
    lineage := catalog.lineage.insert placement.key
      (lineage.insertionSort fun a b => a.generation ≤ b.generation)
    placements := catalog.placements.insert placement.key placement }

def pinRetention (catalog : CatalogState) (graphId : GraphId) (shardId : ShardId)
    (generation : BackendGeneration) (pin : RetentionPin) : Except ControlError CatalogState :=
  if !catalog.hasGeneration graphId shardId generation then .error .unknownGeneration
  else
    let key := generationKey graphId shardId generation
    .ok { catalog with
      retentionPins := catalog.retentionPins.insert key (insert pin (catalog.pinsOf key)) }

def unpinRetention (catalog : CatalogState) (graphId : GraphId) (shardId : ShardId)
    (generation : BackendGeneration) (pin : RetentionPin) : Except ControlError CatalogState :=
  if !catalog.hasGeneration graphId shardId generation then .error .unknownGeneration
  else
    let key := generationKey graphId shardId generation
    match catalog.retentionPins[key]? with
    | none => .ok catalog
    | some pins =>
      let kept := pins.erase pin
      .ok { catalog with
        retentionPins :=
          if kept = ∅ then catalog.retentionPins.erase key
          else catalog.retentionPins.insert key kept }

/-- What a command does to the maps of the catalog. -/
def update (catalog : CatalogState) : CatalogCommand → Except ControlError CatalogState
  | .putPlacement _ placement => catalog.putPlacement placement
  | .pinRetention _ graphId shardId generation pin =>
    catalog.pinRetention graphId shardId generation pin
  | .unpinRetention _ graphId shardId generation pin =>
    catalog.unpinRetention graphId shardId generation pin

def apply (catalog : CatalogState) (command : CatalogCommand) :
    Except ControlError CatalogState :=
  if command.expectedVersion ≠ catalog.version then
    .error (.staleCatalog command.expectedVersion catalog.version)
  else do
    let next ← catalog.update command
    if catalog.version.toNat + 1 < 2 ^ 64 then .ok { next with version := catalog.version + 1 }
    else .error .versionOverflow

/-- An accepted command names the current version and advances it by one. -/
theorem apply_version {catalog next : CatalogState} {command : CatalogCommand}
    (h : catalog.apply command = .ok next) :
    command.expectedVersion = catalog.version ∧
      next.version.toNat = catalog.version.toNat + 1 := by
  unfold apply at h
  split at h
  · cases h
  rename_i hstale
  obtain ⟨updated, -, hnext⟩ := Result.bind_eq_ok.mp h
  split_ifs at hnext with hlimit
  cases hnext
  refine ⟨not_not.mp hstale, ?_⟩
  exact Nat.mod_eq_of_lt hlimit

end CatalogState

end DtgProxy.Control

import DtgProxy.Control.ActionCodec

/-! # The payloads of the Meta log

A log payload is a catalog command in JSON or an action command in its own
format, behind one tag byte.  A catalog command passes through plain wire
records, and reading it rebuilds every checked value from the bottom up.
-/
namespace DtgProxy.Meta

open Kernel Lib Storage Control

/-- The errors of the Meta process that the modelled operations return. -/
inductive MetaProcessError where
  | storage (message : String)
  | control (message : String)
  | codec (message : String)
  | consensus (message : String)
  | proposalPending
deriving DecidableEq, Repr

def MetaProcessError.ofBinding (e : BindingError) : MetaProcessError := .storage e.message

def MetaProcessError.ofControl (e : ControlError) : MetaProcessError := .control e.message

/-! ## Wire records -/

instance instEncodableUInt64 : Encodable UInt64 :=
  Encodable.ofLeftInverse UInt64.toNat UInt64.ofNat fun _ => UInt64.ofNat_toNat

instance instEncodableUInt32 : Encodable UInt32 :=
  Encodable.ofLeftInverse UInt32.toNat UInt32.ofNat fun _ => UInt32.ofNat_toNat

instance instEncodableChar : Encodable Char := Encodable.ofLeftInverse Char.toNat Char.ofNat Char.ofNat_toNat

instance instEncodableString : Encodable String :=
  Encodable.ofLeftInverse String.toList String.ofList fun _ => String.ofList_toList

deriving instance Encodable for ProviderKind, BindingRole, DurabilityPolicy

@[ext] structure BackendClassWire where
  provider : ProviderKind
  contractVersion : UInt32
  layoutVersion : UInt32
  durability : DurabilityPolicy
  capabilities : List String
deriving DecidableEq, Encodable

structure ReplicaBindingWire where
  clusterId : UInt64
  graphId : UInt64
  shardId : UInt64
  placementEpoch : UInt64
  replicaId : UInt64
  backendGeneration : UInt64
  provider : ProviderKind
  contractVersion : UInt32
  layoutVersion : UInt32
  namespaceId : String
  endpointProfileRef : String
  credentialRef : String
  role : BindingRole
deriving DecidableEq, Encodable

structure ReplicaRecordWire where
  binding : ReplicaBindingWire
  backendClass : BackendClassWire
deriving DecidableEq, Encodable

structure PlacementWire where
  graphId : UInt64
  shardId : UInt64
  placementEpoch : UInt64
  activeGeneration : UInt64
  backendClass : BackendClassWire
  replicas : List ReplicaRecordWire
deriving DecidableEq, Encodable

inductive CatalogCommandWire where
  | putPlacement (expectedVersion : UInt64) (placement : PlacementWire)
  | pinRetention (expectedVersion graphId shardId generation : UInt64) (pin : String)
  | unpinRetention (expectedVersion graphId shardId generation : UInt64) (pin : String)
deriving DecidableEq, Encodable

/-- The `serde_json` crate on catalog commands: what it writes, it reads back. -/
class SerdeJson where
  toVec : CatalogCommandWire → List UInt8
  fromSlice : List UInt8 → Except String CatalogCommandWire
  fromSlice_toVec : ∀ wire, fromSlice (toVec wire) = .ok wire

/-- A computable stand-in, for evaluating the model on fixed inputs: the commands
of a table are written by their position and all others by their number. -/
@[reducible] def tableJson (table : List CatalogCommandWire) : SerdeJson where
  toVec wire :=
    if wire ∈ table then 0 :: List.replicate (table.idxOf wire) 0
    else 1 :: List.replicate (Encodable.encode wire) 0
  fromSlice
    | [] => .error "EOF while parsing a value"
    | tag :: rest =>
      match if tag = 0 then table[rest.length]? else Encodable.decode rest.length with
      | some wire => .ok wire
      | none => .error "expected value"
  fromSlice_toVec wire := by
    split_ifs with h
    · simp [List.getElem?_idxOf h]
    · simp

def BackendClassWire.ofClass (backend : BackendClass) : BackendClassWire where
  provider := backend.providerKind
  contractVersion := backend.contractVersion
  layoutVersion := backend.layoutVersion
  durability := backend.durabilityPolicy
  capabilities := backend.requiredCapabilities.names

def ReplicaBindingWire.ofBinding (binding : ReplicaBinding) : ReplicaBindingWire where
  clusterId := binding.clusterId.word
  graphId := binding.graphId.word
  shardId := binding.shardId.word
  placementEpoch := binding.placementEpoch.word
  replicaId := binding.replicaId.word
  backendGeneration := binding.backendGeneration.word
  provider := binding.providerKind
  contractVersion := binding.contractVersion
  layoutVersion := binding.layoutVersion
  namespaceId := binding.namespaceId
  endpointProfileRef := binding.endpointProfileRef
  credentialRef := binding.credentialRef
  role := binding.role

variable [Blake3]

def ReplicaRecordWire.ofRecord (record : ReplicaBindingRecord) : ReplicaRecordWire :=
  ⟨.ofBinding record.binding.binding, .ofClass record.backendClass⟩

def PlacementWire.ofPlacement (placement : ShardPlacement) : PlacementWire where
  graphId := placement.graphId.word
  shardId := placement.shardId.word
  placementEpoch := placement.placementEpoch.word
  activeGeneration := placement.activeGeneration.word
  backendClass := .ofClass placement.backendClass
  replicas := placement.replicas.map .ofRecord

def CatalogCommandWire.fromCommand : CatalogCommand → CatalogCommandWire
  | .putPlacement version placement => .putPlacement version (.ofPlacement placement)
  | .pinRetention version graphId shardId generation pin =>
    .pinRetention version graphId.word shardId.word generation.word pin.text
  | .unpinRetention version graphId shardId generation pin =>
    .unpinRetention version graphId.word shardId.word generation.word pin.text

/-! ## Wire records to values -/

/-- An identifier of a wire record. -/
def wireId {kind : IdKind} (value : UInt64) (what : String) :
    Except MetaProcessError (Identifier kind) :=
  Identifier.ofWord value (.codec ("invalid " ++ what))

def BackendClassWire.toClass (wire : BackendClassWire) : Except MetaProcessError BackendClass :=
  (BackendClass.withDurability wire.provider wire.contractVersion wire.layoutVersion
    wire.durability wire.capabilities).mapError .ofBinding

/-- The digests of a binding are not on the wire: they come from its class. -/
def ReplicaBindingWire.intoBinding (wire : ReplicaBindingWire) (backend : BackendClass) :
    Except MetaProcessError BuiltBinding :=
  (ReplicaBindingBuilder.build {
    clusterId := wire.clusterId
    graphId := wire.graphId
    shardId := wire.shardId
    placementEpoch := wire.placementEpoch
    replicaId := wire.replicaId
    backendGeneration := wire.backendGeneration
    backendClassDigest := backend.digest
    providerKind := wire.provider
    contractVersion := wire.contractVersion
    layoutVersion := wire.layoutVersion
    capabilityDigest := backend.requiredCapabilities.digest
    namespaceId := wire.namespaceId
    endpointProfileRef := wire.endpointProfileRef
    credentialRef := wire.credentialRef
    role := wire.role }).mapError .ofBinding

def ReplicaRecordWire.toRecord (wire : ReplicaRecordWire) :
    Except MetaProcessError ReplicaBindingRecord := do
  let backend ← wire.backendClass.toClass
  let binding ← wire.binding.intoBinding backend
  (ReplicaBindingRecord.new binding backend).mapError .ofControl

def PlacementWire.toPlacement (wire : PlacementWire) : Except MetaProcessError ShardPlacement := do
  let graphId ← wireId wire.graphId "graph ID"
  let shardId ← wireId wire.shardId "shard ID"
  let placementEpoch ← wireId wire.placementEpoch "placement epoch"
  let activeGeneration ← wireId wire.activeGeneration "generation"
  let backendClass ← wire.backendClass.toClass
  let replicas ← wire.replicas.mapM ReplicaRecordWire.toRecord
  .ok ⟨graphId, shardId, placementEpoch, activeGeneration, backendClass, replicas⟩

def CatalogCommandWire.toCommand : CatalogCommandWire → Except MetaProcessError CatalogCommand
  | .putPlacement version placement => do
    let placement ← placement.toPlacement
    .ok (.putPlacement version placement)
  | .pinRetention version graphId shardId generation pin => do
    let graphId ← wireId graphId "graph ID"
    let shardId ← wireId shardId "shard ID"
    let generation ← wireId generation "generation"
    let pin ← (RetentionPin.new pin).mapError .ofControl
    .ok (.pinRetention version graphId shardId generation pin)
  | .unpinRetention version graphId shardId generation pin => do
    let graphId ← wireId graphId "graph ID"
    let shardId ← wireId shardId "shard ID"
    let generation ← wireId generation "generation"
    let pin ← (RetentionPin.new pin).mapError .ofControl
    .ok (.unpinRetention version graphId shardId generation pin)

inductive AuthorityCommand where
  | catalog (command : CatalogCommand)
  | action (command : ActionCommand)
deriving DecidableEq

variable [SerdeJson]

def encodeAuthorityCommand : AuthorityCommand → Except MetaProcessError (List UInt8)
  | .catalog command => .ok (1 :: SerdeJson.toVec (.fromCommand command))
  | .action command => do
    let bytes ← command.encodeCurrent.mapError .ofControl
    .ok (2 :: bytes)

def decodeCatalogCommand (bytes : List UInt8) : Except MetaProcessError CatalogCommand := do
  let wire ← (SerdeJson.fromSlice bytes).mapError .codec
  wire.toCommand

def decodeAuthorityCommand : List UInt8 → Except MetaProcessError AuthorityCommand
  | [] => .error (.codec "empty Meta authority command")
  | tag :: payload =>
    match tag.toNat with
    | 1 => .catalog <$> decodeCatalogCommand payload
    | 2 => .action <$> (ActionCommand.decode payload).mapError .ofControl
    | _ => .error (.codec "unknown Meta authority command tag")

/-! ## Reading back -/

omit [Blake3] [SerdeJson] in
theorem wireId_word {kind : IdKind} (id : Identifier kind) (what : String)
    (hkind : kind.bytes = 8) : wireId id.word what = .ok id :=
  Identifier.ofWord_word id _ hkind

omit [Blake3] [SerdeJson] in
theorem toClass_ofClass (backend : BackendClass) :
    (BackendClassWire.ofClass backend).toClass = .ok backend := by
  change (BackendClass.withDurability _ _ _ _ _).mapError _ = _
  rw [BackendClassWire.ofClass, backend.withDurability_eq]
  rfl

omit [SerdeJson] in
/-- A record's binding has the digests of its class, so it is rebuilt as it was. -/
theorem intoBinding_ofBinding (record : ReplicaBindingRecord) :
    (ReplicaBindingWire.ofBinding record.binding.binding).intoBinding record.backendClass =
      .ok record.binding := by
  have hchecked := record.checked
  unfold ReplicaBindingRecord.check at hchecked
  split_ifs at hchecked with hexternal hclass
  simp only [ne_eq, not_or, not_not] at hclass
  have hbuild := record.binding.build_toBuilder
  simp only [BuiltBinding.toBuilder, hclass.1, hclass.2.2.2.2] at hbuild
  simp only [ReplicaBindingWire.intoBinding, ReplicaBindingWire.ofBinding, hbuild]
  rfl

open ReplicaRecordWire

omit [SerdeJson] in
theorem toRecord_ofRecord (record : ReplicaBindingRecord) :
    (ofRecord record).toRecord = .ok record := by
  simp only [toRecord, ofRecord, toClass_ofClass]
  change ((ReplicaBindingWire.ofBinding record.binding.binding).intoBinding record.backendClass
    >>= fun binding => (ReplicaBindingRecord.new binding record.backendClass).mapError _) = _
  rw [intoBinding_ofBinding]
  change (ReplicaBindingRecord.new _ _).mapError _ = _
  rw [record.new_eq]
  rfl

omit [SerdeJson] in
theorem mapM_toRecord (records : List ReplicaBindingRecord) :
    (records.map ofRecord).mapM toRecord = .ok records := by
  induction records with
  | nil => rfl
  | cons record records ih =>
    rw [List.map_cons, List.mapM_cons, toRecord_ofRecord, ih]
    rfl

omit [SerdeJson] in
theorem toPlacement_ofPlacement (placement : ShardPlacement) :
    (PlacementWire.ofPlacement placement).toPlacement = .ok placement := by
  simp only [PlacementWire.toPlacement, PlacementWire.ofPlacement]
  rw [wireId_word placement.graphId _ rfl, wireId_word placement.shardId _ rfl,
    wireId_word placement.placementEpoch _ rfl, wireId_word placement.activeGeneration _ rfl,
    toClass_ofClass, mapM_toRecord]
  rfl

open CatalogCommandWire

omit [SerdeJson] in
theorem toCommand_fromCommand (command : CatalogCommand) :
    (fromCommand command).toCommand = .ok command := by
  cases command with
  | putPlacement =>
    simp only [fromCommand, toCommand,
      toPlacement_ofPlacement]
    rfl
  | pinRetention version graphId shardId generation pin
  | unpinRetention version graphId shardId generation pin =>
    simp only [fromCommand, toCommand]
    rw [wireId_word graphId _ rfl, wireId_word shardId _ rfl, wireId_word generation _ rfl,
      pin.new_text]
    rfl

/-- A payload that is written is read back. -/
theorem decodeAuthorityCommand_encode {command : AuthorityCommand} {payload : List UInt8}
    (h : encodeAuthorityCommand command = .ok payload) :
    decodeAuthorityCommand payload = .ok command := by
  cases command with
  | catalog command =>
    cases h
    change AuthorityCommand.catalog <$> decodeCatalogCommand _ = _
    rw [decodeCatalogCommand, SerdeJson.fromSlice_toVec]
    change AuthorityCommand.catalog <$> (fromCommand command).toCommand = _
    rw [toCommand_fromCommand]
    rfl
  | action command =>
    obtain ⟨bytes, hbytes, hpayload⟩ := Result.bind_eq_ok.mp h
    cases hpayload
    change AuthorityCommand.action <$> (ActionCommand.decode bytes).mapError _ = _
    cases hencode : command.encodeCurrent with
    | error =>
      rw [hencode] at hbytes
      cases hbytes
    | ok =>
      rw [hencode] at hbytes
      cases hbytes
      rw [ActionCommand.decode_encodeCurrent hencode]
      rfl

end DtgProxy.Meta

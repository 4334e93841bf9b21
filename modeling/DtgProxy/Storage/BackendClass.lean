import DtgProxy.Lib.Text
import DtgProxy.Storage.Store

/-! # Backend classes and the construction of bindings

A backend class fixes a provider, its contract and layout versions, its
durability and the capabilities it has to offer.  Classes, capability manifests
and bindings are only built through their checks, so each carries the proof that
it passed.
-/
namespace DtgProxy.Kernel.Identifier

variable {kind : IdKind}

/-- The `u64` of an identifier that is no wider. -/
def word (id : Identifier kind) : UInt64 := UInt64.ofNat id.get

theorem toNat_word (id : Identifier kind) (hkind : kind.bytes = 8) : id.word.toNat = id.get :=
  UInt64.toNat_ofNat_of_lt' (by simpa [hkind] using id.inRange)

/-- The checked reading of a word as an identifier. -/
def ofWord {ε : Type} (value : UInt64) (e : ε) : Except ε (Identifier kind) :=
  match Identifier.new value.toNat with
  | some id => .ok id
  | none => .error e

theorem ofWord_word {ε : Type} (id : Identifier kind) (e : ε) (hkind : kind.bytes = 8) :
    ofWord id.word e = .ok id := by
  rw [ofWord, toNat_word id hkind, new_get]

end DtgProxy.Kernel.Identifier

namespace DtgProxy.Kernel.Digest32

/-- Digests are ordered byte by byte. -/
instance : LinearOrder Digest32 :=
  LinearOrder.lift' (fun digest => digest.bytes.map UInt8.toNat) (fun _ _ h =>
    Digest32.ext (List.map_injective_iff.mpr (fun _ _ => UInt8.toNat_inj.mp) h))

end DtgProxy.Kernel.Digest32

namespace DtgProxy.Storage

open Kernel Lib MutationDigest

/-- The errors of the constructors of this module.  A name that is reported is
kept as it is, without the quoting of its text form. -/
inductive BindingError where
  | zeroVersion
  | remoteName (name : String)
  | capabilityName (name : String)
  | namespaceId
  | field (name : String)
deriving DecidableEq, Repr

def BindingError.message : BindingError → String
  | .zeroVersion => "backend contract and layout versions must be nonzero"
  | .remoteName name => "remote provider name is not canonical: " ++ name
  | .capabilityName name => "capability name is not canonical: " ++ name
  | .namespaceId => "namespace identifier must be nonempty, bounded, and whitespace-free"
  | .field name => "missing or invalid binding field: " ++ name

/-- The characters of remote provider and capability names. -/
def isNameChar (c : Char) : Bool :=
  Text.isLowerAscii c || Text.isDigitAscii c || c == '-' || c == '.'

namespace ProviderKind

def check : ProviderKind → Except BindingError Unit
  | .remote name =>
    if name.toList.isEmpty || !name.toList.all isNameChar then .error (.remoteName name) else .ok ()
  | _ => .ok ()

/-- What a provider adds to the preimage of a digest. -/
def toBytes : ProviderKind → List UInt8
  | .fjall => utf8 "fjall"
  | .postgreSql => utf8 "postgresql"
  | .kuzu => utf8 "kuzu"
  | .remote name => utf8 "remote:" ++ encodeString name

end ProviderKind

def isCapabilityName (name : String) : Bool :=
  name.toList.all isNameChar && name.toList.head?.any Text.isLowerAscii

/-- A set of capability names, in ascending order. -/
@[ext] structure CapabilityManifest where
  names : List String
  ordered : names.Pairwise (· < ·)
  canonical : ∀ name ∈ names, isCapabilityName name = true
deriving DecidableEq

namespace CapabilityManifest

def empty : CapabilityManifest := ⟨[], .nil, by simp⟩

def fromNames (names : List String) : Except BindingError CapabilityManifest :=
  match h : names.find? (fun name => !isCapabilityName name) with
  | some name => .error (.capabilityName name)
  | none => .ok {
      names := names.dedup.insertionSort (· ≤ ·)
      ordered := (names.dedup.sortedLE_insertionSort.sortedLT_of_nodup
        ((List.perm_insertionSort _ _).nodup_iff.mpr names.nodup_dedup)).pairwise
      canonical := by
        intro name hname
        rw [List.mem_insertionSort, List.mem_dedup] at hname
        simpa using List.find?_eq_none.mp h name hname }

def digest [Blake3] (manifest : CapabilityManifest) : Digest32 :=
  Blake3.hash (utf8 "dtg-capability-manifest-v1" ++ encodeU64 manifest.names.length ++
    manifest.names.flatMap encodeString)

theorem fromNames_names (manifest : CapabilityManifest) :
    fromNames manifest.names = .ok manifest := by
  have hnone : manifest.names.find? (fun name => !isCapabilityName name) = none :=
    List.find?_eq_none.mpr fun name hname => by simp [manifest.canonical name hname]
  have hnodup : manifest.names.Nodup := manifest.ordered.imp fun h => h.ne
  unfold fromNames
  split
  · rename_i h
    rw [hnone] at h
    cases h
  · congr 1
    ext1
    change manifest.names.dedup.insertionSort (· ≤ ·) = manifest.names
    rw [hnodup.dedup]
    exact List.Pairwise.insertionSort_eq (manifest.ordered.imp le_of_lt)

end CapabilityManifest

inductive DurabilityPolicy where
  | durableCommit
  | durableCommitWithReplicaSync
deriving DecidableEq, Repr

def DurabilityPolicy.tag : DurabilityPolicy → UInt8
  | .durableCommit => 1
  | .durableCommitWithReplicaSync => 2

@[ext] structure BackendClass where
  providerKind : ProviderKind
  contractVersion : UInt32
  layoutVersion : UInt32
  durabilityPolicy : DurabilityPolicy
  requiredCapabilities : CapabilityManifest
  versions_ne_zero : contractVersion ≠ 0 ∧ layoutVersion ≠ 0
  provider_canonical : providerKind.check = .ok ()
deriving DecidableEq

namespace BackendClass

/-- The class of a provider of which nothing is required. -/
def plain (providerKind : ProviderKind) (h : providerKind.check = .ok ()) : BackendClass :=
  ⟨providerKind, 1, 1, .durableCommit, .empty, by decide, h⟩

def fjall : BackendClass := plain .fjall rfl

def withDurability (providerKind : ProviderKind) (contractVersion layoutVersion : UInt32)
    (durabilityPolicy : DurabilityPolicy) (requiredCapabilities : List String) :
    Except BindingError BackendClass :=
  if hversions : contractVersion ≠ 0 ∧ layoutVersion ≠ 0 then do
    let capabilities ← CapabilityManifest.fromNames requiredCapabilities
    match hprovider : providerKind.check with
    | .ok () => .ok ⟨providerKind, contractVersion, layoutVersion, durabilityPolicy, capabilities,
        hversions, hprovider⟩
    | .error e => .error e
  else .error .zeroVersion

def digest [Blake3] (backend : BackendClass) : Digest32 :=
  Blake3.hash (utf8 "dtg-backend-class-v1" ++ backend.providerKind.toBytes ++
    BigEndian.encode 4 backend.contractVersion.toNat ++
    BigEndian.encode 4 backend.layoutVersion.toNat ++ [backend.durabilityPolicy.tag] ++
    backend.requiredCapabilities.digest.bytes)

theorem withDurability_eq (backend : BackendClass) :
    withDurability backend.providerKind backend.contractVersion backend.layoutVersion
      backend.durabilityPolicy backend.requiredCapabilities.names = .ok backend := by
  rw [withDurability, dif_pos backend.versions_ne_zero, CapabilityManifest.fromNames_names]
  split
  · rfl
  · rename_i h
    rw [backend.provider_canonical] at h
    cases h

end BackendClass

def BindingRole.tag : BindingRole → UInt8
  | .candidate => 1
  | .active => 2
  | .retiring => 3

/-- The condition on namespace identifiers and retention pins. -/
def isBoundedName (value : String) : Bool :=
  !value.toList.isEmpty && decide ((utf8 value).length ≤ 255) &&
    !value.toList.any Text.isWhitespace

namespace ReplicaBinding

/-- The checks of the builder beyond those of the identifiers, in its order. -/
def check (binding : ReplicaBinding) : Except BindingError Unit := do
  if binding.backendClassDigest = Digest32.zero then .error (.field "backend_class_digest")
  binding.providerKind.check
  if binding.contractVersion = 0 then .error (.field "contract_version")
  if binding.layoutVersion = 0 then .error (.field "layout_version")
  if binding.capabilityDigest = Digest32.zero then .error (.field "capability_digest")
  if !isBoundedName binding.namespaceId then .error .namespaceId
  if Text.isBlank binding.endpointProfileRef then .error (.field "endpoint_profile_ref")
  if Text.isBlank binding.credentialRef then .error (.field "credential_ref")

def identityDigest [Blake3] (binding : ReplicaBinding) : Digest32 :=
  Blake3.hash (utf8 "dtg-replica-binding-v1" ++ binding.clusterId.toBytes ++
    binding.graphId.toBytes ++ binding.shardId.toBytes ++ binding.placementEpoch.toBytes ++
    binding.replicaId.toBytes ++ binding.backendGeneration.toBytes ++
    binding.backendClassDigest.bytes ++ binding.providerKind.toBytes ++
    BigEndian.encode 4 binding.contractVersion.toNat ++
    BigEndian.encode 4 binding.layoutVersion.toNat ++ binding.capabilityDigest.bytes ++
    encodeString binding.namespaceId ++ encodeString binding.endpointProfileRef ++
    encodeString binding.credentialRef ++ [binding.role.tag])

end ReplicaBinding

/-- The fields a binding is built from; the identifiers are still plain words. -/
structure ReplicaBindingBuilder where
  clusterId : UInt64
  graphId : UInt64
  shardId : UInt64
  placementEpoch : UInt64
  replicaId : UInt64
  backendGeneration : UInt64
  backendClassDigest : Digest32
  providerKind : ProviderKind
  contractVersion : UInt32
  layoutVersion : UInt32
  capabilityDigest : Digest32
  namespaceId : String
  endpointProfileRef : String
  credentialRef : String
  role : BindingRole

/-- A binding that passed the builder. -/
@[ext] structure BuiltBinding where
  binding : ReplicaBinding
  checked : binding.check = .ok ()
deriving DecidableEq

namespace ReplicaBindingBuilder

def build (builder : ReplicaBindingBuilder) : Except BindingError BuiltBinding := do
  let clusterId ← Identifier.ofWord builder.clusterId (.field "cluster_id")
  let graphId ← Identifier.ofWord builder.graphId (.field "graph_id")
  let shardId ← Identifier.ofWord builder.shardId (.field "shard_id")
  let placementEpoch ← Identifier.ofWord builder.placementEpoch (.field "placement_epoch")
  let replicaId ← Identifier.ofWord builder.replicaId (.field "replica_id")
  let backendGeneration ← Identifier.ofWord builder.backendGeneration (.field "backend_generation")
  let binding : ReplicaBinding := {
    clusterId, graphId, shardId, placementEpoch, replicaId, backendGeneration
    backendClassDigest := builder.backendClassDigest
    providerKind := builder.providerKind
    contractVersion := builder.contractVersion
    layoutVersion := builder.layoutVersion
    capabilityDigest := builder.capabilityDigest
    namespaceId := builder.namespaceId
    endpointProfileRef := builder.endpointProfileRef
    credentialRef := builder.credentialRef
    role := builder.role }
  match h : binding.check with
  | .ok () => .ok ⟨binding, h⟩
  | .error e => .error e

end ReplicaBindingBuilder

namespace BuiltBinding

def toBuilder (built : BuiltBinding) : ReplicaBindingBuilder where
  clusterId := built.binding.clusterId.word
  graphId := built.binding.graphId.word
  shardId := built.binding.shardId.word
  placementEpoch := built.binding.placementEpoch.word
  replicaId := built.binding.replicaId.word
  backendGeneration := built.binding.backendGeneration.word
  backendClassDigest := built.binding.backendClassDigest
  providerKind := built.binding.providerKind
  contractVersion := built.binding.contractVersion
  layoutVersion := built.binding.layoutVersion
  capabilityDigest := built.binding.capabilityDigest
  namespaceId := built.binding.namespaceId
  endpointProfileRef := built.binding.endpointProfileRef
  credentialRef := built.binding.credentialRef
  role := built.binding.role

theorem build_toBuilder (built : BuiltBinding) : built.toBuilder.build = .ok built := by
  simp only [ReplicaBindingBuilder.build, toBuilder]
  rw [Identifier.ofWord_word built.binding.clusterId _ rfl,
    Identifier.ofWord_word built.binding.graphId _ rfl,
    Identifier.ofWord_word built.binding.shardId _ rfl,
    Identifier.ofWord_word built.binding.placementEpoch _ rfl,
    Identifier.ofWord_word built.binding.replicaId _ rfl,
    Identifier.ofWord_word built.binding.backendGeneration _ rfl]
  change (match h : built.binding.check with
    | .ok () => Except.ok _
    | .error e => .error e) = _
  split
  · rfl
  · rename_i h
    rw [built.checked] at h
    cases h

end BuiltBinding

end DtgProxy.Storage

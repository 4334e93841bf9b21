import DtgProxy.Language.Ir
import DtgProxy.Storage.BackendClass
import DtgProxy.Storage.TemporalRead

/-! # What a query is planned against

The catalog of active shards, the capabilities of their common provider and the
snapshot to read at.  The constructors reject what planning does not handle, and
the types keep what they checked.
-/
namespace DtgProxy.Storage

def CapabilityManifest.supports (manifest : CapabilityManifest) (name : String) : Bool :=
  decide (name ∈ manifest.names)

end DtgProxy.Storage

namespace DtgProxy.Plan

open Kernel Lib Storage DtgProxy.Language

inductive PlanError where
  | invalidProgram (error : IrError)
  | invalidCatalog (message : String)
  | graphMismatch
  | unsupportedStatement
  | unboundPointIdentity (node : LogicalNodeId)
  | noBoundedAccess (node : LogicalNodeId)
  | unsupportedNode (node : LogicalNodeId) (reason : String)
  | capabilityDrift (shardId : ShardId) (expected actual : Digest32)
  | invalidStorageRequest (message : String)
deriving DecidableEq

def PlanError.message : PlanError → String
  | .invalidProgram error => "invalid logical program: " ++ error.message
  | .invalidCatalog message => "invalid catalog: " ++ message
  | .graphMismatch => "logical graph scope does not match catalog graph"
  | .unsupportedStatement => "logical statement is not supported by query planning"
  | .unboundPointIdentity node =>
    "point identity for logical node " ++ toString node ++ " is not a positive literal"
  | .noBoundedAccess node =>
    "logical node " ++ toString node ++ " has no bounded storage access"
  | .unsupportedNode node reason =>
    "logical node " ++ toString node ++ " cannot be lowered: " ++ reason
  | .capabilityDrift shardId _ _ => "capability digest drift for Shard " ++ toString shardId.get
  | .invalidStorageRequest message => "invalid storage request: " ++ message

/-! ### The catalog -/

structure CatalogShard where
  binding : ReplicaBinding
  appliedIndex : ℕ
deriving DecidableEq

/-- The shards agree with `first` on graph and provider, and are active. -/
def CatalogShard.Conforms (first shard : CatalogShard) : Prop :=
  shard.binding.role = .active ∧ shard.binding.graphId = first.binding.graphId ∧
    shard.binding.providerKind = first.binding.providerKind

/-- One shard is checked against the first one and the shard identities seen before it. -/
def checkShard (first : CatalogShard) (seen : List ShardId) (shard : CatalogShard) :
    Except PlanError (List ShardId) := do
  if shard.binding.role ≠ .active then
    .error (.invalidCatalog "catalog planning requires active replica bindings")
  if shard.binding.graphId ≠ first.binding.graphId ∨ shard.binding.shardId ∈ seen then
    .error (.invalidCatalog "catalog Shards must have one graph and unique Shard identities")
  if shard.binding.providerKind ≠ first.binding.providerKind then
    .error (.invalidCatalog "catalog active Shards must use one backend provider")
  .ok (shard.binding.shardId :: seen)

theorem checkShard_eq_ok {first shard : CatalogShard} {seen seen' : List ShardId}
    (h : checkShard first seen shard = .ok seen') :
    first.Conforms shard ∧ shard.binding.shardId ∉ seen ∧
      seen' = shard.binding.shardId :: seen := by
  unfold checkShard at h
  by_cases hrole : shard.binding.role = .active
  · by_cases hgraph : shard.binding.graphId ≠ first.binding.graphId ∨
        shard.binding.shardId ∈ seen
    · simp [hrole, hgraph, Bind.bind, Except.bind] at h
    · rw [not_or, not_not] at hgraph
      by_cases hprovider : shard.binding.providerKind = first.binding.providerKind
      · simp [hrole, hgraph.1, hgraph.2, hprovider] at h
        exact ⟨⟨hrole, hgraph.1, hprovider⟩, hgraph.2, h.symm⟩
      · simp [hrole, hgraph.1, hgraph.2, hprovider, Bind.bind, Except.bind] at h
  · simp [hrole, Bind.bind, Except.bind] at h

variable {shards : List CatalogShard}

theorem checkShards_eq_ok {first : CatalogShard} {seen seen' : List ShardId}
    (h : shards.foldlM (checkShard first) seen = .ok seen') :
    (∀ shard ∈ shards, first.Conforms shard ∧ shard.binding.shardId ∉ seen) ∧
      (shards.map (·.binding.shardId)).Nodup := by
  induction shards generalizing seen with
  | nil => simp
  | cons shard shards ih =>
    obtain ⟨mid, hshard, hrest⟩ := Result.bind_eq_ok.mp h
    obtain ⟨hconforms, hnew, rfl⟩ := checkShard_eq_ok hshard
    obtain ⟨hall, hnodup⟩ := ih hrest
    refine ⟨?_, ?_⟩
    · intro other hother
      rcases List.mem_cons.mp hother with rfl | hother
      · exact ⟨hconforms, hnew⟩
      · exact ⟨(hall other hother).1, fun hmem => (hall other hother).2 (List.mem_cons_of_mem _ hmem)⟩
    · rw [List.map_cons, List.nodup_cons]
      refine ⟨?_, hnodup⟩
      intro hmem
      obtain ⟨other, hother, heq⟩ := List.mem_map.mp hmem
      exact (hall other hother).2 (heq ▸ List.mem_cons_self)

/-- A catalog of active shards of one graph and one provider, in the order of
their identities. -/
structure CatalogSnapshot where
  version : ℕ
  schemaVersion : ℕ
  graphId : GraphId
  backendProvider : ProviderKind
  shards : List CatalogShard
  versions_ne_zero : version ≠ 0 ∧ schemaVersion ≠ 0
  shards_ne_nil : shards ≠ []
  conforms : ∀ shard ∈ shards, shard.binding.role = .active ∧ shard.binding.graphId = graphId ∧
    shard.binding.providerKind = backendProvider
  ordered : (shards.map (·.binding.shardId)).Pairwise (· < ·)

def sortShards (shards : List CatalogShard) : List CatalogShard :=
  shards.insertionSort (fun a b => a.binding.shardId ≤ b.binding.shardId)

theorem ordered_sortShards (hnodup : (shards.map (·.binding.shardId)).Nodup) :
    ((sortShards shards).map (·.binding.shardId)).Pairwise (· < ·) := by
  have hperm : ((sortShards shards).map (·.binding.shardId)).Perm
      (shards.map (·.binding.shardId)) := (List.perm_insertionSort _ _).map _
  have hle : (sortShards shards).Pairwise
      (fun a b => a.binding.shardId ≤ b.binding.shardId) := by
    refine List.pairwise_insertionSort _ _
  have hsorted : ((sortShards shards).map (·.binding.shardId)).Pairwise (· ≤ ·) :=
    List.pairwise_map.mpr hle
  have hne : ((sortShards shards).map (·.binding.shardId)).Pairwise (· ≠ ·) :=
    hperm.nodup_iff.mpr hnodup
  exact (hsorted.and hne).imp fun h => lt_of_le_of_ne h.1 h.2

def CatalogSnapshot.new (version schemaVersion : ℕ) (shards : List CatalogShard) :
    Except PlanError CatalogSnapshot :=
  match shards with
  | [] => .error (.invalidCatalog "catalog and schema versions and the Shard set must be nonempty")
  | first :: rest =>
    if hversions : version = 0 ∨ schemaVersion = 0 then
      .error (.invalidCatalog "catalog and schema versions and the Shard set must be nonempty")
    else
      match h : (first :: rest).foldlM (checkShard first) [] with
      | .error error => .error error
      | .ok _ => .ok {
          version, schemaVersion
          graphId := first.binding.graphId
          backendProvider := first.binding.providerKind
          shards := sortShards (first :: rest)
          versions_ne_zero := not_or.mp hversions
          shards_ne_nil := by
            intro hnil
            have hlength := (List.perm_insertionSort
              (fun a b : CatalogShard => a.binding.shardId ≤ b.binding.shardId)
              (first :: rest)).length_eq
            unfold sortShards at hnil
            rw [hnil] at hlength
            cases hlength
          conforms := fun shard hshard =>
            ((checkShards_eq_ok h).1 shard ((List.mem_insertionSort _).mp hshard)).1
          ordered := ordered_sortShards (checkShards_eq_ok h).2 }

theorem CatalogSnapshot.new_singleton {version schemaVersion : ℕ} {shard : CatalogShard}
    (hversions : version ≠ 0 ∧ schemaVersion ≠ 0) (hrole : shard.binding.role = .active) :
    ∃ catalog, CatalogSnapshot.new version schemaVersion [shard] = .ok catalog ∧
      catalog.version = version ∧ catalog.shards = [shard] := by
  have hcheck : [shard].foldlM (checkShard shard) [] = .ok [shard.binding.shardId] := by
    simp [checkShard, hrole, Bind.bind, Except.bind, Pure.pure, Except.pure]
  simp only [CatalogSnapshot.new]
  rw [dif_neg (not_or.mpr hversions)]
  split
  · next error h => rw [hcheck] at h; cases h
  · exact ⟨_, rfl, rfl, rfl⟩

/-- Vertices are spread over the shards by their identifier. -/
structure StaticShardRouter where
  shardIds : List ShardId
  shardIds_ne_nil : shardIds ≠ []

/-- The router of a catalog.  The error for a catalog without shards cannot
arise, because a catalog has one. -/
def StaticShardRouter.new (catalog : CatalogSnapshot) : StaticShardRouter where
  shardIds := catalog.shards.map (·.binding.shardId)
  shardIds_ne_nil := fun h => catalog.shards_ne_nil (List.map_eq_nil_iff.mp h)

def StaticShardRouter.shardForVertex (router : StaticShardRouter) (vertexId : VertexId) : ShardId :=
  router.shardIds.get ⟨vertexId.get % router.shardIds.length,
    Nat.mod_lt _ (List.length_pos_of_ne_nil router.shardIds_ne_nil)⟩

/-! ### Capabilities -/

namespace Capability

def vertexPoint : String := "read.vertex.point"
def vertexScan : String := "read.vertex.scan"
def temporalExact : String := "semantics.temporal.exact"
def nullExact : String := "semantics.null.exact"
def duplicateExact : String := "semantics.duplicate.exact"
def orderExact : String := "semantics.order.exact"
def snapshotExact : String := "semantics.snapshot.exact"

end Capability

inductive PushdownKind where
  | vertexPoint
  | vertexScan
deriving DecidableEq, Repr

def PushdownKind.capability : PushdownKind → String
  | .vertexPoint => Capability.vertexPoint
  | .vertexScan => Capability.vertexScan

/-- The five semantic properties that a provider guarantees or a plan requires. -/
structure Semantics where
  temporal : Bool
  nulls : Bool
  duplicates : Bool
  order : Bool
  snapshot : Bool
deriving DecidableEq, Repr

abbrev SemanticRequirements := Semantics
abbrev PushdownGuarantee := Semantics

def SemanticRequirements.exact : SemanticRequirements := ⟨true, true, true, true, true⟩

def PushdownGuarantee.fromManifest (manifest : CapabilityManifest) : PushdownGuarantee where
  temporal := manifest.supports Capability.temporalExact
  nulls := manifest.supports Capability.nullExact
  duplicates := manifest.supports Capability.duplicateExact
  order := manifest.supports Capability.orderExact
  snapshot := manifest.supports Capability.snapshotExact

def PushdownGuarantee.isExact (guarantee : PushdownGuarantee) : Bool :=
  guarantee.temporal && guarantee.nulls && guarantee.duplicates && guarantee.order &&
    guarantee.snapshot

inductive PushdownDecision where
  | exact (guarantee : PushdownGuarantee)
  | residualRequired (guarantee : PushdownGuarantee)
  | unsupported
deriving DecidableEq, Repr

def decidePushdown (manifest : CapabilityManifest) (kind : PushdownKind) : PushdownDecision :=
  if !manifest.supports kind.capability then .unsupported
  else
    let guarantee := PushdownGuarantee.fromManifest manifest
    if PushdownGuarantee.isExact guarantee then .exact guarantee else .residualRequired guarantee

/-! ### The planning context -/

structure SnapshotRequirements where
  transactionTime : TransactionTime
  validAt : Int64
  immutable : Bool
deriving DecidableEq

/-- The catalog, capabilities and snapshot of one planning run. -/
structure PlanningContext [Blake3] where
  catalog : CatalogSnapshot
  capabilities : CapabilityManifest
  snapshotRequirements : SnapshotRequirements
  logicalScanBound : Option UInt32
  bound_ne_zero : logicalScanBound ≠ some 0
  digests : ∀ shard ∈ catalog.shards, shard.binding.capabilityDigest = capabilities.digest

/-- The first shard whose binding was made for other capabilities. -/
def driftedShard [Blake3] (capabilities : CapabilityManifest) (shards : List CatalogShard) :
    Option CatalogShard :=
  shards.find? fun shard => decide (shard.binding.capabilityDigest ≠ capabilities.digest)

def PlanningContext.new [Blake3] (catalog : CatalogSnapshot) (capabilities : CapabilityManifest)
    (snapshotRequirements : SnapshotRequirements) (logicalScanBound : Option UInt32) :
    Except PlanError PlanningContext :=
  if hbound : logicalScanBound = some 0 then
    .error (.invalidCatalog "logical scan bound must be nonzero")
  else
    match h : driftedShard capabilities catalog.shards with
    | some shard => .error (.capabilityDrift shard.binding.shardId capabilities.digest
        shard.binding.capabilityDigest)
    | none => .ok {
        catalog, capabilities, snapshotRequirements, logicalScanBound
        bound_ne_zero := hbound
        digests := fun shard hshard => by
          simpa using List.find?_eq_none.mp h shard hshard }

/-- A context is accepted when its bound is not zero and its shards are bound to its
capabilities. -/
theorem PlanningContext.new_eq [Blake3] {catalog : CatalogSnapshot}
    {capabilities : CapabilityManifest} {requirements : SnapshotRequirements} {bound : Option UInt32} (hbound : bound ≠ some 0)
    (hdigests : ∀ shard ∈ catalog.shards, shard.binding.capabilityDigest = capabilities.digest) :
    PlanningContext.new catalog capabilities requirements bound =
      .ok ⟨catalog, capabilities, requirements, bound, hbound, hdigests⟩ := by
  have hdrift : driftedShard capabilities catalog.shards = none :=
    List.find?_eq_none.mpr fun shard hshard => by simp [hdigests shard hshard]
  unfold PlanningContext.new
  rw [dif_neg hbound]
  split
  · next shard h => rw [hdrift] at h; cases h
  · rfl

end DtgProxy.Plan

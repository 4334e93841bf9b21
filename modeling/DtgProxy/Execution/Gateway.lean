import DtgProxy.Plan.Catalog

/-! # The planning context of a Gateway

A Gateway plans its queries against one planning context.  A catalog update replaces the
context, and an acknowledged `CREATE` moves its snapshot on to what was committed.
-/
namespace DtgProxy.Execution

open Kernel Storage Lib Plan

inductive GatewayRetry where
  | never
  | safe
  | replay
deriving DecidableEq, Repr

structure GatewayExecutionError where
  code : String
  message : String
  retry : GatewayRetry
deriving DecidableEq, Repr

/-- A value of the Gateway has the constructors of a property value: both are one type here. -/
abbrev GatewayValue := Value

/-! ## Catalog updates -/

def catalogError (kind message : String) : GatewayExecutionError :=
  ⟨"DTG-EXECUTION-CATALOG-" ++ kind, message, .never⟩

section

variable [Blake3]

def samePlanningContext (current next : PlanningContext) : Bool :=
  decide (current.catalog.version = next.catalog.version ∧
    current.catalog.schemaVersion = next.catalog.schemaVersion ∧
    current.catalog.graphId = next.catalog.graphId ∧
    current.catalog.backendProvider = next.catalog.backendProvider ∧
    current.catalog.shards = next.catalog.shards ∧ current.capabilities = next.capabilities ∧
    current.snapshotRequirements = next.snapshotRequirements ∧
    current.logicalScanBound = next.logicalScanBound)

/-- What an update may not do to a shard that is routed already. -/
def validateShardUpdate (nextShards : List CatalogShard) (shard : CatalogShard) :
    Except GatewayExecutionError Unit :=
  match nextShards.find? fun next => next.binding.shardId = shard.binding.shardId with
  | none =>
    .error (catalogError "SHARD-REMOVED" "catalog update removed a previously routed Shard")
  | some next =>
    if next.binding.placementEpoch < shard.binding.placementEpoch then
      .error (catalogError "EPOCH-REGRESSION" "catalog placement epoch regressed")
    else if next.binding.backendGeneration < shard.binding.backendGeneration then
      .error (catalogError "GENERATION-REGRESSION" "catalog backend generation regressed")
    else if next.binding.placementEpoch = shard.binding.placementEpoch ∧
        next.binding.backendGeneration ≠ shard.binding.backendGeneration then
      .error (catalogError "GENERATION-CONFLICT"
        "backend generation changed without a new placement epoch")
    else .ok ()

def validatePlanningContextUpdate (current next : PlanningContext) :
    Except GatewayExecutionError Unit :=
  if next.catalog.version < current.catalog.version then
    .error (catalogError "REVISION-REGRESSION" "catalog revision regressed")
  else if next.catalog.version = current.catalog.version then
    if samePlanningContext current next then .ok ()
    else .error (catalogError "REVISION-CONFLICT"
      "equal catalog revisions contain different planning state")
  else if next.catalog.graphId ≠ current.catalog.graphId then
    .error (catalogError "GRAPH-CONFLICT" "catalog update changed the configured graph")
  else current.catalog.shards.forM (validateShardUpdate next.catalog.shards)

/-- The new context, with whether it differs from the current one. -/
def installPlanningContext (current next : PlanningContext) :
    Except GatewayExecutionError (Bool × PlanningContext) := do
  validatePlanningContextUpdate current next
  if samePlanningContext current next then .ok (false, current) else .ok (true, next)

end

/-! ## Acknowledged writes -/

structure ProcessWriteOutcome where
  binding : ReplicaBinding
  appliedIndex : ℕ
  commitTime : TransactionTime
  replayed : Bool
deriving DecidableEq

def processWriteError (message : String) : GatewayExecutionError :=
  ⟨"DTG-EXECUTION-WRITE", message, .never⟩

def incrementedBound (bound : UInt32) : UInt32 :=
  if bound.toNat + 1 < 2 ^ 32 then bound + 1 else bound

theorem toNat_incrementedBound (bound : UInt32) :
    (incrementedBound bound).toNat = min (bound.toNat + 1) (2 ^ 32 - 1) := by
  have hlt := bound.toNat_lt
  unfold incrementedBound
  split_ifs with h
  · rw [UInt32.toNat_add, UInt32.toNat_one, Nat.mod_eq_of_lt h]
    omega
  · omega

theorem incrementedBound_ne_zero (bound : UInt32) : incrementedBound bound ≠ 0 := by
  intro h
  have hzero := toNat_incrementedBound bound
  rw [h, UInt32.toNat_zero] at hzero
  omega

/-- The scan bound after a write, which counts its row when it is new. -/
def advancedBound (incrementBound : Bool) (bound : Option UInt32) : Option UInt32 :=
  bound.map fun bound => if incrementBound then incrementedBound bound else bound

theorem advancedBound_ne_zero {bound : Option UInt32} (hbound : bound ≠ some 0)
    (incrementBound : Bool) : advancedBound incrementBound bound ≠ some 0 := by
  unfold advancedBound
  cases bound with
  | none => simp
  | some bound =>
    cases incrementBound with
    | false => simpa using hbound
    | true => simpa using incrementedBound_ne_zero bound

section

variable [Blake3]
variable {current next : PlanningContext}

def advanceProcessSnapshot (current : PlanningContext) (outcome : ProcessWriteOutcome)
    (incrementBound : Bool) : Except GatewayExecutionError PlanningContext :=
  match current.catalog.shards with
  | [shard] =>
    if shard.binding ≠ outcome.binding then
      .error ⟨"DTG-EXECUTION-WRITE-CATALOG-RACE",
        "process CREATE committed against a replaced catalog binding", .safe⟩
    else
      let appliedIndex := max shard.appliedIndex outcome.appliedIndex
      let transactionTime := max current.snapshotRequirements.transactionTime outcome.commitTime
      let logicalScanBound := advancedBound incrementBound current.logicalScanBound
      if appliedIndex = shard.appliedIndex ∧
          transactionTime = current.snapshotRequirements.transactionTime ∧
          logicalScanBound = current.logicalScanBound then .ok current
      else do
        let catalog ← (CatalogSnapshot.new current.catalog.version current.catalog.schemaVersion
          [⟨outcome.binding, appliedIndex⟩]).mapError fun e => processWriteError e.message
        (PlanningContext.new catalog current.capabilities
          ⟨transactionTime, current.snapshotRequirements.validAt,
            current.snapshotRequirements.immutable⟩ logicalScanBound).mapError
              fun e => processWriteError e.message
  | _ => .error (processWriteError "process CREATE completed outside a singleton catalog")

/-! ## What the steps do -/

theorem samePlanningContext_iff :
    samePlanningContext current next = true ↔ current = next := by
  obtain ⟨⟨_, _, _, _, _, _, _, _, _⟩, _, _, _, _, _⟩ := current
  obtain ⟨⟨_, _, _, _, _, _, _, _, _⟩, _, _, _, _, _⟩ := next
  simp only [samePlanningContext, decide_eq_true_eq, PlanningContext.mk.injEq,
    CatalogSnapshot.mk.injEq]
  tauto

theorem installPlanningContext_eq (h : validatePlanningContextUpdate current next = .ok ()) :
    ∃ changed, installPlanningContext current next = .ok (changed, next) := by
  unfold installPlanningContext
  rw [h]
  by_cases hsame : samePlanningContext current next = true
  · obtain rfl := samePlanningContext_iff.mp hsame
    exact ⟨false, by simp [hsame, Bind.bind, Except.bind]⟩
  · exact ⟨true, by simp [hsame, Bind.bind, Except.bind]⟩

theorem installPlanningContext_eq_ok {result : PlanningContext} {changed : Bool}
    (h : installPlanningContext current next = .ok (changed, result)) :
    validatePlanningContextUpdate current next = .ok () ∧ result = next := by
  obtain ⟨⟨⟩, hvalid, -⟩ := Result.bind_eq_ok.mp h
  obtain ⟨changed', heq⟩ := installPlanningContext_eq hvalid
  rw [heq, Except.ok.injEq, Prod.mk.injEq] at h
  exact ⟨hvalid, h.2.symm⟩

/-- The context after a write: the snapshot of its one shard has moved on. -/
structure Advanced (current : PlanningContext) (outcome : ProcessWriteOutcome)
    (incrementBound : Bool) (shard : CatalogShard) (next : PlanningContext) : Prop where
  shards : next.catalog.shards = [⟨shard.binding, max shard.appliedIndex outcome.appliedIndex⟩]
  version : next.catalog.version = current.catalog.version
  transactionTime : next.snapshotRequirements.transactionTime =
    max current.snapshotRequirements.transactionTime outcome.commitTime
  validAt : next.snapshotRequirements.validAt = current.snapshotRequirements.validAt
  bound : next.logicalScanBound = advancedBound incrementBound current.logicalScanBound

/-- A write of the one shard of the catalog always moves the snapshot on. -/
theorem advanceProcessSnapshot_eq (current : PlanningContext) (outcome : ProcessWriteOutcome)
    (incrementBound : Bool) {shard : CatalogShard} (hshards : current.catalog.shards = [shard])
    (hbinding : shard.binding = outcome.binding) :
    ∃ next, advanceProcessSnapshot current outcome incrementBound = .ok next ∧
      Advanced current outcome incrementBound shard next := by
  have hmem : shard ∈ current.catalog.shards := by simp [hshards]
  simp only [advanceProcessSnapshot, hshards]
  rw [if_neg (not_not.mpr hbinding)]
  split_ifs with hsame
  · obtain ⟨hindex, htime, hbound⟩ := hsame
    exact ⟨current, rfl, by rw [hindex, hshards], rfl, htime.symm, rfl, hbound.symm⟩
  · have hrole : outcome.binding.role = .active :=
      hbinding ▸ (current.catalog.conforms shard hmem).1
    obtain ⟨catalog, hcatalog, hversion, hcatalogShards⟩ :=
      @CatalogSnapshot.new_singleton _ _
        ⟨outcome.binding, max shard.appliedIndex outcome.appliedIndex⟩
        current.catalog.versions_ne_zero hrole
    have hdigests : ∀ next ∈ catalog.shards,
        next.binding.capabilityDigest = current.capabilities.digest := by
      intro next hnext
      rw [hcatalogShards, List.mem_singleton] at hnext
      rw [hnext, ← hbinding, current.digests shard hmem]
    have hbound := advancedBound_ne_zero current.bound_ne_zero incrementBound
    rw [hcatalog]
    refine ⟨_, congrArg (Except.mapError fun e => processWriteError (PlanError.message e))
      (PlanningContext.new_eq hbound hdigests), ?_⟩
    exact ⟨by rw [hcatalogShards, hbinding], hversion, rfl, rfl, rfl⟩

theorem advanceProcessSnapshot_eq_ok {outcome : ProcessWriteOutcome} {incrementBound : Bool}
    (h : advanceProcessSnapshot current outcome incrementBound = .ok next) :
    ∃ shard, current.catalog.shards = [shard] ∧ shard.binding = outcome.binding ∧
      Advanced current outcome incrementBound shard next := by
  have hsingle : ∃ shard, current.catalog.shards = [shard] ∧ shard.binding = outcome.binding := by
    simp only [advanceProcessSnapshot] at h
    split at h
    · next shard hshards =>
      refine ⟨shard, hshards, ?_⟩
      by_contra hne
      rw [if_pos hne] at h
      cases h
    · cases h
  obtain ⟨shard, hshards, hbinding⟩ := hsingle
  obtain ⟨result, hresult, hadvanced⟩ :=
    advanceProcessSnapshot_eq current outcome incrementBound hshards hbinding
  rw [h, Except.ok.injEq] at hresult
  exact ⟨shard, hshards, hbinding, hresult ▸ hadvanced⟩

end

end DtgProxy.Execution

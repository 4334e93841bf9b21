import DtgProxy.Control.Catalog

/-! # The control action ledger

Actions of the reconciler are recorded under the digest of the catalog version
and the action itself.  A worker claims an action under a lease, and completes it
or reports a failure under the same lease.  A refused command changes nothing.
-/
namespace DtgProxy.Control

open Kernel Lib Storage MutationDigest

/-- A checked namespace identifier. -/
@[ext] structure NamespaceId where
  text : String
  valid : isBoundedName text = true

instance : DecidableEq NamespaceId := fun _ _ => decidable_of_iff _ NamespaceId.ext_iff.symm

/-- The replica an action is aimed at. -/
@[ext] structure ReplicaTarget where
  graphId : GraphId
  shardId : ShardId
  placementEpoch : PlacementEpoch
  backendGeneration : BackendGeneration
  replicaId : ReplicaId
deriving DecidableEq

inductive ReconcileAction where
  | allocate (binding : BuiltBinding)
  | startLearner (target : ReplicaTarget)
  | promote (target : ReplicaTarget)
  | transferLeader (graphId : GraphId) (shardId : ShardId) (placementEpoch : PlacementEpoch)
      (source destination : ReplicaId)
  | seal (target : ReplicaTarget)
  | migrate (graphId : GraphId) (shardId : ShardId) (placementEpoch : PlacementEpoch)
      (fromGeneration toGeneration : BackendGeneration)
  | deleteNamespace (target : ReplicaTarget) (namespaceId : NamespaceId)
deriving DecidableEq

abbrev ActionId := Digest32

@[ext] structure ActionLease where
  epoch : UInt64
  expiresAt : UInt64
deriving DecidableEq

@[ext] structure ActionFailure where
  message : String
  retryable : Bool
deriving DecidableEq

inductive ActionState where
  | pending (attempt : UInt32)
  | claimed (attempt : UInt32) (worker : String) (lease : ActionLease)
  | completed (attempt : UInt32) (lease : ActionLease)
  | failed (attempt : UInt32) (failure : ActionFailure)
deriving DecidableEq

@[ext] structure ActionRecord where
  actionId : ActionId
  catalogVersion : UInt64
  action : ReconcileAction
  state : ActionState
deriving DecidableEq

inductive ActionCommand where
  | enqueue (catalogVersion : UInt64) (action : ReconcileAction)
  | claim (actionId : ActionId) (worker : String) (now leaseDuration : UInt64)
  | complete (actionId : ActionId) (lease : ActionLease)
  | fail (actionId : ActionId) (lease : ActionLease) (failure : ActionFailure)
deriving DecidableEq

namespace ReplicaTarget

def toBytes (target : ReplicaTarget) : List UInt8 :=
  target.graphId.toBytes ++ target.shardId.toBytes ++ target.placementEpoch.toBytes ++
    target.backendGeneration.toBytes ++ target.replicaId.toBytes

end ReplicaTarget

section Identity

variable [Blake3]

/-- What an action adds to the preimage of its identifier. -/
def ReconcileAction.toBytes : ReconcileAction → List UInt8
  | .allocate binding => 1 :: binding.binding.identityDigest.bytes
  | .startLearner target => 2 :: target.toBytes
  | .promote target => 3 :: target.toBytes
  | .transferLeader graphId shardId placementEpoch source destination =>
    4 :: (graphId.toBytes ++ shardId.toBytes ++ placementEpoch.toBytes ++ source.toBytes ++
      destination.toBytes)
  | .seal target => 5 :: target.toBytes
  | .migrate graphId shardId placementEpoch source destination =>
    6 :: (graphId.toBytes ++ shardId.toBytes ++ placementEpoch.toBytes ++ source.toBytes ++
      destination.toBytes)
  | .deleteNamespace target namespaceId =>
    7 :: (target.toBytes ++ encodeString namespaceId.text)

def actionId (catalogVersion : UInt64) (action : ReconcileAction) : ActionId :=
  Blake3.hash (utf8 "dtg-control-action-v1" ++ encodeU64 catalogVersion.toNat ++ action.toBytes)

end Identity

@[ext] structure ControlActionLedger where
  records : OrderedMap ActionId ActionRecord

namespace ControlActionLedger

def new : ControlActionLedger := ⟨∅⟩

/-- Stores a record under a new state and returns it. -/
def moveTo (ledger : ControlActionLedger) (record : ActionRecord) (id : ActionId)
    (state : ActionState) : Except ControlError (ActionRecord × ControlActionLedger) :=
  let next := { record with state }
  .ok (next, ⟨ledger.records.insert id next⟩)

def enqueue [Blake3] (ledger : ControlActionLedger) (catalogVersion : UInt64)
    (action : ReconcileAction) : Except ControlError (ActionRecord × ControlActionLedger) :=
  let id := actionId catalogVersion action
  match ledger.records[id]? with
  | some record => .ok (record, ledger)
  | none =>
    let record : ActionRecord := ⟨id, catalogVersion, action, .pending 0⟩
    .ok (record, ⟨ledger.records.insert id record⟩)

/-- The attempt a claim continues from, when the state lets it. -/
def priorAttempt (state : ActionState) (now : UInt64) : Except ControlError UInt32 :=
  match state with
  | .pending attempt => .ok attempt
  | .claimed attempt _ lease =>
    if now > lease.expiresAt then .ok attempt
    else .error (.invalidAction "action lease is still active")
  -- A completed action is answered before this is asked.
  | .completed attempt _ => .ok attempt
  | .failed _ _ => .error (.invalidAction "terminal action cannot be claimed")

def claim (ledger : ControlActionLedger) (id : ActionId) (worker : String)
    (now leaseDuration : UInt64) : Except ControlError (ActionRecord × ControlActionLedger) :=
  if Text.isBlank worker || leaseDuration == 0 then
    .error (.invalidAction "claim worker and lease duration must be nonempty")
  else match ledger.records[id]? with
    | none => .error .unknownAction
    | some record =>
      match record.state with
      | .completed _ _ => .ok (record, ledger)
      | state => do
        let prior ← priorAttempt state now
        if 2 ^ 32 ≤ prior.toNat + 1 then .error (.invalidAction "action attempt overflow")
        if 2 ^ 64 ≤ now.toNat + leaseDuration.toNat then
          .error (.invalidAction "action lease overflow")
        ledger.moveTo record id
          (.claimed (prior + 1) worker ⟨(prior + 1).toUInt64, now + leaseDuration⟩)

def complete (ledger : ControlActionLedger) (id : ActionId) (lease : ActionLease) :
    Except ControlError (ActionRecord × ControlActionLedger) :=
  match ledger.records[id]? with
  | none => .error .unknownAction
  | some record =>
    match record.state with
    | .claimed attempt _ active =>
      if active = lease then ledger.moveTo record id (.completed attempt lease)
      else .error .staleActionLease
    | .completed _ active =>
      if active = lease then .ok (record, ledger) else .error .staleActionLease
    | _ => .error .staleActionLease

def fail (ledger : ControlActionLedger) (id : ActionId) (lease : ActionLease)
    (failure : ActionFailure) : Except ControlError (ActionRecord × ControlActionLedger) :=
  match ledger.records[id]? with
  | none => .error .unknownAction
  | some record =>
    match record.state with
    | .claimed attempt _ active =>
      if active = lease then
        ledger.moveTo record id
          (if failure.retryable then .pending attempt else .failed attempt failure)
      else .error .staleActionLease
    | _ => .error .staleActionLease

/-- The state of an action; one that is not in the ledger counts as pending. -/
def state (ledger : ControlActionLedger) (id : ActionId) : ActionState :=
  ledger.records[id]?.elim (.pending 0) ActionRecord.state

variable [Blake3]

/-- The answer to a command and the ledger after it. -/
def apply (ledger : ControlActionLedger) :
    ActionCommand → Except ControlError (ActionRecord × ControlActionLedger)
  | .enqueue catalogVersion action => ledger.enqueue catalogVersion action
  | .claim id worker now leaseDuration => ledger.claim id worker now leaseDuration
  | .complete id lease => ledger.complete id lease
  | .fail id lease failure => ledger.fail id lease failure

end ControlActionLedger

end DtgProxy.Control

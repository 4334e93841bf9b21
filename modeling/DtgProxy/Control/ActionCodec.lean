import DtgProxy.Control.Action
import DtgProxy.Lib.ByteCodec

/-! # The wire format of action commands

Big-endian words, length-prefixed strings and one tag byte per choice.  What
`encodeCurrent` writes, `decode` reads back.
-/
namespace DtgProxy.Control

namespace ActionCodec

open Kernel Lib Storage ByteCodec

/-- Coding steps of the format; there is no budget. -/
abbrev ActionM := ByteM ControlError Unit

def actionCommandFormatVersion : ℕ := 1

def invalid (reason : String) : ControlError := .invalidAction reason

def putU64 (value : UInt64) : ActionM Unit := put (BigEndian.encode 8 value.toNat)
def putU32 (value : UInt32) : ActionM Unit := put (BigEndian.encode 4 value.toNat)
def putId {kind : IdKind} (id : Identifier kind) : ActionM Unit := putU64 id.word

def putString (value : String) : ActionM Unit :=
  if 2 ^ 32 ≤ (utf8 value).length then fail (invalid "string too large")
  else do
    put (BigEndian.encode 4 (utf8 value).length)
    put (utf8 value)

def takeBytes (count : ℕ) : ActionM (List UInt8) := take (invalid "truncated action command") count

def getByte : ActionM UInt8 := do
  let word ← takeBytes 1
  pure (word.headD 0)

def getWord (width : ℕ) : ActionM ℕ := do
  let word ← takeBytes width
  pure (BigEndian.decode word)

def getU64 : ActionM UInt64 := do
  let value ← getWord 8
  pure (UInt64.ofNat value)

def getU32 : ActionM UInt32 := do
  let value ← getWord 4
  pure (UInt32.ofNat value)

def getDigest : ActionM Digest32 := do
  let word ← takeBytes 32
  if h : word.length = 32 then pure ⟨word, h⟩ else fail (invalid "truncated action command")

def getString : ActionM String := do
  let length ← getWord 4
  let word ← takeBytes length
  match String.fromUTF8? ⟨word.toArray⟩ with
  | some value => pure value
  | none => fail (invalid "invalid UTF-8")

/-- Continues with the value of a check, or fails as it does. -/
def accept {α : Type} : Except ControlError α → ActionM α
  | .ok value => pure value
  | .error e => fail e

/-- An identifier; `what` names it in the error for a zero word. -/
def getId {kind : IdKind} (what : String) : ActionM (Identifier kind) := do
  let value ← getU64
  accept (Identifier.ofWord value (invalid ("invalid " ++ what)))

/-! ## Leases, targets, bindings and actions -/

def putLease (lease : ActionLease) : ActionM Unit := do
  putU64 lease.epoch
  putU64 lease.expiresAt

def getLease : ActionM ActionLease := do
  let epoch ← getU64
  let expiresAt ← getU64
  pure ⟨epoch, expiresAt⟩

def putTarget (target : ReplicaTarget) : ActionM Unit := do
  putId target.graphId
  putId target.shardId
  putId target.placementEpoch
  putId target.backendGeneration
  putId target.replicaId

def getTarget : ActionM ReplicaTarget := do
  let graphId ← getId "graph ID"
  let shardId ← getId "shard ID"
  let placementEpoch ← getId "placement epoch"
  let backendGeneration ← getId "generation"
  let replicaId ← getId "replica ID"
  pure ⟨graphId, shardId, placementEpoch, backendGeneration, replicaId⟩

def putProvider : ProviderKind → ActionM Unit
  | .fjall => put [1]
  | .postgreSql => put [2]
  | .kuzu => put [3]
  | .remote name => do
    put [4]
    putString name

def getProvider : ActionM ProviderKind := do
  let tag ← getByte
  match tag.toNat with
  | 1 => pure .fjall
  | 2 => pure .postgreSql
  | 3 => pure .kuzu
  | 4 => do
    let name ← getString
    pure (.remote name)
  | _ => fail (invalid "invalid provider")

def getRole : ActionM BindingRole := do
  let tag ← getByte
  match tag.toNat with
  | 1 => pure .candidate
  | 2 => pure .active
  | 3 => pure .retiring
  | _ => fail (invalid "invalid binding role")

def putBinding (built : BuiltBinding) : ActionM Unit := do
  putId built.binding.clusterId
  putId built.binding.graphId
  putId built.binding.shardId
  putId built.binding.placementEpoch
  putId built.binding.replicaId
  putId built.binding.backendGeneration
  put built.binding.backendClassDigest.bytes
  putProvider built.binding.providerKind
  putU32 built.binding.contractVersion
  putU32 built.binding.layoutVersion
  put built.binding.capabilityDigest.bytes
  putString built.binding.namespaceId
  putString built.binding.endpointProfileRef
  putString built.binding.credentialRef
  put [built.binding.role.tag]

def getBinding : ActionM BuiltBinding := do
  let clusterId ← getU64
  let graphId ← getU64
  let shardId ← getU64
  let placementEpoch ← getU64
  let replicaId ← getU64
  let backendGeneration ← getU64
  let backendClassDigest ← getDigest
  let providerKind ← getProvider
  let contractVersion ← getU32
  let layoutVersion ← getU32
  let capabilityDigest ← getDigest
  let namespaceId ← getString
  let endpointProfileRef ← getString
  let credentialRef ← getString
  let role ← getRole
  accept ((ReplicaBindingBuilder.build ⟨clusterId, graphId, shardId, placementEpoch, replicaId,
    backendGeneration, backendClassDigest, providerKind, contractVersion, layoutVersion,
    capabilityDigest, namespaceId, endpointProfileRef, credentialRef, role⟩).mapError
      fun _ => invalid "invalid replica binding")

def putAction : ReconcileAction → ActionM Unit
  | .allocate binding => do
    put [1]
    putBinding binding
  | .startLearner target => do
    put [2]
    putTarget target
  | .promote target => do
    put [3]
    putTarget target
  | .transferLeader graphId shardId placementEpoch source destination => do
    put [4]
    putId graphId
    putId shardId
    putId placementEpoch
    putId source
    putId destination
  | .seal target => do
    put [5]
    putTarget target
  | .migrate graphId shardId placementEpoch source destination => do
    put [6]
    putId graphId
    putId shardId
    putId placementEpoch
    putId source
    putId destination
  | .deleteNamespace target namespaceId => do
    put [7]
    putTarget target
    putString namespaceId.text

def getNamespaceId : ActionM NamespaceId := do
  let text ← getString
  if h : isBoundedName text = true then pure ⟨text, h⟩ else fail (invalid "invalid namespace")

def getAction : ActionM ReconcileAction := do
  let tag ← getByte
  match tag.toNat with
  | 1 => do
    let binding ← getBinding
    pure (.allocate binding)
  | 2 => do
    let target ← getTarget
    pure (.startLearner target)
  | 3 => do
    let target ← getTarget
    pure (.promote target)
  | 4 => do
    let graphId ← getId "graph ID"
    let shardId ← getId "shard ID"
    let placementEpoch ← getId "placement epoch"
    let source ← getId "replica ID"
    let destination ← getId "replica ID"
    pure (.transferLeader graphId shardId placementEpoch source destination)
  | 5 => do
    let target ← getTarget
    pure (.seal target)
  | 6 => do
    let graphId ← getId "graph ID"
    let shardId ← getId "shard ID"
    let placementEpoch ← getId "placement epoch"
    let source ← getId "generation"
    let destination ← getId "generation"
    pure (.migrate graphId shardId placementEpoch source destination)
  | 7 => do
    let target ← getTarget
    let namespaceId ← getNamespaceId
    pure (.deleteNamespace target namespaceId)
  | _ => fail (invalid "unknown reconcile action tag")

def putCommand (command : ActionCommand) : ActionM Unit := do
  put (BigEndian.encode 4 actionCommandFormatVersion)
  match command with
  | .enqueue catalogVersion action => do
    put [1]
    putU64 catalogVersion
    putAction action
  | .claim actionId worker now leaseDuration => do
    put [2]
    put actionId.bytes
    putString worker
    putU64 now
    putU64 leaseDuration
  | .complete actionId lease => do
    put [3]
    put actionId.bytes
    putLease lease
  | .fail actionId lease failure => do
    put [4]
    put actionId.bytes
    putLease lease
    put [if failure.retryable then 1 else 0]
    putString failure.message

def getRetryable : ActionM Bool := do
  let flag ← getByte
  match flag.toNat with
  | 0 => pure false
  | 1 => pure true
  | _ => fail (invalid "invalid failure retry flag")

def getCommand : ActionM ActionCommand := do
  let version ← getWord 4
  if version ≠ actionCommandFormatVersion then
    fail (invalid "unsupported action command format version")
  else do
    let tag ← getByte
    match tag.toNat with
    | 1 => do
      let catalogVersion ← getU64
      let action ← getAction
      pure (.enqueue catalogVersion action)
    | 2 => do
      let actionId ← getDigest
      let worker ← getString
      let now ← getU64
      let leaseDuration ← getU64
      pure (.claim actionId worker now leaseDuration)
    | 3 => do
      let actionId ← getDigest
      let lease ← getLease
      pure (.complete actionId lease)
    | 4 => do
      let actionId ← getDigest
      let lease ← getLease
      let retryable ← getRetryable
      let message ← getString
      pure (.fail actionId lease ⟨message, retryable⟩)
    | _ => fail (invalid "unknown action command tag")

end ActionCodec

namespace ActionCommand

open Lib ByteCodec ActionCodec

def encodeCurrent (command : ActionCommand) : Except ControlError (List UInt8) := do
  let (_, bytes, _) ← putCommand command ([], ())
  .ok bytes

def decode (bytes : List UInt8) : Except ControlError ActionCommand := do
  let (command, rest, _) ← getCommand (bytes, ())
  if rest.isEmpty then .ok command
  else .error (.invalidAction "action command contains trailing bytes")

end ActionCommand

namespace ActionCodec

open Kernel Lib Storage ByteCodec

/-! ## Reading back -/

section RoundTrip

theorem writes_byte (value : UInt8) : WritesWord (put [value] : ActionM Unit) getByte value :=
  writes_put fun s => (reads_take [value] s rfl).then rfl

theorem reads_word {width value : ℕ} (h : value < 256 ^ width) (s : Unit) :
    Reads (getWord width) value (BigEndian.encode width value) s s :=
  (reads_take _ s (BigEndian.length_encode width value)).then
    (by rw [BigEndian.decode_encode h])

theorem writes_u64 (value : UInt64) : WritesWord (putU64 value) getU64 value :=
  writes_put fun s => (reads_word value.toNat_lt s).then (by rw [UInt64.ofNat_toNat])

theorem writes_u32 (value : UInt32) : WritesWord (putU32 value) getU32 value :=
  writes_put fun s => (reads_word value.toNat_lt s).then (by rw [UInt32.ofNat_toNat])

theorem writes_digest (digest : Digest32) :
    WritesWord (put digest.bytes : ActionM Unit) getDigest digest :=
  writes_put fun s => (reads_take _ s digest.length_bytes).then (dif_pos digest.length_bytes)

theorem writes_string (value : String) : WritesWord (putString value) getString value := by
  refine WritesWord.guard fun hlength => ?_
  have hcount : WritesWord (put (BigEndian.encode 4 (utf8 value).length) : ActionM Unit)
      (getWord 4) (utf8 value).length :=
    writes_put (reads_word (by omega))
  refine hcount.bindWord (writes_put fun s => (reads_take _ s rfl).then ?_)
  rw [fromUTF8_utf8]

theorem writes_id {kind : IdKind} (id : Identifier kind) (what : String) (hkind : kind.bytes = 8) :
    WritesWord (putId id) (getId what) id :=
  (writes_u64 id.word).then (by rw [Identifier.ofWord_word id _ hkind]; rfl)

theorem writes_lease (lease : ActionLease) : WritesWord (putLease lease) getLease lease :=
  (writes_u64 _).bindWord ((writes_u64 _).then rfl)

theorem writes_target (target : ReplicaTarget) : WritesWord (putTarget target) getTarget target :=
  (writes_id _ _ rfl).bindWord ((writes_id _ _ rfl).bindWord ((writes_id _ _ rfl).bindWord
    ((writes_id _ _ rfl).bindWord ((writes_id _ _ rfl).then rfl))))

theorem writes_provider (provider : ProviderKind) :
    WritesWord (putProvider provider) getProvider provider := by
  cases provider with
  | fjall => exact (writes_byte 1).then rfl
  | postgreSql => exact (writes_byte 2).then rfl
  | kuzu => exact (writes_byte 3).then rfl
  | remote name => exact (writes_byte 4).bindWord ((writes_string name).then rfl)

theorem writes_role (role : BindingRole) :
    WritesWord (put [role.tag] : ActionM Unit) getRole role := by
  cases role with
  | candidate => exact (writes_byte 1).then rfl
  | active => exact (writes_byte 2).then rfl
  | retiring => exact (writes_byte 3).then rfl

theorem writes_binding (built : BuiltBinding) :
    WritesWord (putBinding built) getBinding built := by
  refine (writes_u64 _).bindWord ((writes_u64 _).bindWord ((writes_u64 _).bindWord
    ((writes_u64 _).bindWord ((writes_u64 _).bindWord ((writes_u64 _).bindWord
    ((writes_digest _).bindWord ((writes_provider _).bindWord ((writes_u32 _).bindWord
    ((writes_u32 _).bindWord ((writes_digest _).bindWord ((writes_string _).bindWord
    ((writes_string _).bindWord ((writes_string _).bindWord
    ((writes_role _).then ?_))))))))))))))
  change accept (built.toBuilder.build.mapError _) = _
  rw [built.build_toBuilder]
  rfl

theorem writes_namespaceId (namespaceId : NamespaceId) :
    WritesWord (putString namespaceId.text) getNamespaceId namespaceId :=
  (writes_string _).then (dif_pos namespaceId.valid)

theorem writes_action (action : ReconcileAction) :
    WritesWord (putAction action) getAction action := by
  cases action with
  | allocate => exact (writes_byte 1).bindWord ((writes_binding _).then rfl)
  | startLearner => exact (writes_byte 2).bindWord ((writes_target _).then rfl)
  | promote => exact (writes_byte 3).bindWord ((writes_target _).then rfl)
  | transferLeader =>
    exact (writes_byte 4).bindWord ((writes_id _ _ rfl).bindWord ((writes_id _ _ rfl).bindWord
      ((writes_id _ _ rfl).bindWord ((writes_id _ _ rfl).bindWord ((writes_id _ _ rfl).then rfl)))))
  | «seal» target => exact (writes_byte 5).bindWord ((writes_target _).then rfl)
  | migrate =>
    exact (writes_byte 6).bindWord ((writes_id _ _ rfl).bindWord ((writes_id _ _ rfl).bindWord
      ((writes_id _ _ rfl).bindWord ((writes_id _ _ rfl).bindWord ((writes_id _ _ rfl).then rfl)))))
  | deleteNamespace target namespaceId =>
    exact (writes_byte 7).bindWord ((writes_target _).bindWord
      ((writes_namespaceId namespaceId).then rfl))

theorem writes_retryable (retryable : Bool) :
    WritesWord (put [if retryable then 1 else 0] : ActionM Unit) getRetryable retryable := by
  cases retryable with
  | false => exact (writes_byte 0).then rfl
  | true => exact (writes_byte 1).then rfl

theorem writes_command (command : ActionCommand) :
    WritesWord (putCommand command) getCommand command := by
  have hversion : WritesWord
      (put (BigEndian.encode 4 actionCommandFormatVersion) : ActionM Unit) (getWord 4)
      actionCommandFormatVersion :=
    writes_put (reads_word (by decide))
  refine hversion.bindWord ?_
  cases command with
  | enqueue =>
    exact (writes_byte 1).bindWord ((writes_u64 _).bindWord ((writes_action _).then rfl))
  | claim =>
    exact (writes_byte 2).bindWord ((writes_digest _).bindWord ((writes_string _).bindWord
      ((writes_u64 _).bindWord ((writes_u64 _).then rfl))))
  | complete =>
    exact (writes_byte 3).bindWord ((writes_digest _).bindWord ((writes_lease _).then rfl))
  | fail =>
    exact (writes_byte 4).bindWord ((writes_digest _).bindWord ((writes_lease _).bindWord
      ((writes_retryable _).bindWord ((writes_string _).then rfl))))

end RoundTrip

end ActionCodec

open Lib in
/-- A command that is written is read back. -/
theorem ActionCommand.decode_encodeCurrent {command : ActionCommand} {bytes : List UInt8}
    (h : command.encodeCurrent = .ok bytes) : decode bytes = .ok command := by
  obtain ⟨⟨_, written, ⟨⟩⟩, hput, hbytes⟩ := Result.bind_eq_ok.mp h
  cases hbytes
  obtain ⟨-, word, hword, hread⟩ := ActionCodec.writes_command command [] () _ () hput
  have hget := hread () []
  subst hword
  rw [List.append_nil] at hget
  rw [decode, hget]
  rfl

end DtgProxy.Control

import DtgProxy.Lib.ByteCodec
import DtgProxy.Storage.ReadView

/-! # The command wire format

Big-endian words, length-prefixed byte strings and counted collections, with a
limit on the encoded size, on nesting depth and on the number of items a
command may allocate.
-/
namespace DtgProxy.Shard

open Kernel Lib Storage ByteCodec

inductive ShardError where
  | invalidCommand (message : String)
  | unsupportedCommandVersion (version : ℕ)
  | invalidRaftState (message : String)
  | snapshotStateMissing (snapshotIndex appliedIndex : ℕ)
  | invalidLifecycle (message : String)
  | duplicateReplica
  | heterogeneousGeneration
  | replicaNotFound
  | raft
  | stalePlacementEpoch (expected actual : ℕ)
  | staleBackendGeneration (expected actual : ℕ)
  | writeConflict
  | homeDecisionConflict
  | corruptIntentHistory (message : String)
  | bindingMismatch
  | storage (error : StorageError)
deriving DecidableEq

def ShardError.ofKernel (error : KernelError) : ShardError := .invalidCommand error.message

/-- The text of an error.  The errors of the `raft` crate are not modelled, so
neither is their text. -/
def ShardError.message : ShardError → String
  | .invalidCommand message => message
  | .unsupportedCommandVersion version => "unsupported Shard command version " ++ toString version
  | .invalidRaftState message => message
  | .snapshotStateMissing snapshotIndex appliedIndex =>
    "snapshot index " ++ toString snapshotIndex ++ " is ahead of business-store applied index " ++
      toString appliedIndex
  | .invalidLifecycle message => message
  | .duplicateReplica => "replica already exists on this host"
  | .heterogeneousGeneration =>
    "replicas in one active Shard generation must share a backend class"
  | .replicaNotFound => "replica is not hosted on this node"
  | .raft => ""
  | .stalePlacementEpoch expected actual =>
    "stale placement epoch: expected " ++ toString expected ++ ", got " ++ toString actual
  | .staleBackendGeneration expected actual =>
    "stale backend generation: expected " ++ toString expected ++ ", got " ++ toString actual
  | .writeConflict => "temporal write conflict"
  | .homeDecisionConflict => "Home decision is already durably resolved differently"
  | .corruptIntentHistory message => message
  | .bindingMismatch => "state store binding does not match replica binding"
  | .storage error => error.message

def invalid (message : String) : ShardError := .invalidCommand message

def maxCommandBytes : ℕ := 16 * 1024 * 1024
def maxCollectionItems : ℕ := 1000000
def maxAllocationItems : ℕ := 65536
def maxValueDepth : ℕ := 64

/-- Coding steps of the command format; the resource is the allocation budget. -/
abbrev CodecM := ByteM ShardError ℕ

namespace Codec

/-! ## Words, byte strings and budgets -/

def consume (count : ℕ) : CodecM Unit :=
  spend fun remaining =>
    if count ≤ remaining then .ok (remaining - count)
    else .error (invalid "command collection exceeds allocation budget")

def putU8 (value : UInt8) : CodecM Unit := put [value]
def putU32 (value : ℕ) : CodecM Unit := put (BigEndian.encode 4 value)
def putU64 (value : UInt64) : CodecM Unit := put (BigEndian.encode 8 value.toNat)
def putI64 (value : Int64) : CodecM Unit := put (BigEndian.encode 8 value.toUInt64.toNat)
def putId {kind : IdKind} (id : Identifier kind) : CodecM Unit := put id.toBytes
def putTime (time : TransactionTime) : CodecM Unit := put time.toBytes

def putBytes (value : List UInt8) : CodecM Unit :=
  if 2 ^ 32 ≤ value.length then fail (invalid "command field exceeds u32 length")
  else (do
    putU32 value.length
    put value) >>= fun _ =>
      check (fun bytes => bytes.length ≤ maxCommandBytes)
        (invalid "command exceeds maximum encoded size")

def putString (value : String) : CodecM Unit := putBytes (utf8 value)

def takeBytes (count : ℕ) : CodecM (List UInt8) := take (invalid "truncated command") count

def getU8 : CodecM UInt8 := do
  let word ← takeBytes 1
  pure (word.headD 0)

def getWord (width : ℕ) : CodecM ℕ := do
  let word ← takeBytes width
  pure (BigEndian.decode word)

def getU32 : CodecM ℕ := getWord 4

def getU64 : CodecM UInt64 := do
  let value ← getWord 8
  pure (UInt64.ofNat value)

def getI64 : CodecM Int64 := do
  let value ← getU64
  pure value.toInt64

/-- An identifier; `zero` is the error for a zero word. -/
def getId (kind : IdKind) (zero : ShardError) : CodecM (Identifier kind) := do
  let value ← getWord kind.bytes
  match Identifier.new value with
  | some id => pure id
  | none => fail zero

/-- The error of the kernel's own identifiers. -/
def zeroIdentifier : ShardError := .ofKernel .zeroIdentifier

def getTime : CodecM TransactionTime := do
  let value ← getI64
  match TransactionTime.new value.toUInt64.toNat with
  | some time => pure time
  | none => fail (.ofKernel (.negativeTransactionTime value))

def getBytes : CodecM (List UInt8) := do
  let length ← getU32
  takeBytes length

def getString : CodecM String := do
  let bytes ← getBytes
  match String.fromUTF8? ⟨bytes.toArray⟩ with
  | some value => pure value
  | none => fail (invalid "command string is not UTF-8")

def getDigest : CodecM Digest32 := do
  let bytes ← getBytes
  if h : bytes.length = 32 then pure ⟨bytes, h⟩
  else fail (invalid "digest must contain exactly 32 bytes")

def getCount : CodecM ℕ := do
  let count ← getU32
  if maxCollectionItems < count then fail (invalid "command collection exceeds item limit")
  else pure count

def getCollectionCount : CodecM ℕ := do
  let count ← getCount
  consume count
  pure count

/-! ## Values -/

/-- A value with the proof that its maps are ordered. -/
abbrev OrderedValue := { value : Value // value.WellFormed }

def depthExceeded : ShardError := invalid "command value exceeds nesting depth budget"

def withinDepth (depth : ℕ) (step : CodecM Unit) : CodecM Unit :=
  if maxValueDepth < depth then fail depthExceeded else step

/-- Writes the length of a collection and spends it from the budget. -/
def putCollection (length : ℕ) (tooLarge : String) (items : CodecM Unit) : CodecM Unit :=
  if maxCollectionItems < length then fail (invalid tooLarge)
  else do
    putU32 length
    consume length
    items

/-- As `putCollection`, for a tagged collection value. -/
def putTagged (tag : UInt8) (length : ℕ) (tooLarge : String) (items : CodecM Unit) :
    CodecM Unit :=
  if maxCollectionItems < length then fail (invalid tooLarge)
  else do
    putU8 tag
    putU32 length
    consume length
    items

mutual

def putValue (depth : ℕ) : Value → CodecM Unit
  | .null => withinDepth depth (putU8 0)
  | .boolean value => withinDepth depth do
    putU8 1
    putU8 (if value then 1 else 0)
  | .integer value => withinDepth depth do
    putU8 2
    putI64 value
  | .floatBits value => withinDepth depth do
    putU8 3
    putU64 value
  | .bytes value => withinDepth depth do
    putU8 4
    putBytes value
  | .string value => withinDepth depth do
    putU8 5
    putString value
  | .list values =>
    withinDepth depth
      (putTagged 6 values.length "value list is too large" (putValues (depth + 1) values))
  | .map entries =>
    withinDepth depth
      (putTagged 7 entries.length "value map is too large" (putEntries (depth + 1) entries))

def putValues (depth : ℕ) : List Value → CodecM Unit
  | [] => pure ()
  | value :: values => do
    putValue depth value
    putValues depth values

def putEntries (depth : ℕ) : List (String × Value) → CodecM Unit
  | [] => pure ()
  | (name, value) :: entries => do
    putString name
    putValue depth value
    putEntries depth entries

end

/-- Reads `count` entries into a map; `duplicate` is the error for a repeated key. -/
def getEntries (duplicate : String) (getValue : CodecM OrderedValue) :
    ℕ → ValueMap → CodecM ValueMap
  | 0, entries => pure entries
  | count + 1, entries => do
    let name ← getString
    let value ← getValue
    match entries.insertNew name value.1 value.2 with
    | some entries' => getEntries duplicate getValue count entries'
    | none => fail (invalid duplicate)

/-- Reads a value.  `fuel` is the nesting that is still allowed: the depth limit
plus one, minus the depth of this value. -/
def getValue : ℕ → CodecM OrderedValue
  | 0 => fail depthExceeded
  | fuel + 1 => do
    let tag ← getU8
    match tag.toNat with
    | 0 => pure ⟨.null, by simp [Value.WellFormed]⟩
    | 1 => do
      let value ← getU8
      match value.toNat with
      | 0 => pure ⟨.boolean false, by simp [Value.WellFormed]⟩
      | 1 => pure ⟨.boolean true, by simp [Value.WellFormed]⟩
      | _ => fail (invalid "invalid Boolean value")
    | 2 => do
      let value ← getI64
      pure ⟨.integer value, by simp [Value.WellFormed]⟩
    | 3 => do
      let value ← getU64
      pure ⟨.floatBits value, by simp [Value.WellFormed]⟩
    | 4 => do
      let value ← getBytes
      pure ⟨.bytes value, by simp [Value.WellFormed]⟩
    | 5 => do
      let value ← getString
      pure ⟨.string value, by simp [Value.WellFormed]⟩
    | 6 => do
      let count ← getCollectionCount
      let values ← decodeMany (getValue fuel) count
      pure ⟨.list (values.map Subtype.val), Value.wellFormed_list values⟩
    | 7 => do
      let count ← getCollectionCount
      let entries ← getEntries "duplicate value-map key" (getValue fuel) count ValueMap.empty
      pure ⟨.map entries.entries, entries.wellFormed_map⟩
    | _ => fail (invalid "unknown value tag")

/-! ## Mutations -/

def putProperties (properties : ValueMap) : CodecM Unit :=
  putCollection properties.entries.length "too many properties"
    (putEntries 0 properties.entries)

def putInterval (interval : ValidInterval) : CodecM Unit := do
  putI64 interval.start
  putI64 interval.stop

def stateTag : TransactionState → UInt8
  | .prepared => 1
  | .committed => 2
  | .aborted => 3

def putTransaction (transaction : TransactionRecord) : CodecM Unit := do
  putId transaction.id
  putU8 (stateTag transaction.state)
  putTime transaction.transactionTime
  putU32 32
  put transaction.recordDigest.bytes

def putMutation : LogicalMutation → CodecM Unit
  | .putVertex vertex => do
    putU8 1
    putId vertex.id
    putU64 vertex.version
    putInterval vertex.validTime
    putTime vertex.transactionTime
    putProperties vertex.properties
  | .deleteVertex tombstone => do
    putU8 2
    putId tombstone.id
    putU64 tombstone.version
    putTime tombstone.transactionTime
  | .putEdge edge => do
    putU8 3
    putId edge.id
    putId edge.source
    putId edge.target
    putString edge.edgeType
    putU64 edge.version
    putInterval edge.validTime
    putTime edge.transactionTime
    putProperties edge.properties
  | .deleteEdge tombstone => do
    putU8 4
    putId tombstone.id
    putU64 tombstone.version
    putTime tombstone.transactionTime
  | .putTransaction transaction => do
    putU8 5
    putId transaction.id
    putU8 (stateTag transaction.state)
    putTime transaction.transactionTime
    putBytes transaction.recordDigest.bytes
  | .putReplicaMetadata metadata => do
    putU8 6
    putString metadata.name
    putValue 0 metadata.value

/-- Writes a list of mutations under a fresh allocation budget. -/
def putMutations (mutations : List LogicalMutation) : CodecM Unit :=
  if maxCollectionItems < mutations.length then fail (invalid "too many logical mutations")
  else do
    putU32 mutations.length
    spend fun _ => .ok maxAllocationItems
    consume mutations.length
    encodeAll putMutation mutations

def getProperties : CodecM ValueMap := do
  let count ← getCollectionCount
  getEntries "duplicate property name" (getValue (maxValueDepth + 1)) count ValueMap.empty

def getInterval : CodecM ValidInterval := do
  let start ← getI64
  let stop ← getI64
  if h : start < stop then pure ⟨start, stop, h⟩
  else fail (.ofKernel (.invalidInterval start stop))

def getState : CodecM TransactionState := do
  let tag ← getU8
  match tag.toNat with
  | 1 => pure .prepared
  | 2 => pure .committed
  | 3 => pure .aborted
  | _ => fail (invalid "unknown transaction state")

def getTransaction : CodecM TransactionRecord := do
  let id ← getId .transaction zeroIdentifier
  let state ← getState
  let transactionTime ← getTime
  let digest ← getDigest
  if h : digest ≠ Digest32.zero then pure ⟨id, state, transactionTime, digest, h⟩
  else fail (.storage (.invalidMutation "transaction record digest must be nonzero"))

def zeroVertex : ShardError := .storage (.invalidMutation "vertex identifier must be nonzero")
def zeroEdge : ShardError := .storage (.invalidMutation "edge identifier must be nonzero")
def unnamedProperty : ShardError := .storage (.invalidMutation "property names must be nonempty")

def getVertexVersion : CodecM VertexVersion := do
  let id ← getId .vertex zeroVertex
  let version ← getU64
  let validTime ← getInterval
  let transactionTime ← getTime
  let properties ← getProperties
  if h : ∀ entry ∈ properties.entries, entry.1 ≠ "" then
    pure ⟨id, version, validTime, transactionTime, properties, h⟩
  else fail unnamedProperty

def getVertexTombstone : CodecM VertexTombstone := do
  let id ← getId .vertex zeroVertex
  let version ← getU64
  let transactionTime ← getTime
  pure ⟨id, version, transactionTime⟩

def getEdgeVersion : CodecM EdgeVersion := do
  let id ← getId .edge zeroEdge
  let source ← getId .vertex zeroVertex
  let target ← getId .vertex zeroVertex
  let edgeType ← getString
  let version ← getU64
  let validTime ← getInterval
  let transactionTime ← getTime
  let properties ← getProperties
  if htyped : edgeType ≠ "" then
    if h : ∀ entry ∈ properties.entries, entry.1 ≠ "" then
      pure ⟨id, source, target, edgeType, version, validTime, transactionTime, properties,
        htyped, h⟩
    else fail unnamedProperty
  else fail (.storage (.invalidMutation "edge type must be nonempty"))

def getEdgeTombstone : CodecM EdgeTombstone := do
  let id ← getId .edge zeroEdge
  let version ← getU64
  let transactionTime ← getTime
  pure ⟨id, version, transactionTime⟩

def getMetadata : CodecM ReplicaMetadata := do
  let name ← getString
  let value ← getValue (maxValueDepth + 1)
  if h : name ≠ "" then pure ⟨name, value.1, h, value.2⟩
  else fail (.storage (.invalidMutation "replica metadata name must be nonempty"))

def getMutation : CodecM LogicalMutation := do
  let tag ← getU8
  match tag.toNat with
  | 1 => .putVertex <$> getVertexVersion
  | 2 => .deleteVertex <$> getVertexTombstone
  | 3 => .putEdge <$> getEdgeVersion
  | 4 => .deleteEdge <$> getEdgeTombstone
  | 5 => .putTransaction <$> getTransaction
  | 6 => .putReplicaMetadata <$> getMetadata
  | _ => fail (invalid "unknown logical mutation tag")

def getMutationsWithLimit (limit : ℕ) (limitMessage : String) : CodecM (List LogicalMutation) := do
  let count ← getCount
  if limit < count then fail (invalid limitMessage)
  else do
    consume count
    decodeMany getMutation count

def getMutations : CodecM (List LogicalMutation) :=
  getMutationsWithLimit maxCollectionItems "command collection exceeds item limit"

/-- Runs an encoder on an empty buffer and checks the final size. -/
def encode (step : CodecM Unit) : Except ShardError (List UInt8) :=
  match step ([], maxAllocationItems) with
  | .error error => .error error
  | .ok ((), bytes, _) =>
    if maxCommandBytes < bytes.length then .error (invalid "command exceeds maximum encoded size")
    else .ok bytes

/-- Runs a decoder on a whole message; nothing may be left over. -/
def decode {α : Type} (step : CodecM α) (bytes : List UInt8) : Except ShardError α :=
  if bytes.isEmpty ∨ maxCommandBytes < bytes.length then
    .error (invalid "command bytes are empty or oversized")
  else
    match step (bytes, maxAllocationItems) with
    | .error error => .error error
    | .ok (value, rest, _) =>
      if rest.isEmpty then .ok value else .error (invalid "command contains trailing bytes")

end Codec

end DtgProxy.Shard

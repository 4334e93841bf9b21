import DtgProxy.Kernel.Value

/-! # Logical mutations

The typed mutations a committed batch carries, with the conditions their
constructors check as fields, and the digest that identifies a batch's
mutations.
-/
namespace DtgProxy.Storage

open Kernel Lib

@[ext] structure VertexVersion where
  id : VertexId
  version : UInt64
  validTime : ValidInterval
  transactionTime : TransactionTime
  properties : ValueMap
  named : ∀ entry ∈ properties.entries, entry.1 ≠ ""
deriving DecidableEq, Repr

@[ext] structure EdgeVersion where
  id : EdgeId
  source : VertexId
  target : VertexId
  edgeType : String
  version : UInt64
  validTime : ValidInterval
  transactionTime : TransactionTime
  properties : ValueMap
  typed : edgeType ≠ ""
  named : ∀ entry ∈ properties.entries, entry.1 ≠ ""
deriving DecidableEq, Repr

def VertexVersion.plain (id : VertexId) (validTime : ValidInterval)
    (transactionTime : TransactionTime) : VertexVersion :=
  ⟨id, 1, validTime, transactionTime, .empty, fun _ h => absurd h List.not_mem_nil⟩

def EdgeVersion.plain (id : EdgeId) (source target : VertexId) (validTime : ValidInterval)
    (transactionTime : TransactionTime) : EdgeVersion :=
  ⟨id, source, target, "KNOWS", 1, validTime, transactionTime, .empty, by decide,
    fun _ h => absurd h List.not_mem_nil⟩

@[ext] structure VertexTombstone where
  id : VertexId
  version : UInt64
  transactionTime : TransactionTime
deriving DecidableEq, Repr

@[ext] structure EdgeTombstone where
  id : EdgeId
  version : UInt64
  transactionTime : TransactionTime
deriving DecidableEq, Repr

inductive TransactionState where
  | prepared
  | committed
  | aborted
deriving DecidableEq, Repr

/-- A durable transaction record; its digest is never all zero. -/
@[ext] structure TransactionRecord where
  id : TransactionId
  state : TransactionState
  transactionTime : TransactionTime
  recordDigest : Digest32
  digest_ne_zero : recordDigest ≠ Digest32.zero
deriving DecidableEq, Repr

@[ext] structure ReplicaMetadata where
  name : String
  value : Value
  named : name ≠ ""
  wellFormed : value.WellFormed
deriving DecidableEq, Repr

inductive LogicalMutation where
  | putVertex (vertex : VertexVersion)
  | deleteVertex (tombstone : VertexTombstone)
  | putEdge (edge : EdgeVersion)
  | deleteEdge (tombstone : EdgeTombstone)
  | putTransaction (transaction : TransactionRecord)
  | putReplicaMetadata (metadata : ReplicaMetadata)
deriving DecidableEq, Repr

def utf8 (s : String) : List UInt8 := s.toUTF8.data.toList

theorem fromUTF8_utf8 (value : String) :
    String.fromUTF8? ⟨(utf8 value).toArray⟩ = some value := by
  exact dif_pos value.isValidUTF8

/-! ## The mutation digest -/

namespace MutationDigest

def encodeU64 (n : ℕ) : List UInt8 := BigEndian.encode 8 n

def encodeI64 (i : Int64) : List UInt8 := BigEndian.encode 8 i.toUInt64.toNat

def encodeString (value : String) : List UInt8 := encodeU64 (utf8 value).length ++ utf8 value

mutual

def encodeValue : Value → List UInt8
  | .null => [0]
  | .boolean value => [1, if value then 1 else 0]
  | .integer value => 2 :: encodeI64 value
  | .floatBits value => 3 :: encodeU64 value.toNat
  | .bytes value => 4 :: (encodeU64 value.length ++ value)
  | .string value => 5 :: encodeString value
  | .list values => 6 :: (encodeU64 values.length ++ encodeValues values)
  | .map entries => 7 :: (encodeU64 entries.length ++ encodeEntries entries)

def encodeValues : List Value → List UInt8
  | [] => []
  | value :: values => encodeValue value ++ encodeValues values

def encodeEntries : List (String × Value) → List UInt8
  | [] => []
  | (name, value) :: entries => encodeString name ++ encodeValue value ++ encodeEntries entries

end

def encodeProperties (properties : ValueMap) : List UInt8 :=
  encodeU64 properties.entries.length ++ encodeEntries properties.entries

def encodeInterval (interval : ValidInterval) : List UInt8 :=
  encodeI64 interval.start ++ encodeI64 interval.stop

def encodeVertex (vertex : VertexVersion) : List UInt8 :=
  vertex.id.toBytes ++ encodeU64 vertex.version.toNat ++ encodeInterval vertex.validTime ++
    vertex.transactionTime.toBytes ++ encodeProperties vertex.properties

def encodeEdge (edge : EdgeVersion) : List UInt8 :=
  edge.id.toBytes ++ edge.source.toBytes ++ edge.target.toBytes ++ encodeString edge.edgeType ++
    encodeU64 edge.version.toNat ++ encodeInterval edge.validTime ++
    edge.transactionTime.toBytes ++ encodeProperties edge.properties

def stateTag : TransactionState → UInt8
  | .prepared => 1
  | .committed => 2
  | .aborted => 3

def encodeMutation : LogicalMutation → List UInt8
  | .putVertex vertex => 1 :: encodeVertex vertex
  | .deleteVertex tombstone =>
    2 :: (tombstone.id.toBytes ++ encodeU64 tombstone.version.toNat ++
      tombstone.transactionTime.toBytes)
  | .putEdge edge => 3 :: encodeEdge edge
  | .deleteEdge tombstone =>
    4 :: (tombstone.id.toBytes ++ encodeU64 tombstone.version.toNat ++
      tombstone.transactionTime.toBytes)
  | .putTransaction transaction =>
    5 :: (transaction.id.toBytes ++ [stateTag transaction.state] ++
      transaction.transactionTime.toBytes ++ transaction.recordDigest.bytes)
  | .putReplicaMetadata metadata => 6 :: (encodeString metadata.name ++ encodeValue metadata.value)

end MutationDigest

/-- The digest under which a store remembers the mutations of a batch. -/
def digestMutations [Blake3] (mutations : List LogicalMutation) : Digest32 :=
  Blake3.hash (utf8 "dtg-typed-mutations-v1" ++ MutationDigest.encodeU64 mutations.length ++
    mutations.flatMap MutationDigest.encodeMutation)

/-! ## Graph writes -/

def graphMutationTime : LogicalMutation → Option TransactionTime
  | .putVertex vertex => some vertex.transactionTime
  | .deleteVertex tombstone => some tombstone.transactionTime
  | .putEdge edge => some edge.transactionTime
  | .deleteEdge tombstone => some tombstone.transactionTime
  | .putTransaction _ | .putReplicaMetadata _ => none

inductive GraphIdentity where
  | vertex (id : VertexId)
  | edge (id : EdgeId)
deriving DecidableEq, Repr

/-- The part of an identity's time line a write covers. -/
inductive WriteExtent where
  | interval (valid : ValidInterval)
  | completeIdentity
deriving DecidableEq, Repr

def graphWrite : LogicalMutation → Option (GraphIdentity × WriteExtent)
  | .putVertex vertex => some (.vertex vertex.id, .interval vertex.validTime)
  | .deleteVertex tombstone => some (.vertex tombstone.id, .completeIdentity)
  | .putEdge edge => some (.edge edge.id, .interval edge.validTime)
  | .deleteEdge tombstone => some (.edge tombstone.id, .completeIdentity)
  | .putTransaction _ | .putReplicaMetadata _ => none

def WriteExtent.meets : WriteExtent → WriteExtent → Bool
  | .interval left, .interval right => left.overlaps right
  | .completeIdentity, _ => true
  | _, .completeIdentity => true

/-- Some write of `left` and some write of `right` meet on one identity. -/
def mutationsConflict (left right : List LogicalMutation) : Bool :=
  (left.filterMap graphWrite).any fun l =>
    (right.filterMap graphWrite).any fun r => decide (l.1 = r.1) && l.2.meets r.2

theorem WriteExtent.meets_comm (left right : WriteExtent) :
    left.meets right = right.meets left := by
  cases left <;> cases right <;> simp [meets, ValidInterval.overlaps_comm]

theorem mutationsConflict_iff {left right : List LogicalMutation} :
    mutationsConflict left right = true ↔
      ∃ l ∈ left, ∃ r ∈ right, ∃ i e f, graphWrite l = some (i, e) ∧ graphWrite r = some (i, f) ∧
        e.meets f = true := by
  simp only [mutationsConflict, List.any_eq_true, List.mem_filterMap, Bool.and_eq_true,
    decide_eq_true_eq]
  constructor
  · rintro ⟨⟨i, e⟩, ⟨l, hl, hle⟩, ⟨j, f⟩, ⟨r, hr, hrf⟩, hij, hmeet⟩
    obtain rfl : i = j := hij
    exact ⟨l, hl, r, hr, i, e, f, hle, hrf, hmeet⟩
  · rintro ⟨l, hl, r, hr, i, e, f, hle, hrf, hmeet⟩
    exact ⟨(i, e), ⟨l, hl, hle⟩, (i, f), ⟨r, hr, hrf⟩, rfl, hmeet⟩

theorem mutationsConflict_comm (left right : List LogicalMutation) :
    mutationsConflict left right = mutationsConflict right left := by
  rw [Bool.eq_iff_iff, mutationsConflict_iff, mutationsConflict_iff]
  constructor <;>
  · rintro ⟨l, hl, r, hr, i, e, f, hle, hrf, hmeet⟩
    exact ⟨r, hr, l, hl, i, f, e, hrf, hle, by rwa [WriteExtent.meets_comm]⟩

end DtgProxy.Storage

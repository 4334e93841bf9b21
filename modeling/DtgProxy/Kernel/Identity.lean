import DtgProxy.Lib.BigEndian
import DtgProxy.Lib.OrderedMap

/-! # Identifiers, times and digests

The scalar types shared by every crate.  Identifiers are nonzero unsigned
integers, one type per kind; a transaction time is a nonnegative `i64`; a
digest is exactly thirty-two bytes.
-/
namespace DtgProxy.Kernel

open Lib

inductive IdKind where
  | cluster
  | graph
  | shard
  | replica
  | placementEpoch
  | backendGeneration
  | transaction
  | command
  | vertex
  | edge
deriving DecidableEq, Repr

/-- Bytes of an identifier: `u64` for the placement identifiers, `u128` otherwise. -/
def IdKind.bytes : IdKind → ℕ
  | .cluster | .graph | .shard | .replica | .placementEpoch | .backendGeneration => 8
  | .transaction | .command | .vertex | .edge => 16

/-- A nonzero identifier of its kind's width. -/
@[ext] structure Identifier (kind : IdKind) where
  get : ℕ
  nonzero : get ≠ 0
  inRange : get < 256 ^ kind.bytes
deriving DecidableEq, Repr

abbrev ClusterId := Identifier .cluster
abbrev GraphId := Identifier .graph
abbrev ShardId := Identifier .shard
abbrev ReplicaId := Identifier .replica
abbrev PlacementEpoch := Identifier .placementEpoch
abbrev BackendGeneration := Identifier .backendGeneration
abbrev TransactionId := Identifier .transaction
abbrev CommandId := Identifier .command
abbrev VertexId := Identifier .vertex
abbrev EdgeId := Identifier .edge

namespace Identifier

variable {kind : IdKind}

instance : LinearOrder (Identifier kind) :=
  LinearOrder.lift' Identifier.get (fun _ _ h => Identifier.ext h)

instance instTransCmp : Std.TransCmp (compare : Identifier kind → Identifier kind → Ordering) :=
  inferInstance

theorem wrapped_lt (n : ℕ) : n % (256 ^ kind.bytes - 1) + 1 < 256 ^ kind.bytes := by
  have hwidth : 256 ^ 1 ≤ 256 ^ kind.bytes :=
    Nat.pow_le_pow_right (by decide) (by cases kind <;> decide)
  have := Nat.mod_lt n (show 0 < 256 ^ kind.bytes - 1 by omega)
  omega

/-- Numerals are identifiers; as those of a machine integer they wrap around. -/
instance instOfNat (n : ℕ) : OfNat (Identifier kind) (n + 1) where
  ofNat := ⟨n % (256 ^ kind.bytes - 1) + 1, Nat.succ_ne_zero _, wrapped_lt n⟩

/-- The checked constructor; `none` is the `ZeroIdentifier` error.  A value that
does not fit the width cannot be passed in the source. -/
def new (value : ℕ) : Option (Identifier kind) :=
  if h : value ≠ 0 ∧ value < 256 ^ kind.bytes then some ⟨value, h.1, h.2⟩ else none

theorem new_get (id : Identifier kind) : new id.get = some id := by
  simp [new, id.nonzero, id.inRange]

/-- The big-endian bytes of an identifier. -/
def toBytes (id : Identifier kind) : List UInt8 := BigEndian.encode kind.bytes id.get

@[simp] theorem length_toBytes (id : Identifier kind) : id.toBytes.length = kind.bytes := by
  simp [toBytes]

theorem new_decode_toBytes (id : Identifier kind) :
    new (BigEndian.decode id.toBytes) = some id := by
  rw [toBytes, BigEndian.decode_encode id.inRange, new_get]

end Identifier

/-- A transaction time: an `i64` that is not negative. -/
@[ext] structure TransactionTime where
  get : ℕ
  inRange : get < 2 ^ 63
deriving DecidableEq, Repr

namespace TransactionTime

instance : LinearOrder TransactionTime :=
  LinearOrder.lift' TransactionTime.get (fun _ _ h => TransactionTime.ext h)

instance instOfNat (n : ℕ) : OfNat TransactionTime n where
  ofNat := ⟨n % 2 ^ 63, Nat.mod_lt _ (by decide)⟩

theorem lt_def (s t : TransactionTime) : s < t ↔ s.get < t.get := Iff.rfl

/-- The checked constructor on the two's-complement reading of an `i64`: a value
with the sign bit set is the `NegativeTransactionTime` error. -/
def new (value : ℕ) : Option TransactionTime :=
  if h : value < 2 ^ 63 then some ⟨value, h⟩ else none

theorem new_get (t : TransactionTime) : new t.get = some t := by
  exact dif_pos t.inRange

def toBytes (t : TransactionTime) : List UInt8 := BigEndian.encode 8 t.get

@[simp] theorem length_toBytes (t : TransactionTime) : t.toBytes.length = 8 := by
  simp [toBytes]

theorem new_decode_toBytes (t : TransactionTime) : new (BigEndian.decode t.toBytes) = some t := by
  rw [toBytes, BigEndian.decode_encode (lt_trans t.inRange (by norm_num)), new_get]

end TransactionTime

/-- A digest of exactly thirty-two bytes. -/
@[ext] structure Digest32 where
  bytes : List UInt8
  length_bytes : bytes.length = 32
deriving DecidableEq, Repr

attribute [simp] Digest32.length_bytes

/-- The all-zero digest, which durable records refuse. -/
def Digest32.zero : Digest32 := ⟨List.replicate 32 0, by simp⟩

/-- The hash function of the `blake3` crate.  Nothing is assumed about it here;
results that need distinct digests say so for the preimages they compare. -/
class Blake3 where
  hash : List UInt8 → Digest32

/-- A computable hash, for evaluating the model on fixed inputs. -/
@[reducible] def foldHash : Blake3 where
  hash bytes :=
    ⟨BigEndian.encode 32 (bytes.foldl (fun acc b => (acc * 257 + b.toNat + 1) % 2 ^ 256) 0),
      by simp⟩

end DtgProxy.Kernel

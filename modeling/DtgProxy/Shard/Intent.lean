import DtgProxy.Shard.CodecRoundTrip

/-! # Participant intents

The graph writes a transaction prepares on one shard, with the snapshot they
were made on.  An intent exists only if its encoding does, so everything built
from it later (records, metadata, digests) is built without failing.
-/
namespace DtgProxy.Shard

open Kernel Lib Storage ByteCodec

def supportedTransactionIntentVersion : ℕ := 3
def transactionIntentMetadataName : String := "dtg.transaction_intent.v3"
def maxTransactionIntentBytes : ℕ := 4 * 1024 * 1024
def maxTransactionIntentItems : ℕ := 4096

/-- The mutations of a transaction: a bounded, nonempty list of graph mutations
that share one transaction time. -/
def validateIntentMutations (mutations : List LogicalMutation) : Except ShardError Unit :=
  if mutations = [] ∨ maxTransactionIntentItems < mutations.length then
    .error (invalid "transaction intent mutation count is outside the supported bounds")
  else if ∃ mutation ∈ mutations, graphMutationTime mutation = none then
    .error (invalid "transaction intent may contain only graph mutations")
  else if ∃ mutation ∈ mutations.tail,
      graphMutationTime mutation ≠ mutations.head?.bind graphMutationTime then
    .error (invalid "transaction intent mutations must share one transaction time")
  else .ok ()

theorem validateIntentMutations_eq_ok {mutations : List LogicalMutation} :
    validateIntentMutations mutations = .ok () ↔
      mutations.length ≤ maxTransactionIntentItems ∧ mutations ≠ [] ∧
        ∃ time, ∀ mutation ∈ mutations, graphMutationTime mutation = some time := by
  unfold validateIntentMutations
  constructor
  · intro h
    split_ifs at h with hcount hgraph htimes
    push Not at hcount hgraph htimes
    obtain ⟨first, rest, rfl⟩ := List.exists_cons_of_ne_nil hcount.1
    obtain ⟨time, htime⟩ := Option.ne_none_iff_exists'.mp (hgraph first List.mem_cons_self)
    exact ⟨hcount.2, hcount.1, time, List.forall_mem_cons.mpr
      ⟨htime, fun mutation hmem => (htimes mutation hmem).trans htime⟩⟩
  · rintro ⟨hcount, hne, time, htime⟩
    obtain ⟨first, rest, rfl⟩ := List.exists_cons_of_ne_nil hne
    rw [if_neg, if_neg, if_neg]
    · rintro ⟨mutation, hmem, hother⟩
      exact hother ((htime mutation (List.mem_cons_of_mem _ hmem)).trans
        (htime first List.mem_cons_self).symm)
    · rintro ⟨mutation, hmem, hnone⟩
      rw [htime mutation hmem] at hnone
      cases hnone
    · exact not_or.mpr ⟨hne, not_lt.mpr hcount⟩

/-! ## Intents -/

structure IntentFields where
  transactionId : TransactionId
  shardId : ShardId
  startTime : TransactionTime
  snapshotAppliedIndex : UInt64
  mutations : List LogicalMutation
deriving DecidableEq

namespace IntentFields

def put (intent : IntentFields) : CodecM Unit := do
  Codec.putU32 supportedTransactionIntentVersion
  Codec.putId intent.transactionId
  Codec.putId intent.shardId
  Codec.putTime intent.startTime
  Codec.putU64 intent.snapshotAppliedIndex
  Codec.putMutations intent.mutations

def get : CodecM IntentFields := do
  let version ← Codec.getU32
  if version ≠ supportedTransactionIntentVersion then
    fail (invalid "unsupported transaction intent version")
  else do
    let transactionId ← Codec.getId .transaction Codec.zeroIdentifier
    let shardId ← Codec.getId .shard Codec.zeroIdentifier
    let startTime ← Codec.getTime
    let snapshotAppliedIndex ← Codec.getU64
    let mutations ← Codec.getMutationsWithLimit maxTransactionIntentItems
      "transaction intent mutation count is outside the supported bounds"
    pure ⟨transactionId, shardId, startTime, snapshotAppliedIndex, mutations⟩

def encode (intent : IntentFields) : Except ShardError (List UInt8) := do
  validateIntentMutations intent.mutations
  let encoded ← Codec.encode intent.put
  if maxTransactionIntentBytes < encoded.length then
    .error (invalid "transaction intent exceeds maximum encoded size")
  else .ok encoded

end IntentFields

/-- An intent together with the bytes of its encoding. -/
structure ParticipantIntent extends IntentFields where
  encoded : List UInt8
  encodes : toIntentFields.encode = .ok encoded
deriving DecidableEq

namespace ParticipantIntent

def new (fields : IntentFields) : Except ShardError ParticipantIntent :=
  match h : fields.encode with
  | .error error => .error error
  | .ok encoded => .ok ⟨fields, encoded, h⟩

def digest [Blake3] (intent : ParticipantIntent) : Digest32 :=
  Blake3.hash (utf8 "dtg-transaction-participant-intent-v3" ++ intent.encoded)

def decodeCurrent (bytes : List UInt8) : Except ShardError ParticipantIntent :=
  if maxTransactionIntentBytes < bytes.length then
    .error (invalid "transaction intent bytes are oversized")
  else do
    let fields ← Codec.decode IntentFields.get bytes
    ParticipantIntent.new fields

def metadata (intent : ParticipantIntent) : ReplicaMetadata :=
  ⟨transactionIntentMetadataName, .bytes intent.encoded, by decide, by simp [Value.WellFormed]⟩

/-- The encoding is determined by the fields. -/
theorem eq_of_fields {a b : ParticipantIntent} (h : a.toIntentFields = b.toIntentFields) :
    a = b := by
  obtain ⟨fields, encoded, hencodes⟩ := a
  obtain ⟨fields', encoded', hencodes'⟩ := b
  obtain rfl : fields = fields' := h
  obtain rfl : encoded = encoded' := by
    rw [hencodes] at hencodes'
    exact Except.ok.inj hencodes'
  rfl

variable (intent : ParticipantIntent)

theorem new_toIntentFields :
    ParticipantIntent.new intent.toIntentFields = .ok intent := by
  unfold ParticipantIntent.new
  split
  case h_1 error h =>
    rw [intent.encodes] at h
    cases h
  case h_2 encoded h => exact congrArg Except.ok (eq_of_fields rfl)

variable {fields : IntentFields}

theorem encode_eq_ok {encoded : List UInt8} (h : fields.encode = .ok encoded) :
    validateIntentMutations fields.mutations = .ok () ∧ Codec.encode fields.put = .ok encoded ∧
      encoded.length ≤ maxTransactionIntentBytes := by
  obtain ⟨_, hvalid, h⟩ := Result.bind_eq_ok.mp h
  obtain ⟨bytes, hbytes, h⟩ := Result.bind_eq_ok.mp h
  split_ifs at h with hsize
  cases h
  exact ⟨hvalid, hbytes, not_lt.mp hsize⟩

theorem valid :
    validateIntentMutations intent.mutations = .ok () :=
  (encode_eq_ok intent.encodes).1

theorem length_encoded :
    intent.encoded.length ≤ maxTransactionIntentBytes :=
  (encode_eq_ok intent.encodes).2.2

theorem writes_fields (h : validateIntentMutations fields.mutations = .ok ()) :
    WritesFrom maxAllocationItems fields.put IntentFields.get fields := by
  obtain ⟨hcount, -, -⟩ := validateIntentMutations_eq_ok.mp h
  refine (Codec.writes_u32 (by decide)).bindFrom ?_
  refine (Codec.writes_id fields.transactionId _).bindFrom ?_
  refine (Codec.writes_id fields.shardId _).bindFrom ?_
  refine (Codec.writes_time fields.startTime).bindFrom ?_
  refine (Codec.writes_u64 fields.snapshotAppliedIndex).bindFrom ?_
  exact (Codec.writes_mutationsWithLimit hcount).then rfl

theorem decodeCurrent_encoded :
    decodeCurrent intent.encoded = .ok intent := by
  obtain ⟨hvalid, hencode, hsize⟩ := encode_eq_ok intent.encodes
  have hdecode : Codec.decode IntentFields.get intent.encoded = .ok intent.toIntentFields :=
    Codec.decode_encode (writes_fields hvalid) hencode
  rw [decodeCurrent, if_neg (not_lt.mpr hsize), hdecode]
  exact new_toIntentFields intent

end ParticipantIntent

end DtgProxy.Shard

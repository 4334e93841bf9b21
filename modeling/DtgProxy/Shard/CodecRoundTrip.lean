import DtgProxy.Shard.Codec

/-! # Reading back what the command format writes

Each writer of the format is paired with its reader by `Writes`; the pairing
follows the structure of the format down to values nested in values.
-/
namespace DtgProxy.Shard.Codec

open Kernel Lib Storage ByteCodec

section Words

theorem writes_u8 (value : UInt8) : WritesWord (putU8 value) getU8 value :=
  writes_put fun s => (reads_take [value] s rfl).then rfl

theorem reads_word {width value : ℕ} (h : value < 256 ^ width) (s : ℕ) :
    Reads (getWord width) value (BigEndian.encode width value) s s :=
  (reads_take _ s (BigEndian.length_encode width value)).then
    (by rw [BigEndian.decode_encode h])

theorem writes_u32 {value : ℕ} (h : value < 2 ^ 32) : WritesWord (putU32 value) getU32 value :=
  writes_put fun s => reads_word (by simpa using h) s

theorem reads_u64 (value : UInt64) (s : ℕ) :
    Reads getU64 value (BigEndian.encode 8 value.toNat) s s :=
  (reads_word value.toNat_lt s).then (by rw [UInt64.ofNat_toNat])

theorem writes_u64 (value : UInt64) : WritesWord (putU64 value) getU64 value :=
  writes_put (reads_u64 value)

theorem reads_i64 (value : Int64) (s : ℕ) :
    Reads getI64 value (BigEndian.encode 8 value.toUInt64.toNat) s s :=
  (reads_u64 value.toUInt64 s).then (by rw [Int64.toInt64_toUInt64])

theorem writes_i64 (value : Int64) : WritesWord (putI64 value) getI64 value :=
  writes_put (reads_i64 value)

theorem writes_id {kind : IdKind} (id : Identifier kind) (zero : ShardError) :
    WritesWord (putId id) (getId kind zero) id :=
  writes_put fun s => (reads_word id.inRange s).then (by rw [Identifier.new_get])

theorem writes_time (time : TransactionTime) : WritesWord (putTime time) getTime time := by
  refine writes_put fun s => ?_
  have hlt : time.get < 2 ^ 64 := lt_trans time.inRange (by norm_num)
  have hnat : (UInt64.ofNat time.get).toNat = time.get := UInt64.toNat_ofNat_of_lt' hlt
  have hread := reads_i64 (UInt64.ofNat time.get).toInt64 s
  rw [UInt64.toUInt64_toInt64, hnat] at hread
  refine hread.then ?_
  rw [UInt64.toUInt64_toInt64, hnat, TransactionTime.new_get]

theorem writes_bytes (value : List UInt8) : WritesWord (putBytes value) getBytes value := by
  refine WritesWord.guard fun hlen => WritesWord.checked ?_
  exact (writes_u32 (by omega)).bindWord (writes_put fun s => reads_take value s rfl)

theorem writes_string (value : String) : WritesWord (putString value) getString value :=
  (writes_bytes (utf8 value)).then (by rw [fromUTF8_utf8])

theorem writes_digest (digest : Digest32) : WritesWord (putBytes digest.bytes) getDigest digest :=
  (writes_bytes digest.bytes).then (by rw [dif_pos digest.length_bytes])

end Words

section Values

theorem writes_collectionCount {count : ℕ} (h : count ≤ maxCollectionItems) :
    Writes (putU32 count >>= fun _ => consume count) getCollectionCount count := by
  have hlimit : count < 2 ^ 32 := lt_of_le_of_lt h (by decide)
  have hcount : WritesWord (putU32 count) getCount count :=
    (writes_u32 hlimit).then (if_neg (not_lt.mpr h))
  exact hcount.bind ((writes_spend _).then rfl)

/-- A collection is its length, the budget it spends and its items. -/
theorem writes_collection {α : Type} {count : ℕ} {tooLarge : String} {items : CodecM Unit}
    {f : ℕ → CodecM α} {a : α} (hitems : Writes items (f count) a) :
    Writes (putCollection count tooLarge items) (getCollectionCount >>= f) a := by
  refine Writes.guard fun hcount => ?_
  exact (writes_collectionCount (not_lt.mp hcount)).bind hitems

theorem putValues_eq (depth : ℕ) (values : List Value) :
    putValues depth values = encodeAll (putValue depth) values := by
  induction values with
  | nil => rw [putValues, encodeAll]
  | cons value values ih => rw [putValues, encodeAll, ih]

theorem writes_entries {depth : ℕ} {duplicate : String} {d : CodecM OrderedValue}
    (m : ValueMap) (hvalue : ∀ entry ∈ m.entries, ∀ h : entry.2.WellFormed,
      Writes (putValue depth entry.2) d ⟨entry.2, h⟩)
    (todo : List (String × Value)) (read : ValueMap) (hm : m.entries = read.entries ++ todo) :
    Writes (putEntries depth todo) (getEntries duplicate d todo.length read) m := by
  induction todo generalizing read with
  | nil =>
    have hread : read = m := by
      ext1
      simpa using hm.symm
    rw [putEntries, hread]
    exact writes_pure m
  | cons entry todo ih =>
    obtain ⟨name, value⟩ := entry
    have hmem : (name, value) ∈ m.entries := by simp [hm]
    have hwf : value.WellFormed := (Value.entriesWellFormed_iff _).mp m.wellFormed _ hmem
    obtain ⟨read', hinsert, hm'⟩ := ValueMap.insertNew_next hm hwf
    refine (writes_string name).bind ((hvalue _ hmem hwf).bind ?_)
    rw [hinsert]
    exact ih read' hm'

/-- The nesting still allowed and the depth of a value add up to the limit plus
one, so a decoder out of fuel stands where the encoder refuses. -/
theorem writes_value (fuel : ℕ) (depth : ℕ) (hdepth : depth + fuel = maxValueDepth + 1)
    (value : Value) (h : value.WellFormed) :
    Writes (putValue depth value) (getValue fuel) ⟨value, h⟩ := by
  induction fuel generalizing depth value with
  | zero =>
    have hbelow : maxValueDepth < depth := by omega
    cases value <;> rw [putValue] <;> exact Writes.guard fun hc => absurd hbelow hc
  | succ fuel ih =>
    cases value with
    | null =>
      exact Writes.guard fun _ => (writes_u8 0).writes.then rfl
    | boolean value =>
      refine Writes.guard fun _ => (writes_u8 1).bind ?_
      cases value with
      | false => exact (writes_u8 0).writes.then rfl
      | true => exact (writes_u8 1).writes.then rfl
    | integer value =>
      exact Writes.guard fun _ => (writes_u8 2).bind ((writes_i64 value).writes.then rfl)
    | floatBits value =>
      exact Writes.guard fun _ => (writes_u8 3).bind ((writes_u64 value).writes.then rfl)
    | bytes value =>
      exact Writes.guard fun _ => (writes_u8 4).bind ((writes_bytes value).writes.then rfl)
    | string value =>
      exact Writes.guard fun _ => (writes_u8 5).bind ((writes_string value).writes.then rfl)
    | list values =>
      have hvalues : ∀ value ∈ values, value.WellFormed := by
        rwa [Value.WellFormed, Value.listWellFormed_iff] at h
      lift values to List OrderedValue using hvalues
      rw [putValue, putValues_eq, encodeAll_map]
      refine Writes.guard fun _ => Writes.guard fun hlength => (writes_u8 6).bind ?_
      refine (writes_collectionCount (not_lt.mp hlength)).bind ?_
      rw [List.length_map]
      refine (writes_encodeAll values fun value _ => ?_).then rfl
      exact ih (depth + 1) (by omega) value.1 value.2
    | map entries =>
      have hentries : Value.EntriesWellFormed entries ∧
          (entries.map Prod.fst).Pairwise (· < ·) := by
        rwa [Value.WellFormed] at h
      refine Writes.guard fun _ => Writes.guard fun hlength => (writes_u8 7).bind ?_
      refine (writes_collectionCount (not_lt.mp hlength)).bind ?_
      refine (writes_entries ⟨entries, hentries.2, hentries.1⟩ (fun entry _ hentry => ?_)
        _ .empty rfl).then rfl
      exact ih (depth + 1) (by omega) entry.2 hentry

end Values

section Mutations

theorem writes_properties (properties : ValueMap) :
    Writes (putProperties properties) getProperties properties := by
  refine writes_collection (writes_entries properties (fun entry _ hentry => ?_) _ .empty rfl)
  exact writes_value (maxValueDepth + 1) 0 (by omega) entry.2 hentry

theorem writes_interval (interval : ValidInterval) :
    WritesWord (putInterval interval) getInterval interval :=
  (writes_i64 interval.start).bindWord
    ((writes_i64 interval.stop).then (dif_pos interval.nonempty))

theorem writes_state (state : TransactionState) :
    WritesWord (putU8 (stateTag state)) getState state := by
  cases state with
  | prepared => exact (writes_u8 1).then rfl
  | committed => exact (writes_u8 2).then rfl
  | aborted => exact (writes_u8 3).then rfl

theorem writes_recordDigest (digest : Digest32) :
    WritesWord (putU32 32 >>= fun _ => put digest.bytes) getDigest digest := by
  have hbytes : WritesWord (putU32 32 >>= fun _ => put digest.bytes) getBytes digest.bytes :=
    (writes_u32 (by decide)).bindWord
      (writes_put fun s => reads_take digest.bytes s digest.length_bytes)
  exact hbytes.then (dif_pos digest.length_bytes)

theorem writes_transaction (transaction : TransactionRecord) :
    WritesWord (putTransaction transaction) getTransaction transaction := by
  refine (writes_id transaction.id _).bindWord ((writes_state transaction.state).bindWord ?_)
  refine (writes_time transaction.transactionTime).bindWord ?_
  exact (writes_recordDigest transaction.recordDigest).then (dif_pos transaction.digest_ne_zero)

theorem writes_vertexVersion (vertex : VertexVersion) :
    Writes (do
      putId vertex.id
      putU64 vertex.version
      putInterval vertex.validTime
      putTime vertex.transactionTime
      putProperties vertex.properties) getVertexVersion vertex := by
  refine (writes_id vertex.id _).bind ((writes_u64 vertex.version).bind ?_)
  refine (writes_interval vertex.validTime).bind ((writes_time vertex.transactionTime).bind ?_)
  exact (writes_properties vertex.properties).then (dif_pos vertex.named)

theorem writes_vertexTombstone (tombstone : VertexTombstone) :
    Writes (do
      putId tombstone.id
      putU64 tombstone.version
      putTime tombstone.transactionTime) getVertexTombstone tombstone :=
  (writes_id tombstone.id _).bind ((writes_u64 tombstone.version).bind
    ((writes_time tombstone.transactionTime).writes.then rfl))

theorem writes_edgeVersion (edge : EdgeVersion) :
    Writes (do
      putId edge.id
      putId edge.source
      putId edge.target
      putString edge.edgeType
      putU64 edge.version
      putInterval edge.validTime
      putTime edge.transactionTime
      putProperties edge.properties) getEdgeVersion edge := by
  refine (writes_id edge.id _).bind ((writes_id edge.source _).bind ?_)
  refine (writes_id edge.target _).bind ((writes_string edge.edgeType).bind ?_)
  refine (writes_u64 edge.version).bind ((writes_interval edge.validTime).bind ?_)
  refine (writes_time edge.transactionTime).bind ((writes_properties edge.properties).then ?_)
  rw [dif_pos edge.typed, dif_pos edge.named]

theorem writes_edgeTombstone (tombstone : EdgeTombstone) :
    Writes (do
      putId tombstone.id
      putU64 tombstone.version
      putTime tombstone.transactionTime) getEdgeTombstone tombstone :=
  (writes_id tombstone.id _).bind ((writes_u64 tombstone.version).bind
    ((writes_time tombstone.transactionTime).writes.then rfl))

/-- The record inside a mutation writes its digest with `putBytes`. -/
theorem writes_transactionMutation (transaction : TransactionRecord) :
    WritesWord (do
      putId transaction.id
      putU8 (stateTag transaction.state)
      putTime transaction.transactionTime
      putBytes transaction.recordDigest.bytes) getTransaction transaction := by
  refine (writes_id transaction.id _).bindWord ((writes_state transaction.state).bindWord ?_)
  refine (writes_time transaction.transactionTime).bindWord ?_
  exact (writes_digest transaction.recordDigest).then (dif_pos transaction.digest_ne_zero)

theorem writes_metadata (metadata : ReplicaMetadata) :
    Writes (do
      putString metadata.name
      putValue 0 metadata.value) getMetadata metadata := by
  have hvalue := writes_value (maxValueDepth + 1) 0 (by omega) metadata.value metadata.wellFormed
  exact (writes_string metadata.name).bind (hvalue.then (dif_pos metadata.named))

theorem writes_mutation (mutation : LogicalMutation) :
    Writes (putMutation mutation) getMutation mutation := by
  cases mutation with
  | putVertex vertex => exact (writes_u8 1).bind ((writes_vertexVersion vertex).map _)
  | deleteVertex tombstone => exact (writes_u8 2).bind ((writes_vertexTombstone tombstone).map _)
  | putEdge edge => exact (writes_u8 3).bind ((writes_edgeVersion edge).map _)
  | deleteEdge tombstone => exact (writes_u8 4).bind ((writes_edgeTombstone tombstone).map _)
  | putTransaction transaction =>
    exact (writes_u8 5).bind ((writes_transactionMutation transaction).writes.map _)
  | putReplicaMetadata metadata =>
    exact (writes_u8 6).bind ((writes_metadata metadata).map _)

/-- The encoder starts a fresh budget for the list, so a decoder whose budget is
untouched reads it back. -/
theorem writes_mutationsWithLimit {limit : ℕ} {limitMessage : String}
    {mutations : List LogicalMutation} (hlimit : mutations.length ≤ limit) :
    WritesFrom maxAllocationItems (putMutations mutations)
      (getMutationsWithLimit limit limitMessage) mutations := by
  refine WritesFrom.guard fun hlength => ?_
  have hcount : WritesWord (putU32 mutations.length) getCount mutations.length := by
    refine (writes_u32 (lt_of_le_of_lt (not_lt.mp hlength) (by decide))).then ?_
    exact if_neg hlength
  have hitems : Writes (consume mutations.length >>= fun _ => encodeAll putMutation mutations)
      (consume mutations.length >>= fun _ => decodeMany getMutation mutations.length) mutations :=
    (writes_spend _).bind (writes_encodeAll mutations fun mutation _ => writes_mutation mutation)
  refine hcount.bindFrom ?_
  rw [if_neg (not_lt.mpr hlimit)]
  exact hitems.restarting maxAllocationItems

end Mutations

section Messages

theorem not_reads_nil {α : Type} {f : ℕ → CodecM α} {a : α} {s s' : ℕ} :
    ¬ Reads (getU32 >>= f) a [] s s' := by
  intro h
  cases h []

/-- Every message starts with a version word; what it encodes, it decodes to. -/
theorem decode_encode {α : Type} {e : CodecM Unit} {f : ℕ → CodecM α} {a : α}
    (h : WritesFrom maxAllocationItems e (getU32 >>= f) a) {bytes : List UInt8}
    (hbytes : encode e = .ok bytes) : decode (getU32 >>= f) bytes = .ok a := by
  rw [encode] at hbytes
  split at hbytes
  · cases hbytes
  case h_2 bytes' s' he =>
    split_ifs at hbytes with hsize
    cases hbytes
    obtain ⟨word, t, hword, hread⟩ := h _ _ _ _ he
    subst hword
    have hne : bytes ≠ [] := by
      rintro rfl
      exact not_reads_nil hread
    have hstep := hread []
    rw [List.append_nil] at hstep
    rw [decode, if_neg (by simp [hne, hsize]), hstep]
    rfl

end Messages

end DtgProxy.Shard.Codec

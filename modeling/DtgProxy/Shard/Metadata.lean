import DtgProxy.Shard.CommandCodec
import DtgProxy.Shard.ReservedNames

/-! # Durable metadata records

The byte layouts of the state of a transaction, of the index of prepared
transactions, of one-phase receipts and of home decisions, and that each record
is read back as it was written.
-/
namespace DtgProxy.Shard

open Kernel Lib Storage BigEndian ReservedKey

namespace ReservedKey

theorem name_ne_empty (key : ReservedKey) : key.name ≠ "" := by
  intro h
  have hreserved := reservedName_name key
  rw [h] at hreserved
  exact absurd hreserved (by decide)

def record (key : ReservedKey) (bytes : List UInt8) : ReplicaMetadata :=
  ⟨key.name, .bytes bytes, name_ne_empty key, by simp [Value.WellFormed]⟩

@[simp] theorem record_name (key : ReservedKey) (bytes : List UInt8) :
    (key.record bytes).name = key.name := rfl

end ReservedKey

/-- The digest at an offset; short input reads as zeros. -/
def digestAt (bytes : List UInt8) (start : ℕ) : Digest32 :=
  ⟨(bytes.drop start ++ List.replicate 32 0).take 32, by simp⟩

theorem digestAt_of_slice {bytes : List UInt8} {digest : Digest32} {start : ℕ}
    (h : slice bytes start (start + 32) = digest.bytes) :
    digestAt bytes start = digest := by
  rw [slice, Nat.add_sub_cancel_left] at h
  have hlength : 32 ≤ (bytes.drop start).length := by
    have := congrArg List.length h
    rw [digest.length_bytes, List.length_take] at this
    omega
  ext1
  exact (List.take_append_of_le_length hlength).trans h

def decodeTime (word : ℕ) : Except ShardError TransactionTime :=
  match TransactionTime.new word with
  | some time => .ok time
  | none => .error (.ofKernel (.negativeTransactionTime (UInt64.ofNat word).toInt64))

/-- What a shard remembers of a transaction it prepared. -/
structure DurableTransactionState where
  intent : ParticipantIntent
  terminal : Option TransactionRecord
deriving DecidableEq

/-- The time of a terminal record is after the start for a commit and the start
itself for an abort. -/
def terminalTimeIsValid (intent : ParticipantIntent) (terminal : TransactionRecord) : Bool :=
  match terminal.state with
  | .committed => decide (intent.startTime < terminal.transactionTime)
  | .aborted => decide (terminal.transactionTime = intent.startTime)
  | .prepared => false

theorem terminal_state_of_timeIsValid {intent : ParticipantIntent} {terminal : TransactionRecord}
    (h : terminalTimeIsValid intent terminal = true) :
    terminal.state = .committed ∨ terminal.state = .aborted := by
  unfold terminalTimeIsValid at h
  cases hs : terminal.state with
  | committed => exact .inl rfl
  | aborted => exact .inr rfl
  | prepared =>
    rw [hs] at h
    cases h

def stateRecordTag : Option TransactionRecord → Except ShardError UInt8
  | none => .ok 1
  | some terminal =>
    match terminal.state with
    | .committed => .ok 2
    | .aborted => .ok 3
    | .prepared =>
      .error (corruptIntentHistory "durable transaction state cannot store Prepared as a terminal")

def terminalBytes : Option TransactionRecord → List UInt8
  | none => []
  | some terminal => terminal.transactionTime.toBytes ++ terminal.recordDigest.bytes

def stateRecordBytes (tag : UInt8) (intent : ParticipantIntent)
    (terminal : Option TransactionRecord) : List UInt8 :=
  [BigEndian.encode 4 1, [tag], BigEndian.encode 4 intent.encoded.length, intent.encoded,
    terminalBytes terminal].flatten

theorem length_stateRecordBytes (tag : UInt8) (intent : ParticipantIntent)
    (terminal : Option TransactionRecord) :
    (stateRecordBytes tag intent terminal).length =
      9 + intent.encoded.length + (terminalBytes terminal).length := by
  simp [stateRecordBytes]
  omega

/-! ## Receipts of one-phase commits -/

@[ext] structure SingleShardTransactionReceipt where
  commandId : CommandId
  transactionId : TransactionId
  startTime : TransactionTime
  snapshotAppliedIndex : UInt64
  commitTime : TransactionTime
  requestDigest : Digest32
deriving DecidableEq, Repr

def CommitSingleShardTransaction.receipt (command : CommitSingleShardTransaction) :
    SingleShardTransactionReceipt :=
  ⟨command.header.commandId, command.transactionId, command.startTime,
    command.snapshotAppliedIndex, command.commitTime, command.requestDigest⟩

def SingleShardTransactionReceipt.toBytes (receipt : SingleShardTransactionReceipt) : List UInt8 :=
  [BigEndian.encode 4 1, receipt.commandId.toBytes, receipt.transactionId.toBytes,
    receipt.startTime.toBytes, BigEndian.encode 8 receipt.snapshotAppliedIndex.toNat,
    receipt.commitTime.toBytes, receipt.requestDigest.bytes].flatten

def singleShardTransactionMetadata (command : CommitSingleShardTransaction) : ReplicaMetadata :=
  (ReservedKey.singleShardTransaction command.transactionId).record command.receipt.toBytes

/-- The fields of a receipt, as the constructors check them in turn. -/
def decodeReceipt (bytes : List UInt8) : Except ShardError SingleShardTransactionReceipt :=
  match Identifier.new (BigEndian.decode (BigEndian.slice bytes 4 20)) with
  | none => .error (.storage (.invalidBatch "command identifier must be nonzero"))
  | some commandId =>
    match Identifier.new (BigEndian.decode (BigEndian.slice bytes 20 36)) with
    | none => .error (.ofKernel .zeroIdentifier)
    | some transactionId => do
      let startTime ← decodeTime (BigEndian.decode (BigEndian.slice bytes 36 44))
      let commitTime ← decodeTime (BigEndian.decode (BigEndian.slice bytes 52 60))
      .ok ⟨commandId, transactionId, startTime,
        UInt64.ofNat (BigEndian.decode (BigEndian.slice bytes 44 52)), commitTime,
        digestAt bytes 60⟩

def decodeSingleShardTransactionMetadata (metadata : ReplicaMetadata) :
    Except ShardError SingleShardTransactionReceipt := do
  let transactionId ← transactionIdFromMetadataName metadata.name
    singleShardTransactionMetadataName "single-Shard transaction receipt"
  match metadata.value with
  | .bytes bytes =>
    if bytes.length ≠ 92 ∨ BigEndian.decode (BigEndian.slice bytes 0 4) ≠ 1 then
      .error (corruptIntentHistory "single-Shard transaction receipt has an unsupported encoding")
    else do
      let receipt ← decodeReceipt bytes
      if receipt.transactionId ≠ transactionId ∨ receipt.commitTime ≤ receipt.startTime then
        .error (corruptIntentHistory
          "single-Shard transaction receipt name or commit time is inconsistent")
      else .ok receipt
  | _ => .error (corruptIntentHistory "single-Shard transaction receipt is not bytes")

section Records

variable [Blake3]
variable {intent : ParticipantIntent} {active : OrderedMap TransactionId ParticipantIntent}
variable {metadata : ReplicaMetadata}

def validateIntentTerminal (intent : ParticipantIntent) (terminal : TransactionRecord) :
    Except ShardError Unit :=
  if terminal.id = intent.transactionId ∧ terminal.recordDigest = intent.digest ∧
      terminalTimeIsValid intent terminal then .ok ()
  else
    .error (corruptIntentHistory "participant terminal record contradicts its durable intent")

def DurableTransactionState.matchesFinalize (state : DurableTransactionState)
    (command : FinalizeParticipant) : Bool :=
  decide (state.terminal = some command.terminal) &&
    match command.terminal.state with
    | .committed => decide (command.intent = some state.intent)
    | .aborted => command.intent.isNone
    | .prepared => false

def transactionStateMetadata (intent : ParticipantIntent) (terminal : Option TransactionRecord) :
    Except ShardError ReplicaMetadata := do
  if let some terminal := terminal then
    validateIntentTerminal intent terminal
  let tag ← stateRecordTag terminal
  .ok ((ReservedKey.transactionState intent.transactionId).record
    (stateRecordBytes tag intent terminal))

/-- The terminal record after the intent of a state record. -/
def decodeTerminal (transactionId : TransactionId) (intent : ParticipantIntent)
    (bytes : List UInt8) (tag intentEnd : ℕ) : Except ShardError (Option TransactionRecord) :=
  if tag = 1 ∧ intentEnd = bytes.length then .ok none
  else if (tag = 2 ∨ tag = 3) ∧ bytes.length = intentEnd + 40 then
    match decodeTime (BigEndian.decode (BigEndian.slice bytes intentEnd (intentEnd + 8))) with
    | .error error => .error error
    | .ok transactionTime =>
      let digest := digestAt bytes (intentEnd + 8)
      if h : digest ≠ Digest32.zero then
        let terminal : TransactionRecord :=
          ⟨transactionId, if tag = 2 then .committed else .aborted, transactionTime, digest, h⟩
        match validateIntentTerminal intent terminal with
        | .error error => .error error
        | .ok () => .ok (some terminal)
      else .error (.storage (.invalidMutation "transaction record digest must be nonzero"))
  else
    .error (corruptIntentHistory "durable transaction state tag or trailing bytes are invalid")

def decodeStateRecord (transactionId : TransactionId) (bytes : List UInt8) :
    Except ShardError DurableTransactionState :=
  if bytes.length < 9 ∨ BigEndian.decode (BigEndian.slice bytes 0 4) ≠ 1 then
    .error (corruptIntentHistory "durable transaction state has an unsupported encoding")
  else
    let tag := (bytes.getD 4 0).toNat
    let intentEnd := 9 + BigEndian.decode (BigEndian.slice bytes 5 9)
    if bytes.length < intentEnd then
      .error (corruptIntentHistory "durable transaction state intent payload is truncated")
    else
      match ParticipantIntent.decodeCurrent (BigEndian.slice bytes 9 intentEnd) with
      | .error error =>
        .error (corruptIntentHistory
          ("durable transaction state intent is corrupt: " ++ error.message))
      | .ok intent =>
        if intent.transactionId ≠ transactionId then
          .error (corruptIntentHistory
            "durable transaction state name contradicts its transaction ID")
        else do
          let terminal ← decodeTerminal transactionId intent bytes tag intentEnd
          .ok ⟨intent, terminal⟩

def decodeTransactionStateMetadata (metadata : ReplicaMetadata) :
    Except ShardError DurableTransactionState := do
  let transactionId ← transactionIdFromMetadataName metadata.name transactionStateMetadataBase
    "durable transaction state"
  match metadata.value with
  | .bytes bytes => decodeStateRecord transactionId bytes
  | _ => .error (corruptIntentHistory "durable transaction state is not bytes")

theorem validateIntentTerminal_eq_ok {terminal : TransactionRecord} :
    validateIntentTerminal intent terminal = .ok () ↔
      terminal.id = intent.transactionId ∧ terminal.recordDigest = intent.digest ∧
        terminalTimeIsValid intent terminal = true := by
  unfold validateIntentTerminal
  split_ifs with hvalid
  · exact ⟨fun _ => hvalid, fun _ => rfl⟩
  · exact ⟨fun h => (nomatch h), fun h => absurd h hvalid⟩

variable {terminal : Option TransactionRecord}

theorem transactionStateMetadata_eq_ok :
    transactionStateMetadata intent terminal = .ok metadata ↔
      ∃ tag, (∀ record ∈ terminal, validateIntentTerminal intent record = .ok ()) ∧
        stateRecordTag terminal = .ok tag ∧
        (transactionState intent.transactionId).record
          (stateRecordBytes tag intent terminal) = metadata := by
  unfold transactionStateMetadata
  cases terminal with
  | none => simp [stateRecordTag, bind, Except.bind]
  | some record =>
    cases hvalid : validateIntentTerminal intent record with
    | error => simp [bind, Except.bind, hvalid]
    | ok =>
      cases htag : stateRecordTag (some record) with
      | error | ok => simp [bind, Except.bind, hvalid]

/-- The tag and the trailing fields are read back as the terminal record. -/
theorem decodeTerminal_some {record : TransactionRecord} {tag : UInt8}
    (htag : stateRecordTag (some record) = .ok tag)
    (hvalid : validateIntentTerminal intent record = .ok ()) :
    decodeTerminal intent.transactionId intent (stateRecordBytes tag intent (some record))
      tag.toNat (9 + intent.encoded.length) = .ok (some record) := by
  have hlength := length_stateRecordBytes tag intent (some record)
  rw [terminalBytes, List.length_append, TransactionTime.length_toBytes,
    Digest32.length_bytes] at hlength
  have hflat : stateRecordBytes tag intent (some record) =
      [encode 4 1, [tag], encode 4 intent.encoded.length, intent.encoded,
        record.transactionTime.toBytes, record.recordDigest.bytes].flatten := by
    simp [stateRecordBytes, terminalBytes]
  have htime : slice (stateRecordBytes tag intent (some record))
      (9 + intent.encoded.length) (9 + intent.encoded.length + 8) =
      record.transactionTime.toBytes := by
    rw [hflat]
    exact slice_flatten 4 rfl (by simp; omega) (by simp)
  have hdigest : digestAt (stateRecordBytes tag intent (some record))
      (9 + intent.encoded.length + 8) = record.recordDigest := by
    apply digestAt_of_slice
    rw [hflat]
    exact slice_flatten 5 rfl (by simp; omega) (by simp)
  obtain ⟨hid, hrecorded, hstate⟩ := validateIntentTerminal_eq_ok.mp hvalid
  have hkind : (tag.toNat = 2 ∨ tag.toNat = 3) ∧
      (if tag.toNat = 2 then TransactionState.committed else .aborted) = record.state := by
    rcases terminal_state_of_timeIsValid hstate with hs | hs <;>
    · simp only [stateRecordTag, hs] at htag
      cases htag
      rw [hs]
      decide
  unfold decodeTerminal
  rw [if_neg (by omega), if_pos ⟨hkind.1, hlength⟩]
  simp only [htime, decodeTime, TransactionTime.new_decode_toBytes]
  have hrecord : (⟨intent.transactionId, record.state, record.transactionTime,
      record.recordDigest, record.digest_ne_zero⟩ : TransactionRecord) = record := by
    rw [← hid]
  simp only [hdigest, hkind.2]
  rw [dif_pos record.digest_ne_zero]
  simp only [hrecord, hvalid]

theorem decodeTransactionStateMetadata_of_eq_ok
    (h : transactionStateMetadata intent terminal = .ok metadata) :
    decodeTransactionStateMetadata metadata = .ok ⟨intent, terminal⟩ := by
  obtain ⟨tag, hvalid, htag, rfl⟩ := transactionStateMetadata_eq_ok.mp h
  have hlength := length_stateRecordBytes tag intent terminal
  have hversion : slice (stateRecordBytes tag intent terminal) 0 4 =
      encode 4 1 := slice_flatten 0 rfl rfl (by simp)
  have htagged : (stateRecordBytes tag intent terminal).getD 4 0 = tag :=
    getD_of_slice (slice_flatten 1 rfl (by simp) rfl)
  have hsize : decode (slice (stateRecordBytes tag intent terminal) 5 9) =
      intent.encoded.length := by
    rw [stateRecordBytes, slice_flatten 2 rfl (by simp) (by simp)]
    exact decode_encode (lt_of_le_of_lt intent.length_encoded (by decide))
  have hintent : slice (stateRecordBytes tag intent terminal) 9
      (9 + intent.encoded.length) = intent.encoded :=
    slice_flatten 3 rfl (by simp) (by simp)
  have hterminal : decodeTerminal intent.transactionId intent (stateRecordBytes tag intent terminal)
      tag.toNat (9 + intent.encoded.length) = .ok terminal := by
    cases terminal with
    | none =>
      cases htag
      rw [decodeTerminal, if_pos ⟨rfl, by simpa [terminalBytes] using hlength.symm⟩]
    | some record => exact decodeTerminal_some htag (hvalid record rfl)
  have hname : transactionIdFromMetadataName
      (transactionState intent.transactionId).name transactionStateMetadataBase
      "durable transaction state" = .ok intent.transactionId :=
    transactionIdFromMetadataName_name _ _ _
  rw [decodeTransactionStateMetadata, record_name, hname]
  simp only [bind, Except.bind, record]
  have hone : decode (encode 4 1) = 1 := decode_encode (by decide)
  rw [decodeStateRecord, if_neg (by rw [hversion, hone, hlength]; omega)]
  simp only [hsize, htagged, hintent, hterminal, ParticipantIntent.decodeCurrent_encoded]
  rw [if_neg (by omega), if_neg (by simp)]
  rfl

/-! ## The index of prepared transactions -/

def activeIndexBytes (active : OrderedMap TransactionId ParticipantIntent) : List UInt8 :=
  BigEndian.encode 4 1 ++ BigEndian.encode 4 active.size ++
    active.toList.flatMap fun entry => entry.1.toBytes ++ entry.2.digest.bytes

def activeIntentsMetadata (active : OrderedMap TransactionId ParticipantIntent) :
    Except ShardError ReplicaMetadata :=
  if maxTransactionIntentItems < active.size then
    .error (invalid "active transaction intent count exceeds the supported bound")
  else
    .ok (ReservedKey.activeIntents.record (activeIndexBytes active))

/-- Reads the entries of the index; their keys must ascend. -/
def decodeActiveEntries (previous : Option TransactionId)
    (indexed : OrderedMap TransactionId Digest32) :
    ℕ → List UInt8 → Except ShardError (OrderedMap TransactionId Digest32)
  | 0, _ => .ok indexed
  | count + 1, bytes =>
    match Identifier.new (BigEndian.decode (bytes.take 16)) with
    | none => .error (.ofKernel .zeroIdentifier)
    | some transactionId =>
      if ∃ last ∈ previous, transactionId ≤ last then
        .error (corruptIntentHistory "active transaction intent index is not strictly ordered")
      else
        decodeActiveEntries (some transactionId)
          (indexed.insert transactionId (digestAt bytes 16)) count (bytes.drop 48)

def decodeActiveIndex (bytes : List UInt8) :
    Except ShardError (OrderedMap TransactionId Digest32) :=
  if bytes.length < 8 ∨ BigEndian.decode (bytes.take 4) ≠ 1 then
    .error (corruptIntentHistory "active transaction intent index has an unsupported encoding")
  else
    let count := BigEndian.decode (BigEndian.slice bytes 4 8)
    if maxTransactionIntentItems < count ∨ bytes.length ≠ 8 + count * 48 then
      .error (corruptIntentHistory
        "active transaction intent index exceeds its bound or is truncated")
    else decodeActiveEntries none ∅ count (bytes.drop 8)

def decodeActiveIntentsMetadata (metadata : ReplicaMetadata) :
    Except ShardError (OrderedMap TransactionId Digest32) :=
  if metadata.name ≠ activeTransactionIntentsMetadataName then
    .error (corruptIntentHistory "metadata is not the active transaction intent index")
  else
    match metadata.value with
    | .bytes bytes => decodeActiveIndex bytes
    | _ => .error (corruptIntentHistory "active transaction intent index is not bytes")

omit [Blake3] in
theorem decodeActiveEntries_flatMap (entries : List (TransactionId × Digest32))
    (hordered : entries.Pairwise (fun a b => a.1 < b.1)) (previous : Option TransactionId)
    (hprevious : ∀ last ∈ previous, ∀ entry ∈ entries, last < entry.1)
    (indexed : OrderedMap TransactionId Digest32) :
    decodeActiveEntries previous indexed entries.length
      (entries.flatMap fun entry => entry.1.toBytes ++ entry.2.bytes) =
      .ok (entries.foldl (fun m entry => m.insert entry.1 entry.2) indexed) := by
  induction entries generalizing previous indexed with
  | nil => rfl
  | cons entry entries ih =>
    obtain ⟨id, digest⟩ := entry
    rw [List.pairwise_cons] at hordered
    have hid : (id.toBytes ++ digest.bytes ++
        entries.flatMap fun entry => entry.1.toBytes ++ entry.2.bytes).take 16 = id.toBytes := by
      rw [List.append_assoc]
      exact List.take_left' (Identifier.length_toBytes id)
    have hdigest : digestAt (id.toBytes ++ digest.bytes ++
        entries.flatMap fun entry => entry.1.toBytes ++ entry.2.bytes) 16 = digest :=
      digestAt_of_slice (slice_append (Identifier.length_toBytes id) (by simp))
    have hrest : (id.toBytes ++ digest.bytes ++
        entries.flatMap fun entry => entry.1.toBytes ++ entry.2.bytes).drop 48 =
        entries.flatMap fun entry => entry.1.toBytes ++ entry.2.bytes :=
      List.drop_left' (by simp [IdKind.bytes])
    have hlast : ¬ ∃ last ∈ previous, id ≤ last := by
      rintro ⟨last, hlast, hle⟩
      exact absurd (hprevious last hlast _ List.mem_cons_self) (not_lt.mpr hle)
    rw [List.length_cons, decodeActiveEntries, List.flatMap_cons, hid, hdigest, hrest,
      Identifier.new_decode_toBytes]
    simp only
    rw [if_neg hlast, List.foldl_cons]
    refine ih hordered.2 (some id) ?_ _
    intro last hlast entry hentry
    cases hlast
    exact hordered.1 entry hentry

theorem decodeActiveIndex_activeIndexBytes (h : active.size ≤ maxTransactionIntentItems) :
    decodeActiveIndex (activeIndexBytes active) = .ok (active.map fun _ intent => intent.digest) := by
  have hone : decode (encode 4 1) = 1 := decode_encode (by decide)
  have hversion : (activeIndexBytes active).take 4 = encode 4 1 := by
    rw [activeIndexBytes, List.append_assoc]
    exact List.take_left' (by simp)
  have hsize : slice (activeIndexBytes active) 4 8 = encode 4 active.size :=
    slice_append (by simp) (by simp)
  have hcount : decode (encode 4 active.size) = active.size :=
    decode_encode (lt_of_le_of_lt h (by decide))
  have hentries : (activeIndexBytes active).drop 8 =
      (active.map fun _ intent => intent.digest).toList.flatMap
        fun entry => entry.1.toBytes ++ entry.2.bytes := by
    rw [Std.ExtTreeMap.toList_map, List.flatMap_map]
    exact List.drop_left' (by simp)
  have hlength : (activeIndexBytes active).length = 8 + active.size * 48 := by
    rw [activeIndexBytes, List.length_append, ← Std.ExtTreeMap.length_toList, List.length_flatMap]
    simp [IdKind.bytes]
  rw [decodeActiveIndex, if_neg (by rw [hlength, hversion, hone]; omega)]
  simp only [hsize, hcount]
  rw [if_neg (by omega), hentries]
  have hmapped : (active.map fun _ intent => intent.digest).toList.length = active.size := by
    rw [Std.ExtTreeMap.toList_map, List.length_map, Std.ExtTreeMap.length_toList]
  rw [← hmapped, decodeActiveEntries_flatMap _ (OrderedMap.ordered_toList _) none (by simp),
    OrderedMap.foldl_insert_toList]

theorem activeIntentsMetadata_eq_ok (h : active.size ≤ maxTransactionIntentItems) :
    activeIntentsMetadata active =
      .ok (activeIntents.record (activeIndexBytes active)) := by
  rw [activeIntentsMetadata, if_neg (not_lt.mpr h)]

theorem decodeActiveIntentsMetadata_of_eq_ok (h : activeIntentsMetadata active = .ok metadata) :
    decodeActiveIntentsMetadata metadata = .ok (active.map fun _ intent => intent.digest) := by
  unfold activeIntentsMetadata at h
  split_ifs at h with hsize
  cases h
  rw [decodeActiveIntentsMetadata, record_name]
  simp only [name, ne_eq, not_true_eq_false, if_false, record]
  exact decodeActiveIndex_activeIndexBytes (not_lt.mp hsize)

def homeDecisionMetadata (command : RecordHomeDecision) : Except ShardError ReplicaMetadata := do
  let bytes ← (ShardCommand.recordHomeDecision command).encodeCurrent
  .ok ((ReservedKey.homeDecision command.decision.id).record bytes)

def decodeHomeDecisionMetadata (metadata : ReplicaMetadata) :
    Except ShardError RecordHomeDecision := do
  let transactionId ← transactionIdFromMetadataName metadata.name homeDecisionMetadataBase
    "Home decision"
  match metadata.value with
  | .bytes bytes =>
    match ← ShardCommand.decode bytes with
    | .recordHomeDecision command =>
      if command.decision.id ≠ transactionId then
        .error (corruptIntentHistory "Home decision metadata name contradicts its transaction ID")
      else .ok command
    | _ => .error (corruptIntentHistory "Home decision metadata contains another command type")
  | _ => .error (corruptIntentHistory "Home decision metadata is not bytes")

theorem exists_homeDecisionMetadata (command : RecordHomeDecision) :
    ∃ metadata, homeDecisionMetadata command = .ok metadata ∧
      metadata.name = (homeDecision command.decision.id).name ∧
      decodeHomeDecisionMetadata metadata = .ok command := by
  obtain ⟨bytes, hbytes⟩ := ShardCommand.exists_encodeCurrent_recordHomeDecision command
  refine ⟨(homeDecision command.decision.id).record bytes, ?_, rfl, ?_⟩
  · rw [homeDecisionMetadata, hbytes]
    rfl
  · have hname : transactionIdFromMetadataName (homeDecision command.decision.id).name
        homeDecisionMetadataBase "Home decision" = .ok command.decision.id :=
      transactionIdFromMetadataName_name _ _ _
    rw [decodeHomeDecisionMetadata, record_name, hname]
    simp only [bind, Except.bind, record,
      ShardCommand.decode_encodeCurrent_recordHomeDecision hbytes]
    exact if_neg (by simp)

end Records

end DtgProxy.Shard

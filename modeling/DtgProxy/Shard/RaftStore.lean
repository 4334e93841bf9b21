import DtgProxy.Shard.CommandCodec
import DtgProxy.Storage.ConsensusLog

/-! # Raft entries in the consensus store

A Raft entry is stored as a consensus entry whose payload holds its type, context
and data.  After a restart the state machine is fed the committed entries beyond
the last one it applied.
-/
namespace DtgProxy.Shard

open Kernel Lib Storage ByteCodec Storage.FjallConsensusStore

inductive EntryType where
  | normal
  | confChange
  | confChangeV2
deriving DecidableEq

def EntryType.tag : EntryType → UInt8
  | .normal => 0
  | .confChange => 1
  | .confChangeV2 => 2

def EntryType.ofTag (tag : UInt8) : Option EntryType :=
  if tag = 0 then some .normal
  else if tag = 1 then some .confChange
  else if tag = 2 then some .confChangeV2
  else none

theorem EntryType.ofTag_tag (entryType : EntryType) : ofTag entryType.tag = some entryType := by
  cases entryType <;> rfl

/-- The fields of an entry of the `raft` crate that are stored. -/
structure RaftEntry where
  entryType : EntryType
  term : ℕ
  index : ℕ
  context : List UInt8
  data : List UInt8
deriving DecidableEq

def maxRaftWalEntryBytes : ℕ := 16 * 1024 * 1024 + 1024

/-- The identifier of the command of an entry; an entry without data is named after
its term and index. -/
def entryCommandId [Blake3] (entry : RaftEntry) : Except ShardError CommandId :=
  if entry.data = [] then
    match Identifier.new (entry.term <<< 64 ||| entry.index) with
    | some commandId => .ok commandId
    | none => .error (.storage (.invalidBatch "command identifier must be nonzero"))
  else do
    let command ← ShardCommand.decode entry.data
    if entry.context ≠ command.header.commandId.toBytes then
      .error (.invalidRaftState "Raft proposal context does not match command identifier")
    else .ok command.header.commandId

/-! ## The stored form -/

namespace RaftStore

def putBytes (value : List UInt8) : Except ShardError (List UInt8) :=
  if 2 ^ 32 ≤ value.length then .error (.invalidRaftState "Raft entry field is too large")
  else .ok (BigEndian.encode 4 value.length ++ value)

def encodeConsensusEntry [Blake3] (entry : RaftEntry) : Except ShardError ConsensusEntry :=
  if entry.term = 0 ∨ entry.index = 0 then
    .error (.invalidRaftState "Raft WAL entry identity must be nonzero")
  else if maxRaftWalEntryBytes < 13 + entry.context.length + entry.data.length then
    .error (.invalidRaftState "Raft WAL entry is oversized")
  else do
    let commandId ← entryCommandId entry
    let context ← putBytes entry.context
    let data ← putBytes entry.data
    let envelope ← (ConsensusCommandEnvelope.new 1
      (BigEndian.encode 4 1 ++ ([entry.entryType.tag] ++ (context ++ data)))).mapError .storage
    (ConsensusEntry.new 1 entry.term entry.index commandId envelope).mapError .storage

def truncated : ShardError := .invalidRaftState "truncated Raft WAL entry"

def takeU32 : ByteM ShardError Unit ℕ := do
  let word ← take truncated 4
  pure (BigEndian.decode word)

def takeBytes : ByteM ShardError Unit (List UInt8) := takeU32 >>= take truncated

def takeFields : ByteM ShardError Unit (UInt8 × List UInt8 × List UInt8) := do
  let version ← takeU32
  if version ≠ 1 then
    fail (.invalidRaftState
      ("unsupported internal Raft entry version " ++ toString version))
  else do
    let tag ← take truncated 1
    let context ← takeBytes
    let data ← takeBytes
    pure (tag.headD 0, context, data)

def decodeRaftEntry [Blake3] (entry : ConsensusEntry) : Except ShardError RaftEntry :=
  if maxRaftWalEntryBytes < entry.command.payload.length then
    .error (.invalidRaftState "Raft WAL entry is oversized")
  else do
    let ((tag, context, data), rest, _) ← takeFields (entry.command.payload, ())
    if rest ≠ [] then .error (.invalidRaftState "Raft WAL entry contains trailing bytes")
    else
      match EntryType.ofTag tag with
      | none => .error (.invalidRaftState "unknown Raft WAL entry type")
      | some entryType => do
        let raftEntry : RaftEntry := ⟨entryType, entry.term, entry.index, context, data⟩
        let commandId ← entryCommandId raftEntry
        if commandId ≠ entry.commandId then
          .error (.invalidRaftState "Raft WAL command identifier mismatch")
        else .ok raftEntry

theorem reads_takeU32 {value : ℕ} (h : value < 256 ^ 4) :
    Reads takeU32 value (BigEndian.encode 4 value) () () :=
  (reads_take _ _ (BigEndian.length_encode _ _)).then (by rw [BigEndian.decode_encode h])

theorem reads_takeBytes {value word : List UInt8} (h : putBytes value = .ok word) :
    Reads takeBytes value word () () ∧ word.length = 4 + value.length := by
  rw [putBytes] at h
  split_ifs at h with hlong
  cases h
  exact ⟨(reads_takeU32 (by omega)).bind (reads_take _ _ rfl), by simp⟩

theorem decode_encodeConsensusEntry [Blake3] {entry : RaftEntry} {stored : ConsensusEntry}
    (h : encodeConsensusEntry entry = .ok stored) : decodeRaftEntry stored = .ok entry := by
  rw [encodeConsensusEntry] at h
  split_ifs at h with hidentity hsize
  obtain ⟨commandId, hid, h⟩ := Result.bind_eq_ok.mp h
  obtain ⟨context, hcontext, h⟩ := Result.bind_eq_ok.mp h
  obtain ⟨data, hdata, h⟩ := Result.bind_eq_ok.mp h
  obtain ⟨envelope, henvelope, hstored⟩ := Result.bind_eq_ok.mp h
  rw [Result.mapError_eq_ok] at henvelope hstored
  rw [ConsensusCommandEnvelope.new] at henvelope
  split_ifs at henvelope
  rw [ConsensusEntry.new] at hstored
  split_ifs at hstored
  cases henvelope
  cases hstored
  obtain ⟨hreadContext, hcontextLength⟩ := reads_takeBytes hcontext
  obtain ⟨hreadData, hdataLength⟩ := reads_takeBytes hdata
  have hfields : Reads takeFields (entry.entryType.tag, entry.context, entry.data)
      (BigEndian.encode 4 1 ++ ([entry.entryType.tag] ++ (context ++ data))) () () := by
    refine (reads_takeU32 (by decide)).bind ?_
    refine (reads_take _ () List.length_singleton).bind (hreadContext.bind ?_)
    exact hreadData.then rfl
  have hfields := hfields []
  rw [List.append_nil] at hfields
  have hfits : ¬ maxRaftWalEntryBytes <
      (BigEndian.encode 4 1 ++ ([entry.entryType.tag] ++ (context ++ data))).length := by
    simp only [List.length_append, BigEndian.length_encode, List.length_singleton, hcontextLength,
      hdataLength]
    omega
  simp only [decodeRaftEntry, if_neg hfits, hfields, Bind.bind, Except.bind, ne_eq,
    not_true_eq_false, if_false, EntryType.ofTag_tag, hid]

end RaftStore

/-! ## Recovery -/

/-- The parts of the consensus store that recovery reads: the log, the committed
index of the hard state and the last index the snapshot includes. -/
structure RaftStore where
  store : FjallConsensusStore
  committedIndex : ℕ
  snapshotMetadata : Option ℕ

namespace RaftStore

def snapshotIndex (raft : RaftStore) : ℕ := raft.snapshotMetadata.getD 0

def recoveryEntries [Blake3] (raft : RaftStore) (appliedIndex : ℕ) :
    Except ShardError (List RaftEntry) :=
  if appliedIndex < raft.snapshotIndex then
    .error (.snapshotStateMissing raft.snapshotIndex appliedIndex)
  else if raft.committedIndex < appliedIndex then
    .error (.invalidRaftState "state machine applied index exceeds the committed WAL")
  else if raft.committedIndex = appliedIndex then .ok []
  else if Storage.u64Max < raft.committedIndex + 1 then
    .error (.invalidRaftState "committed index cannot be represented as a range")
  else do
    let low := saturatingAdd appliedIndex 1
    let entries ← (raft.store.entries low (raft.committedIndex + 1) Storage.u64Max).mapError
      .storage
    if entries.length ≠ raft.committedIndex - appliedIndex ∨
        entries.zipIdx.any (fun (entry, offset) => entry.index ≠ low + offset) = true then
      .error (.invalidRaftState "committed WAL suffix is missing or discontiguous")
    else entries.mapM decodeRaftEntry

variable {log : OrderedMap ℕ ConsensusEntry} {entries : List ConsensusEntry}

theorem takeWithin_u64Max (used : ℕ) :
    Segment.takeWithin encodedSize (fitsBudget Storage.u64Max) used entries = entries := by
  induction entries generalizing used with
  | nil => rfl
  | cons entry entries ih => rw [Segment.takeWithin, ih, if_pos (by simp [fitsBudget])]

/-- A range of the log is what a lookup of each of its indices finds. -/
theorem rangeOf_eq (log : OrderedMap ℕ ConsensusEntry) (low count : ℕ) :
    rangeOf log low (low + count) = (List.range' low count).filterMap (log[·]?) := by
  have hitems : (log.filter fun i _ => decide (low ≤ i ∧ i < low + count)).toList =
      (List.range' low count).filterMap fun i => log[i]?.map (Prod.mk i) := by
    refine OrderedMap.toList_eq_of_ordered ?_ fun i entry => ?_
    · exact (List.pairwise_lt_range' 1).filterMap _ (by grind)
    · rw [← Std.ExtTreeMap.mem_toList_iff_getElem?_eq_some, Std.ExtTreeMap.toList_filter,
        List.mem_filter, Std.ExtTreeMap.mem_toList_iff_getElem?_eq_some]
      grind
  rw [Std.ExtTreeMap.toList_filter] at hitems
  rw [rangeOf, hitems, List.map_filterMap]
  simp [Function.comp_def]

theorem contiguous_iff {low count : ℕ} :
    ¬ (entries.length ≠ count ∨
      entries.zipIdx.any (fun (entry, offset) => entry.index ≠ low + offset) = true) ↔
      entries.map ConsensusEntry.index = List.range' low count := by
  simp only [List.any_eq_true, Prod.exists, List.mem_zipIdx_iff_getElem?, List.ext_getElem_iff,
    List.getElem?_eq_some_iff, List.length_map, List.length_range', List.getElem_map,
    List.getElem_range', decide_eq_true_eq]
  grind

theorem index_of_decodeRaftEntry [Blake3] {stored : ConsensusEntry} {entry : RaftEntry}
    (h : decodeRaftEntry stored = .ok entry) : entry.index = stored.index := by
  rw [decodeRaftEntry] at h
  split_ifs at h
  obtain ⟨⟨⟨tag, context, data⟩, rest, _⟩, -, h⟩ := Result.bind_eq_ok.mp h
  dsimp only at h
  split_ifs at h
  split at h
  · cases h
  · obtain ⟨commandId, -, h⟩ := Result.bind_eq_ok.mp h
    split_ifs at h
    cases h
    rfl

/-- The log has under the index an entry that decodes to `entry`. -/
def Recovers [Blake3] (log : OrderedMap ℕ ConsensusEntry) (i : ℕ) (entry : RaftEntry) : Prop :=
  entry.index = i ∧ ∃ stored, log[i]? = some stored ∧ decodeRaftEntry stored = .ok entry

theorem decoded_iff [Blake3] (hindexed : ∀ (i : ℕ) stored, log[i]? = some stored → stored.index = i)
    (indices : List ℕ) (entries : List RaftEntry) :
    ((indices.filterMap (log[·]?)).map ConsensusEntry.index = indices ∧
        (indices.filterMap (log[·]?)).mapM decodeRaftEntry = .ok entries) ↔
      List.Forall₂ (Recovers log) indices entries := by
  induction indices generalizing entries with
  | nil => simp [pure, Except.pure, eq_comm]
  | cons i indices ih =>
    rw [List.forall₂_cons_left_iff]
    cases hlookup : log[i]? with
    | none =>
      have hle := List.length_filterMap_le (getElem? log) indices
      rw [List.filterMap_cons_none hlookup]
      constructor
      · rintro ⟨hmap, -⟩
        have hlength := congrArg List.length hmap
        rw [List.length_map, List.length_cons] at hlength
        omega
      · rintro ⟨entry, rest, ⟨-, stored, hstored, -⟩, -⟩
        simp [hlookup] at hstored
    | some stored =>
      have hindex := hindexed i stored hlookup
      simp only [List.filterMap_cons_some hlookup, List.map_cons, List.cons.injEq, hindex, true_and,
        List.mapM_cons, Result.bind_eq_ok, ← ih]
      constructor
      · rintro ⟨hmap, entry, hentry, rest, hrest, hentries⟩
        cases hentries
        have hentryIndex := (index_of_decodeRaftEntry hentry).trans hindex
        exact ⟨entry, rest, ⟨hentryIndex, stored, hlookup, hentry⟩, ⟨hmap, hrest⟩, rfl⟩
      · rintro ⟨entry, rest, ⟨-, found, hfound, hentry⟩, ⟨hmap, hrest⟩, rfl⟩
        cases hlookup.symm.trans hfound
        exact ⟨hmap, entry, hentry, rest, hrest, rfl⟩

/-- A stored entry is read back as it was.  Recovery succeeds when the snapshot is
not ahead of the applied index, this not ahead of the committed one, and no entry
between the two is missing; it then returns these entries in order. -/
theorem recovery_exact [Blake3] {raft : RaftStore} (h : raft.store.Holds log) (appliedIndex : ℕ) :
    (∀ entry stored, encodeConsensusEntry entry = .ok stored → decodeRaftEntry stored = .ok entry) ∧
    ∀ entries, raft.recoveryEntries appliedIndex = .ok entries ↔
      (raft.snapshotIndex ≤ appliedIndex ∧ appliedIndex ≤ raft.committedIndex ∧
        (raft.committedIndex = appliedIndex ∨ raft.committedIndex < Storage.u64Max)) ∧
      List.Forall₂ (Recovers log)
        (List.range' (appliedIndex + 1) (raft.committedIndex - appliedIndex)) entries := by
  refine ⟨fun entry stored => decode_encodeConsensusEntry, fun entries => ?_⟩
  rw [recoveryEntries]
  split_ifs with hsnapshot happlied heq hword
  · simp; omega
  · simp; omega
  · rw [heq, Nat.sub_self, List.range'_zero, List.forall₂_nil_left_iff,
      and_iff_right ⟨not_lt.mp hsnapshot, le_rfl, .inl rfl⟩, Except.ok.injEq, eq_comm]
  · simp; omega
  · have hlow : saturatingAdd appliedIndex 1 = appliedIndex + 1 :=
      (saturatingAdd_one_of_lt (by rw [Storage.u64Max] at hword; omega) rfl).symm
    have hhigh : raft.committedIndex + 1 =
        appliedIndex + 1 + (raft.committedIndex - appliedIndex) := by omega
    have hread : raft.store.entries (appliedIndex + 1) (raft.committedIndex + 1) Storage.u64Max =
        .ok ((List.range' (appliedIndex + 1) (raft.committedIndex - appliedIndex)).filterMap
          (log[·]?)) := by
      rw [h.entries_eq (by omega) (by decide), takeWithin_u64Max, hhigh, rangeOf_eq]
    rw [and_iff_right ⟨by omega, by omega, .inr (by omega)⟩, ← decoded_iff h.indexed,
      ← contiguous_iff]
    simp only [hlow, hread, Except.mapError, Bind.bind, Except.bind]
    split_ifs with hgap
    · exact ⟨False.elim, fun hread => absurd hgap hread.1⟩
    · exact (and_iff_right hgap).symm

def sampleCommand : letI := foldHash; ShardCommand :=
  letI := foldHash
  .advanceClosedTimestamp ⟨⟨9, 1, 1⟩, 5⟩

/-- A command between two entries without data. -/
def sampleEntries : List RaftEntry :=
  letI := foldHash
  [⟨.normal, 1, 1, [], []⟩,
    ⟨.normal, 1, 2, sampleCommand.header.commandId.toBytes,
      sampleCommand.encodeCurrent.toOption.getD []⟩,
    ⟨.normal, 2, 3, [], []⟩]

/-- A store with these entries, all of them committed. -/
def sampleRaft (snapshotMetadata : Option ℕ) : RaftStore :=
  letI := foldHash
  ⟨run (Storage.sampleBinding .fjall)
    [.append ((sampleEntries.mapM encodeConsensusEntry).toOption.getD [])], 3, snapshotMetadata⟩

theorem sampleRaft_recovers :
    letI := foldHash
    (∀ entry ∈ sampleEntries, ∃ stored, encodeConsensusEntry entry = .ok stored ∧
        decodeRaftEntry stored = .ok entry) ∧
      ∃ log, (sampleRaft none).store.Holds log ∧
        List.Forall₂ (Recovers log) [1, 2, 3] sampleEntries := by
  let _ := foldHash
  obtain ⟨log, h⟩ : ∃ log, (sampleRaft none).store.Holds log := by
    dsimp only [sampleRaft]
    exact run_holds _ _
  have hrun : (sampleRaft none).recoveryEntries 0 = .ok sampleEntries := by decide +kernel
  have hencoded : ∀ entry ∈ sampleEntries, (encodeConsensusEntry entry).isOk = true := by
    decide +kernel
  obtain ⟨hcodec, hrecovery⟩ := recovery_exact h 0
  refine ⟨fun entry hentry => ?_, log, h, ((hrecovery _).mp hrun).2⟩
  have hstored := Result.eq_ok_value _ (hencoded entry hentry)
  exact ⟨_, hstored, hcodec _ _ hstored⟩

/-- With a snapshot ahead of the applied index recovery fails, though the same log
and the same indices are recovered from without one. -/
theorem sampleRaft_snapshot_ahead :
    letI := foldHash
    (sampleRaft none).recoveryEntries 0 = .ok sampleEntries ∧
      (sampleRaft (some 1)).recoveryEntries 0 = .error (.snapshotStateMissing 1 0) := by
  decide +kernel

end RaftStore

end DtgProxy.Shard

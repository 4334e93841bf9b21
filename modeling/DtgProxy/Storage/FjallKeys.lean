import DtgProxy.Lib.ByteOrder
import DtgProxy.Storage.FjallLog

/-! # The bytes of the history keys

The history keyspace is ordered by the bytes of its keys.  For the keys of a log whose
indices fit a word that order is the order of the fields, so the keyspace is visited as
if it were keyed by them.
-/
namespace DtgProxy.Storage

open Kernel Lib ReplicaStore

namespace HistoryKey

/-- `history_occurrence_key` of `history_key`. -/
def bytes (key : HistoryKey) : ByteKey :=
  ⟨BigEndian.encode 1 key.element.toNat ++ (BigEndian.encode 16 key.id ++
    (BigEndian.encode 8 key.transactionTime ++ (BigEndian.encode 8 key.version ++
      (BigEndian.encode 1 key.tombstone.toNat ++ (BigEndian.encode 8 key.cursor.raftIndex ++
        (BigEndian.encode 8 key.cursor.mutationOrdinal ++ []))))))⟩

/-- The fields fit the words they are written as. -/
structure Fits (key : HistoryKey) : Prop where
  id : key.id < 256 ^ 16
  transactionTime : key.transactionTime < 256 ^ 8
  version : key.version < 256 ^ 8
  raftIndex : key.cursor.raftIndex < 256 ^ 8
  mutationOrdinal : key.cursor.mutationOrdinal < 256 ^ 8

theorem bytes_lt_iff {key key' : HistoryKey} (h : key.Fits) (h' : key'.Fits) :
    key.bytes < key'.bytes ↔ key < key' := by
  have helement : ∀ key : HistoryKey, key.element.toNat < 256 ^ 1 := fun key =>
    key.element.toNat_lt
  have htombstone : ∀ key : HistoryKey, key.tombstone.toNat < 256 ^ 1 := fun key =>
    lt_of_le_of_lt key.tombstone.toNat_le (by decide)
  have hflag : ∀ a b : Bool, (a.toNat < b.toNat ↔ a < b) ∧ (a.toNat = b.toNat ↔ a = b) := by
    decide
  rw [ByteKey.lt_def, bytes, bytes, ByteKey.digits_field_lt_iff (helement key) (helement key'),
    ByteKey.digits_field_lt_iff h.id h'.id,
    ByteKey.digits_field_lt_iff h.transactionTime h'.transactionTime,
    ByteKey.digits_field_lt_iff h.version h'.version,
    ByteKey.digits_field_lt_iff (htombstone key) (htombstone key'),
    ByteKey.digits_field_lt_iff h.raftIndex h'.raftIndex,
    ByteKey.digits_field_lt_iff h.mutationOrdinal h'.mutationOrdinal, (hflag _ _).1, (hflag _ _).2]
  change _ ↔ toLex (key.element.toNat, toLex (key.id, toLex (key.transactionTime,
    toLex (key.version, toLex (key.tombstone, key.cursor))))) <
    toLex (key'.element.toNat, toLex (key'.id, toLex (key'.transactionTime,
      toLex (key'.version, toLex (key'.tombstone, key'.cursor)))))
  simp only [Prod.Lex.toLex_lt_toLex, ChangeCursor.lt_iff, lt_irrefl, and_false, or_false]

theorem bytes_inj {key key' : HistoryKey} (h : key.Fits) (h' : key'.Fits)
    (hbytes : key.bytes = key'.bytes) : key = key' := by
  rcases lt_trichotomy key key' with hlt | heq | hgt
  · exact absurd hbytes (ne_of_lt ((bytes_lt_iff h h').mpr hlt))
  · exact heq
  · exact absurd hbytes (ne_of_gt ((bytes_lt_iff h' h).mpr hgt))

end HistoryKey

/-- The indices and ordinals of the log fit a word. -/
structure LogFits (log : List StoredBatch) : Prop where
  length : log.length < 256 ^ 8
  mutations : ∀ batch ∈ log, batch.mutations.length ≤ 256 ^ 8

variable {change : ChangeRecord}

theorem fits_historyKey {key : HistoryKey} (hindex : change.cursor.raftIndex < 256 ^ 8)
    (hordinal : change.cursor.mutationOrdinal < 256 ^ 8)
    (h : historyKey change.mutation change.cursor = some key) : key.Fits := by
  have htime : ∀ time : TransactionTime, time.get < 256 ^ 8 := fun time =>
    lt_trans time.inRange (by norm_num)
  cases hmutation : change.mutation with
  | putTransaction | putReplicaMetadata =>
    rw [hmutation] at h
    cases h
  | _ version =>
    rw [hmutation] at h
    cases h
    exact ⟨version.id.inRange, htime _, version.version.toNat_lt, hindex, hordinal⟩

theorem cursor_lt_of_mem_changesFrom {index : ℕ} {batches : List StoredBatch}
    (h : change ∈ changesFrom index batches) :
    change.cursor.raftIndex < index + batches.length ∧
      ∃ batch ∈ batches, change.cursor.mutationOrdinal < batch.mutations.length := by
  induction batches generalizing index with
  | nil => cases h
  | cons batch batches ih =>
    rcases List.mem_append.mp h with h | h
    · obtain ⟨hindex, hget⟩ := mem_batchChanges.mp h
      refine ⟨by rw [hindex, List.length_cons]; omega, batch, List.mem_cons_self, ?_⟩
      exact (List.getElem?_eq_some_iff.mp hget).1
    · obtain ⟨hindex, other, hother, hordinal⟩ := ih h
      exact ⟨by rw [List.length_cons]; omega, other, List.mem_cons_of_mem _ hother, hordinal⟩

theorem fits_of_mem_keyOrder {log : List StoredBatch} (h : LogFits log)
    {entry : HistoryKey × LogicalMutation}
    (hentry : entry ∈ FjallTables.keyOrder (changesFrom 1 log)) : entry.1.Fits := by
  obtain ⟨change, hchange, hkey, -⟩ :=
    (FjallTables.mem_keyOrder (changesFrom_ordered 1 log)).mp hentry
  obtain ⟨hindex, batch, hbatch, hordinal⟩ := cursor_lt_of_mem_changesFrom hchange
  refine fits_historyKey ?_ (lt_of_lt_of_le hordinal (h.mutations batch hbatch)) hkey
  -- the first index is one, so the last is the length of the log
  have := h.length
  omega

namespace FjallTables

/-- The history keyspace as it is stored: what `stage_history_mutation` writes for a
change feed. -/
def byteHistory (changes : List ChangeRecord) : OrderedMap ByteKey LogicalMutation :=
  (changes.filterMap historyEntry).foldl (fun m entry => m.insert entry.1.bytes entry.2) ∅

/-- The stored keyspace is visited in the order of the fields. -/
theorem toList_byteHistory {log : List StoredBatch} (h : LogFits log) :
    (byteHistory (changesFrom 1 log)).toList =
      (keyOrder (changesFrom 1 log)).map fun entry => (entry.1.bytes, entry.2) := by
  have hordered := changesFrom_ordered 1 log
  generalize hchanges : changesFrom 1 log = changes at hordered
  have hfits : ∀ entry ∈ keyOrder changes, entry.1.Fits := by
    rw [← hchanges]
    exact fun entry hentry => fits_of_mem_keyOrder h hentry
  have hmem : ∀ entry : HistoryKey × LogicalMutation,
      entry ∈ changes.filterMap historyEntry ↔ entry ∈ keyOrder changes := by
    rintro ⟨key, mutation⟩
    rw [mem_keyOrder hordered, List.mem_filterMap]
    simp only [historyEntry, Option.map_eq_some_iff, Prod.mk.injEq]
    constructor
    · rintro ⟨change, hchange, key', hkey, rfl, rfl⟩
      exact ⟨change, hchange, hkey, rfl⟩
    · rintro ⟨change, hchange, hkey, rfl⟩
      exact ⟨change, hchange, key, hkey, rfl, rfl⟩
  have hdistinct : (((changes.filterMap historyEntry).map fun entry =>
      (entry.1.bytes, entry.2)).map Prod.fst).Nodup := by
    rw [List.map_map]
    have hkeys := List.pairwise_map.mp (historyEntries_nodup hordered)
    refine List.pairwise_map.mpr (hkeys.imp_of_mem fun {a b} ha hb hab heq => hab ?_)
    exact HistoryKey.bytes_inj (hfits a ((hmem a).mp ha)) (hfits b ((hmem b).mp hb)) heq
  refine OrderedMap.toList_eq_of_ordered ?_ fun key mutation => ?_
  · refine List.pairwise_map.mpr ((keyOrder_ordered changes).imp_of_mem fun {a b} ha hb hab => ?_)
    exact (HistoryKey.bytes_lt_iff (hfits a ha) (hfits b hb)).mpr hab
  · have hfold : byteHistory changes = ((changes.filterMap historyEntry).map fun entry =>
        (entry.1.bytes, entry.2)).foldl (fun m entry => m.insert entry.1 entry.2) ∅ := by
      rw [byteHistory, List.foldl_map]
    rw [hfold, OrderedMap.lookup_foldl_insert _ _ hdistinct]
    simp [hmem]

end FjallTables

end DtgProxy.Storage
